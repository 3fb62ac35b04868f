import OfficeMath.Proofs.Equation.DepthLimit
import OfficeMath.Proofs.Store.Render

/-! Room in a store. There are numbers for so many nodes that an element with no more elements in it than that never
    fills the store: it is built whole, or it is refused because it is too deep. Which of the two it is depends only on
    where the elements that become nodes stand. -/

namespace OfficeMath

/-! ### Sizes -/

mutual

/-- The number of elements in the element, with itself. -/
def Xml.Element.size : Xml.Element → Nat
  | .mk _ _ content => Xml.Content.sizeAll content + 1

/-- The number of elements in the items. -/
def Xml.Content.sizeAll : List Xml.Content → Nat
  | [] => 0
  | .element e :: content => e.size + Xml.Content.sizeAll content
  | _ :: content => Xml.Content.sizeAll content

end

theorem Xml.Content.sizeAll_append (content content' : List Content) :
    sizeAll (content ++ content') = sizeAll content + sizeAll content' := by
  induction content with
  | nil => simp [sizeAll]
  | cons c content ih => cases c <;> simp [sizeAll, ih, Nat.add_assoc]

namespace Node

variable {limit : Nat}

mutual

/-- Every node comes from an element. -/
theorem size_le_of_read : ∀ (e : Xml.Element) {depth : Nat} {n : Node Unit}, read limit depth e = .ok n →
    n.size ≤ e.size
  | .mk name attributes content, depth, n, h => by
    rw [read] at h
    rw [Xml.Element.size]
    split at h
    · cases h
    · dsimp only at h
      split at h
      · cases h
        rw [size]
        exact Nat.succ_le_succ (Nat.zero_le _)
      · split at h
        · cases h
        · next ns hns =>
          cases h
          rw [size]
          exact Nat.succ_le_succ (sizeAll_le_of_readAll content hns)

theorem sizeAll_le_of_readAll : ∀ (content : List Xml.Content) {depth : Nat} {ns : List (Node Unit)},
    readAll limit depth content = .ok ns → sizeAll ns ≤ Xml.Content.sizeAll content
  | [], _, _, h => by
    cases h
    exact Nat.le_refl 0
  | .element e :: content, depth, ns, h => by
    obtain ⟨m, ks, hm, hks, rfl⟩ := readAll_element_eq_ok_iff.mp h
    rw [sizeAll, Xml.Content.sizeAll]
    exact Nat.add_le_add (size_le_of_read e hm) (sizeAll_le_of_readAll content hks)
  | .text _ :: content, _, _, h | .comment _ :: content, _, _, h | .instruction _ :: content, _, _, h =>
    sizeAll_le_of_readAll content h

end

end Node

namespace Store

open Node (note)

variable {limit depth : Nat} {error : Error}

/-! ### Elements that are refused -/

theorem add_of_room {s : Store} {e : Xml.Element} {n : Node Unit} (parent : Option (Node Nat))
    (enclosure : Enclosure Nat) (hread : Node.read limit depth e = .ok n) (hroom : s.cells.length + e.size ≤ capacity) :
    add limit depth (parent.map note) s e =
      .ok (s.extend ((n.number s.cells.length).entries parent enclosure), s.cells.length) := by
  have hfollows := add_followsReading limit depth parent enclosure s e
  rw [hread] at hfollows
  have hsize := Node.size_le_of_read e hread
  refine Eq.trans hfollows (if_pos ?_)
  omega

mutual

/-- An element that cannot be read is refused if there is room for all that it holds. -/
theorem add_eq_refused : ∀ (e : Xml.Element) {depth : Nat} (parent : Option Nat) (s : Store),
    Node.read limit depth e = .error error → s.cells.length + e.size ≤ capacity →
      add limit depth parent s e = .error (.refused error)
  | .mk name attributes content, depth, parent, s, h, hroom => by
    rw [Node.read] at h
    rw [add]
    rw [Xml.Element.size] at hroom
    split at h
    · next hlimit =>
      cases h
      rw [if_pos hlimit]
      rfl
    · next hlimit =>
      rw [if_neg hlimit, push, if_pos (by omega)]
      dsimp only at h
      split at h
      · cases h
      · next hrun =>
        have hrun : (Form.ofElement (.mk name attributes content)).isRun = false := Bool.eq_false_iff.mpr hrun
        split at h
        · next hread =>
          cases h
          generalize placeholder (.mk name attributes content) parent = cell
          have hlength : (s.cells ++ [cell]).length = s.cells.length + 1 := List.length_append
          have hchildren := addAll_eq_refused content ⟨s.cells ++ [cell], s.roots⟩
            (.mk (Head.ofElement (.mk name attributes content)) s.cells.length []) hread (by simp)
            (by dsimp only; omega)
          rw [Node.note_mk] at hchildren
          dsimp only [bind, Except.bind, pure, Except.pure]
          rw [hrun, if_neg Bool.false_ne_true, hchildren]
        · cases h

theorem addAll_eq_refused : ∀ (content : List Xml.Content) {depth : Nat} (s : Store) (p : Node Nat),
    Node.readAll limit depth content = .error error → p.note < s.cells.length →
      s.cells.length + Xml.Content.sizeAll content ≤ capacity →
        addAll limit depth p.note s content = .error (.refused error)
  | [], _, _, _, h, _, _ => by cases h
  | .element e :: content, depth, s, p, h, hp, hroom => by
    rw [Xml.Content.sizeAll] at hroom
    rw [addAll]
    rcases Node.readAll_element_eq_error_iff.mp h with hread | ⟨n, hread, hrest⟩
    · rw [add_eq_refused e (some p.note) s hread (by omega)]
      rfl
    · have hsize := Node.size_le_of_read e hread
      have hadd := add_of_room (s := s) (some p) .none hread (by omega)
      have hlength : (s.grow p .none [n]).cells.length = s.cells.length + n.size := length_grow p .none [n]
      have hgrow := addAll_eq_refused content (s.grow p .none [n]) p hrest (by omega) (by omega)
      rw [show add limit depth (some p.note) s e = _ from hadd]
      dsimp only [bind, Except.bind]
      rw [update_extend hp, ← grow_singleton]
      exact hgrow
  | .text _ :: content, _, s, p, h, hp, hroom => addAll_eq_refused content s p h hp hroom
  | .comment _ :: content, _, s, p, h, hp, hroom => addAll_eq_refused content s p h hp hroom
  | .instruction _ :: content, _, s, p, h, hp, hroom => addAll_eq_refused content s p h hp hroom

end

theorem addRoots_eq_refused {content : List Xml.Content} {s : Store} (h : Node.readAll limit 1 content = .error error)
    (hroom : s.cells.length + Xml.Content.sizeAll content ≤ capacity) :
    addRoots limit s content = .error (.refused error) := by
  induction content generalizing s with
  | nil => cases h
  | cons c content ih =>
    cases c with
    | element e =>
      rw [Xml.Content.sizeAll] at hroom
      rw [addRoots]
      rcases Node.readAll_element_eq_error_iff.mp h with hread | ⟨n, hread, hrest⟩
      · rw [add_eq_refused e none s hread (by omega)]
        rfl
      · have hsize := Node.size_le_of_read e hread
        have hadd := add_of_room (s := s) none .none hread (by omega)
        have hlength : (s.plant [n]).cells.length = s.cells.length + n.size := length_plant s [n]
        have hplant := ih (s := s.plant [n]) hrest (by omega)
        rw [show add limit 1 none s e = _ from hadd]
        rw [plant_singleton] at hplant
        exact hplant
    | _ => exact ih h hroom

theorem size_le_of_ofElement {e : Xml.Element} {q : Equation} (h : Equation.ofElement limit e = .ok q) :
    q.size ≤ e.size := by
  unfold Equation.ofElement at h
  split at h
  · obtain ⟨ns, hns, rfl⟩ := Xml.map_eq_ok_iff.mp h
    obtain ⟨name, attributes, content⟩ := e
    exact Nat.le_succ_of_le (Node.sizeAll_le_of_readAll content hns)
  · obtain ⟨n, hn, rfl⟩ := Xml.map_eq_ok_iff.mp h
    exact Node.size_le_of_read e hn

/-- Where there is room for all elements, the element is refused if its equation is. -/
theorem ofElement_eq_refused {e : Xml.Element} (hroom : e.size ≤ capacity)
    (h : Equation.ofElement limit e = .error error) : ofElement limit e = .error (.refused error) := by
  unfold Equation.ofElement at h
  unfold ofElement
  split at h
  · next hmath =>
    rw [if_pos hmath]
    obtain ⟨name, attributes, content⟩ := e
    refine addRoots_eq_refused (Xml.map_eq_error_iff.mp h) ?_
    rw [Xml.Element.size] at hroom
    rw [Xml.Element.content_mk, empty, List.length_nil, Nat.zero_add]
    exact Nat.le_of_succ_le hroom
  · next hmath =>
    have hempty : empty.cells.length + e.size ≤ capacity := by rwa [empty, List.length_nil, Nat.zero_add]
    rw [if_neg hmath, add_eq_refused e none empty (Xml.map_eq_error_iff.mp h) hempty]
    rfl

theorem ofElement_of_room {e : Xml.Element} {q : Equation} (hroom : e.size ≤ capacity)
    (h : Equation.ofElement limit e = .ok q) : ofElement limit e = .ok q.store :=
  ofElement_eq_ok_iff.mpr ⟨q, h, Nat.le_trans (size_le_of_ofElement h) hroom, rfl⟩

/-- Where there is room for all elements, the LaTeX that the store of an element gives is that of its equation. -/
theorem bind_latex_of_room {e : Xml.Element} (hroom : e.size ≤ capacity) (limit : Nat) (options : Options) :
    ((ofElement limit e).bind fun s => s.latex options.equationArray) =
      ((Equation.ofElement limit e).map (Equation.latex options)).mapError .refused := by
  cases h : Equation.ofElement limit e with
  | error error =>
    rw [ofElement_eq_refused hroom h]
    rfl
  | ok q =>
    rw [ofElement_of_room hroom h]
    exact latex_eq h options

/-- The store of an element that can be read is built, unless there are more elements in it than numbers. -/
theorem eq_full_of_read {e : Xml.Element} {q : Equation} {fault : Fault} (h : Equation.ofElement limit e = .ok q)
    (hfault : ofElement limit e = .error fault) : fault = .full ∧ capacity < e.size := by
  rcases eq_of_ofElement_eq_error hfault with ⟨rfl, hsize⟩ | ⟨error, -, herror⟩
  · exact ⟨rfl, Nat.lt_of_lt_of_le (hsize q h) (size_le_of_ofElement h)⟩
  · rw [h] at herror
    cases herror

/-- An element with no more elements in it than there are numbers has one equation and one store. They are built with
    every limit that the elements which become nodes stand above, and with any other limit the element is refused as too
    deep. -/
theorem exists_equation_iff_fitsIn {root : Xml.Element} (hroom : root.size ≤ capacity) : ∃ q : Equation, ∀ limit,
    (root.FitsIn limit → Equation.ofElement limit root = .ok q ∧ ofElement limit root = .ok q.store) ∧
      (¬root.FitsIn limit → Equation.ofElement limit root = .error (.tooDeep limit) ∧
        ofElement limit root = .error (.refused (.tooDeep limit))) := by
  obtain ⟨q, hq⟩ := Equation.exists_ofElement_iff root
  refine ⟨q, fun limit => ⟨fun hfits => ?_, fun hdeep => ?_⟩⟩
  · have hread := (hq limit).1 hfits
    exact ⟨hread, ofElement_of_room hroom hread⟩
  · have hread := (hq limit).2 hdeep
    exact ⟨hread, ofElement_eq_refused hroom hread⟩

/-- A run two levels down fits in three levels and not in two; the text in it is no level of its own. -/
theorem exists_equation_iff_fitsIn_of_run :
    let text : Xml.Content := .element (.math "t")
    let run : Xml.Element := .mk (.math "r") [] [text]
    let container : Xml.Element := .mk (.math "e") [] [.element run]
    let root : Xml.Element := .mk (.math "oMath") [] [.element container]
    root.size ≤ capacity ∧ root.FitsIn 3 ∧ ¬root.FitsIn 2 ∧
      (∃ q, Equation.ofElement 3 root = .ok q ∧ ofElement 3 root = .ok q.store) ∧
      Equation.ofElement 2 root = .error (.tooDeep 2) ∧ ofElement 2 root = .error (.refused (.tooDeep 2)) := by
  intro text run container root
  have hroom : root.size ≤ capacity := by decide
  have hfits : root.FitsIn 3 := Equation.fitsIn_of_ofElement (q := ⟨_⟩) rfl
  have hrefused : Equation.ofElement 2 root = .error (.tooDeep 2) := rfl
  have hdeep : ¬root.FitsIn 2 := (Equation.not_fitsIn_of_ofElement hrefused).2
  obtain ⟨q, hq⟩ := exists_equation_iff_fitsIn hroom
  exact ⟨hroom, hfits, hdeep, ⟨q, (hq 3).1 hfits⟩, (hq 2).2 hdeep⟩

end Store

end OfficeMath
