import OfficeMath.Equation.Reading
import OfficeMath.Proofs.Equation.Place

/-! The elements that the nodes of an equation come from. An element becomes a node, and so do the elements in it
    unless it is a run; the trees of an equation thus have the shape of a row of elements of which every run has
    been cut off below. -/

namespace OfficeMath

namespace Construct

theorem ofTag?_of_mem {tag : String} {c : Construct} (h : (tag, c) ∈ tags) : ofTag? tag = some c := by
  have hall : ∀ p ∈ tags, ofTag? p.1 = some p.2 := by decide
  exact hall (tag, c) h

theorem ofTag?_eq_some_iff {tag : String} {c : Construct} : ofTag? tag = some c ↔ (tag, c) ∈ tags :=
  ⟨ofTag?_eq_some_mem, ofTag?_of_mem⟩

end Construct

namespace Xml.Element

/-- The elements in an element that become nodes of their own: all of them, but none in a run. -/
def parts (e : Element) : List Element := if e.isTag "r" then [] else e.elements

/-- The elements that become the trees of an equation: those in an `oMath`, or else the element itself. -/
def forest (root : Element) : List Element := if root.isTag "oMath" then root.elements else [root]

/-- The depth at which these elements stand in the root. -/
def forestDepth (root : Element) : Nat := if root.isTag "oMath" then 1 else 0

end Xml.Element

namespace Form
variable {e : Xml.Element} {c : Construct}

theorem construct?_eq_some_iff : construct? e = some c ↔ ∃ tag, (tag, c) ∈ Construct.tags ∧ e.isTag tag = true := by
  unfold construct? Xml.Element.isTag
  cases e.isMath with
  | false => simp
  | true => simp [Construct.ofTag?_eq_some_iff]

theorem ofElement_of_construct? (h : construct? e = some c) : ofElement e = ofConstruct c e := by
  unfold ofElement
  rw [h]

/-- A test for the forms of one construct, which has one tag, is a test for the tag. -/
theorem test_ofElement (test : Form → Bool) (c : Construct) {tag : String} (hgeneric : test generic = false)
    (htest : ∀ c', test (ofConstruct c' e) = (c' == c)) (htag : ∀ t, (t, c) ∈ Construct.tags ↔ t = tag) :
    test (ofElement e) = e.isTag tag := by
  have hc : construct? e = some c ↔ e.isTag tag = true := by
    simp only [construct?_eq_some_iff, htag, exists_eq_left]
  rw [Bool.eq_iff_iff, ← hc]
  cases h : construct? e with
  | none => simp [ofElement, h, hgeneric]
  | some c' => simp [ofElement_of_construct? h, htest]

theorem isRun_ofElement (e : Xml.Element) : (ofElement e).isRun = e.isTag "r" :=
  test_ofElement isRun .run rfl (fun c => by cases c <;> rfl) (by simp [Construct.tags])

end Form

namespace Node
variable {limit depth : Nat}

theorem readAll_eq_ok_iff {content : List Xml.Content} {ns : List (Node Unit)} :
    readAll limit depth content = .ok ns ↔
      List.Forall₂ (fun e n => read limit depth e = .ok n) (content.filterMap Xml.Content.element?) ns := by
  induction content generalizing ns with
  | nil => simp [readAll, eq_comm]
  | cons c content ih =>
    cases c with
    | element e =>
      rw [readAll, List.filterMap_cons_some (show Xml.Content.element? (.element e) = some e from rfl)]
      constructor
      · intro h
        split at h
        · cases h
        · split at h
          · cases h
          · next hn _ _ hns =>
            cases h
            exact .cons hn (ih.mp hns)
      · rintro (_ | ⟨hn, hns⟩)
        rw [hn, ih.mpr hns]
    | text s => exact ih
    | comment s => exact ih
    | instruction s => exact ih

/-- What reading an element gives: a node that says what the element says, over the trees of its parts. -/
theorem read_eq_ok_iff {e : Xml.Element} {n : Node Unit} :
    read limit depth e = .ok n ↔
      depth < limit ∧ n.head = Head.ofElement e ∧
        List.Forall₂ (fun c m => read limit (depth + 1) c = .ok m) e.parts n.children := by
  obtain ⟨name, attributes, content⟩ := e
  obtain ⟨head, note, children⟩ := n
  have hrun : (Head.ofElement (.mk name attributes content)).form.isRun = _ := Form.isRun_ofElement _
  have helements : (Xml.Element.mk name attributes content).elements = content.filterMap Xml.Content.element? := rfl
  rw [read, Xml.Element.parts, ← hrun, helements]
  dsimp only [head_mk, children_mk]
  generalize Head.ofElement (.mk name attributes content) = head'
  by_cases hlimit : limit ≤ depth
  · simp [hlimit, Nat.not_lt.mpr hlimit]
  · have hlt : depth < limit := Nat.lt_of_not_le hlimit
    rw [if_neg hlimit]
    cases head'.form.isRun with
    | true =>
      -- a run has no parts, and nothing below it is read
      simp [hlt, eq_comm (a := head)]
    | false =>
      simp only [Bool.false_eq_true, ite_false, ← readAll_eq_ok_iff, hlt, true_and]
      cases readAll limit (depth + 1) content with
      | error e => simp
      | ok ns => simp [eq_comm (a := head)]

mutual

theorem read_of_le : ∀ (n : Node Unit) {e : Xml.Element} {depth depth' : Nat},
    read limit depth e = .ok n → depth' ≤ depth → read limit depth' e = .ok n
  | mk head note children, e, depth, depth', h, hle => by
    obtain ⟨hlt, hhead, hparts⟩ := read_eq_ok_iff.mp h
    exact read_eq_ok_iff.mpr
      ⟨Nat.lt_of_le_of_lt hle hlt, hhead, forall₂_read_of_le children hparts (Nat.succ_le_succ hle)⟩

theorem forall₂_read_of_le : ∀ (ns : List (Node Unit)) {es : List Xml.Element} {depth depth' : Nat},
    List.Forall₂ (fun e n => read limit depth e = .ok n) es ns → depth' ≤ depth →
      List.Forall₂ (fun e n => read limit depth' e = .ok n) es ns
  | [], _, _, _, .nil, _ => .nil
  | n :: ns, _, _, _, .cons hn hns, hle => .cons (read_of_le n hn hle) (forall₂_read_of_le ns hns hle)

end

end Node

namespace Equation
variable {limit : Nat} {root : Xml.Element} {q : Equation}

theorem forall₂_forest (h : ofElement limit root = .ok q) :
    List.Forall₂ (fun e n => Node.read limit root.forestDepth e = .ok n) root.forest q.roots := by
  unfold ofElement at h
  unfold Xml.Element.forest Xml.Element.forestDepth
  split at h
  · next hmath =>
    rw [if_pos hmath, if_pos hmath]
    cases hns : Node.readAll limit 1 root.content with
    | error e => rw [hns] at h; cases h
    | ok ns =>
      rw [hns] at h
      cases h
      exact Node.readAll_eq_ok_iff.mp hns
  · next hmath =>
    rw [if_neg hmath, if_neg hmath]
    cases hn : Node.read limit 0 root with
    | error e => rw [hn] at h; cases h
    | ok n =>
      rw [hn] at h
      cases h
      exact .cons hn .nil

theorem forall₂_of_ofElement (h : ofElement limit root = .ok q) :
    ∃ depth, List.Forall₂ (fun e n => Node.read limit depth e = .ok n) root.forest q.roots :=
  ⟨_, forall₂_forest h⟩

/-- At every place of an equation stands what was read from the element at that place. -/
theorem rel_among?_roots (h : ofElement limit root = .ok q) (p : Place) :
    Option.Rel (fun e n => ∃ depth, Node.read limit depth e = .ok n)
      (Place.among? Xml.Element.parts root.forest p) (Place.among? Node.children q.roots p) := by
  obtain ⟨depth, hread⟩ := forall₂_of_ofElement h
  refine Place.rel_among? ?_ (hread.imp fun e n hn => ⟨depth, hn⟩) p
  rintro e n ⟨depth, hn⟩
  obtain ⟨-, -, hparts⟩ := Node.read_eq_ok_iff.mp hn
  exact hparts.imp fun c m hm => ⟨depth + 1, hm⟩

end Equation
end OfficeMath
