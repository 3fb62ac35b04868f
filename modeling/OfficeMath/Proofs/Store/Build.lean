import OfficeMath.Proofs.Equation.Reading
import OfficeMath.Proofs.Store.Cells

/-! Building a store from an element. If the element is read into trees, and if there are numbers enough, the store
    comes to hold the cells of these trees in document order; or else the element is refused. No number is ever looked
    up that no node has, not even while nodes are still without their children and their parts. -/

namespace OfficeMath

/-- What stands in a store for the node of an entry. -/
def Entry.cell (entry : Entry) : Cell := entry.node.cell entry.parentId?

/-- The store of the nodes of an equation. -/
def Equation.store (q : Equation) : Store := ⟨q.outline.map Entry.cell, q.rootIds⟩

namespace Store

open Node (note)

/-- The result of building follows what is read, if `used` numbers have been used before: it is what is done with what is
    read if there is room for it, and else there is no number left, or the element is refused. -/
def FollowsReading {ρ σ : Type} (used : Nat) (size : ρ → Nat) (done : ρ → σ) (read : Except Error ρ)
    (result : Except Fault σ) : Prop :=
  match read with
  | .ok r => result = if used + size r ≤ capacity then .ok (done r) else .error .full
  | .error error => result = .error .full ∨ result = .error (.refused error)

theorem followsReading_full {ρ σ : Type} {used : Nat} {size : ρ → Nat} {done : ρ → σ} (read : Except Error ρ)
    (hfull : ∀ r, ¬ used + size r ≤ capacity) : FollowsReading used size done read (.error .full) := by
  cases read with
  | error error => exact .inl rfl
  | ok r => exact (if_neg (hfull r)).symm

/-- A tree and then more of them: what comes after the first starts with the numbers that this has used. -/
theorem followsReading_cons {σ τ : Type} {used : Nat} {done : Node Unit → σ} {done' : List (Node Unit) → τ}
    {read : Except Error (Node Unit)} {rest : Except Error (List (Node Unit))} {result : Except Fault σ}
    {next : σ → Except Fault τ} (h : FollowsReading used Node.size done read result)
    (hnext : ∀ n, used + n.size ≤ capacity →
      FollowsReading (used + n.size) Node.sizeAll (fun ns => done' (n :: ns)) rest (next (done n))) :
    FollowsReading used Node.sizeAll done' (read.bind fun n => rest.map (n :: ·)) (result >>= next) := by
  cases read with
  | error error =>
    rcases h with rfl | rfl
    · exact .inl rfl
    · exact .inr rfl
  | ok n =>
    rw [show result = _ from h]
    by_cases hroom : used + n.size ≤ capacity
    · have hnext := hnext n hroom
      rw [if_pos hroom]
      cases rest with
      | error error => exact hnext
      | ok ns =>
        refine Eq.trans hnext ?_
        rw [Nat.add_assoc]
        rfl
    · rw [if_neg hroom]
      cases rest with
      | error error => exact .inl rfl
      | ok ns =>
        refine (if_neg ?_).symm
        rw [Node.sizeAll]
        omega

/-- The store with the nodes of the entries after those there are. -/
def extend (s : Store) (entries : List Entry) : Store := { s with cells := s.cells ++ entries.map Entry.cell }

/-- The store with the nodes as further children of the node that has the number. -/
def adopt (s : Store) (id : Nat) (ns : List (Node Nat)) : Store :=
  { s with cells := s.cells.modify id fun c => { c with children := c.children ++ ns.map note } }

theorem modify_append_cons {α : Type} (before : List α) (a : α) (after : List α) (f : α → α) :
    (before ++ a :: after).modify before.length f = before ++ f a :: after := by
  induction before with
  | nil => rfl
  | cons b before ih => exact congrArg (b :: ·) ih

theorem update_append_cons (before : List Cell) (c : Cell) (after : List Cell) (roots : List Nat) (f : Cell → Cell) :
    update ⟨before ++ c :: after, roots⟩ before.length f = .ok ⟨before ++ f c :: after, roots⟩ := by
  rw [update, if_pos (by simp), modify_append_cons]

/-! ### Entries in a store -/

theorem modify_append_left {α : Type} {before : List α} {i : Nat} (hi : i < before.length) (after : List α)
    (f : α → α) : (before ++ after).modify i f = before.modify i f ++ after := by
  induction before generalizing i with
  | nil => cases hi
  | cons b before ih =>
    cases i with
    | zero => rfl
    | succ i => exact congrArg (b :: ·) (ih (Nat.lt_of_succ_lt_succ hi))

theorem length_extend (s : Store) (entries : List Entry) :
    (s.extend entries).cells.length = s.cells.length + entries.length := by
  rw [extend, List.length_append, List.length_map]

section Entries

variable {α : Type} {parent : Option (Node Nat)} {enclosure : Enclosure Nat} {s : Store} {first : Nat}
  {ns : List (Node α)}

/-- The cells of the entries stand in the store at the numbers of the nodes. -/
def Holds (s : Store) (entries : List Entry) : Prop := ∀ entry ∈ entries, s.cell entry.id = .ok entry.cell

theorem holds_extend (hfirst : s.cells.length = first) :
    (s.extend (Node.entriesAll parent enclosure (Node.numberAll first ns))).Holds
      (Node.entriesAll parent enclosure (Node.numberAll first ns)) := by
  intro entry hentry
  obtain ⟨i, hid, hi⟩ := Node.getElem?_entriesAll hentry
  rw [cell_eq_ok_iff, extend, hid, ← hfirst, List.getElem?_append_right (Nat.le_add_right _ _),
    Nat.add_sub_cancel_left, List.getElem?_map, hfirst, hi]
  rfl

theorem Holds.lists {ns : List (Node Nat)} (h : s.Holds (Node.entriesAll parent enclosure ns)) {entry : Entry}
    (hentry : entry ∈ Node.entriesAll parent enclosure ns) : s.Lists entry.node where
  node := ⟨entry.cell, h entry hentry, rfl⟩
  children m hm := h (entry.child m) (Node.child_mem_entriesAll ns hentry hm)

end Entries

/-! ### One element -/

/-- The store with the next node, of which nothing is known but what its element says. -/
def start (s : Store) (parent : Option Nat) (head : Head) : Store :=
  { s with cells := s.cells ++ [⟨head.tag, head.isMath, parent, [], .generic⟩] }

/-- The store with the trees as further children of the node `p`. -/
def grow (s : Store) (p : Node Nat) (enclosure : Enclosure Nat) (ns : List (Node Unit)) : Store :=
  (s.adopt p.note (Node.numberAll s.cells.length ns)).extend
    (Node.entriesAll (some p) enclosure (Node.numberAll s.cells.length ns))

section Grow

variable {s : Store} {p : Node Nat}

theorem length_grow (p : Node Nat) (enclosure : Enclosure Nat) (ns : List (Node Unit)) :
    (s.grow p enclosure ns).cells.length = s.cells.length + Node.sizeAll ns := by
  rw [grow, length_extend, Node.length_entriesAll, Node.sizeAll_numberAll, adopt, List.length_modify]

theorem grow_nil (s : Store) (p : Node Nat) (enclosure : Enclosure Nat) : s.grow p enclosure [] = s := by
  have hmodify : s.cells.modify p.note (fun c => { c with children := c.children ++ [] }) = s.cells := by
    simp only [List.append_nil]
    exact List.modify_id _ _
  rw [grow, adopt, extend]
  exact congrArg (Store.mk · s.roots) ((List.append_nil _).trans hmodify)

theorem update_extend {entries : List Entry} {f : Cell → Cell} {id : Nat} (hid : id < s.cells.length) :
    (s.extend entries).update id f = .ok (extend { s with cells := s.cells.modify id f } entries) := by
  rw [update, if_pos (length_extend s entries ▸ Nat.lt_add_right _ hid), extend]
  dsimp only
  rw [modify_append_left hid]
  rfl

theorem grow_singleton (s : Store) (p : Node Nat) (enclosure : Enclosure Nat) (n : Node Unit) :
    s.grow p enclosure [n] = extend
      { s with cells := s.cells.modify p.note fun c => { c with children := c.children ++ [s.cells.length] } }
      ((n.number s.cells.length).entries (some p) enclosure) := by
  have hids : (Node.numberAll s.cells.length [n]).map note = [s.cells.length] :=
    congrArg (· :: []) (Node.note_number _ n)
  rw [grow, adopt, hids, Node.numberAll, Node.entriesAll, Node.numberAll, Node.entriesAll, List.append_nil]

theorem grow_grow (hp : p.note < s.cells.length) {enclosure : Enclosure Nat} {n : Node Unit} {ns : List (Node Unit)} :
    (s.grow p enclosure [n]).grow p enclosure ns = s.grow p enclosure (n :: ns) := by
  have hlength : Node.sizeAll [n] = n.size := rfl
  rw [grow, length_grow, hlength, grow_singleton, adopt, grow, adopt, Node.numberAll, Node.entriesAll, List.map_cons,
    Node.note_number, extend, extend, extend]
  dsimp only
  rw [modify_append_left (by rwa [List.length_modify]), List.modify_modify_eq, List.map_append, List.append_assoc]
  simp only [Function.comp_def, List.append_assoc, List.singleton_append]

theorem followsReading_nil {enclosure : Enclosure Nat} (hs : s.cells.length ≤ capacity) :
    FollowsReading s.cells.length Node.sizeAll (s.grow p enclosure) (.ok []) (.ok s) := by
  refine Eq.trans ?_ (if_pos hs).symm
  rw [grow_nil]

end Grow

section Finish

variable {s : Store} {parent : Option (Node Nat)} {head : Head}

theorem length_start : (s.start (parent.map note) head).cells.length = s.cells.length + 1 := List.length_append

theorem grow_start (n : Node Nat) (hnote : n.note = s.cells.length) (enclosure : Enclosure Nat)
    (ns : List (Node Unit)) :
    (s.start (parent.map note) head).grow n enclosure ns =
      extend ⟨s.cells ++ [⟨head.tag, head.isMath, parent.map note,
          (Node.numberAll (s.cells.length + 1) ns).map note, .generic⟩], s.roots⟩
        (Node.entriesAll (some n) enclosure (Node.numberAll (s.cells.length + 1) ns)) := by
  rw [grow, length_start, adopt, start, hnote, modify_append_cons]
  rfl

/-- When the children of a node are there, its parts are found, and the node is done. -/
theorem finish_eq (s : Store) (parent : Option (Node Nat)) (enclosure : Enclosure Nat) (head : Head)
    (ns : List (Node Unit)) :
    let n := (Node.mk head () ns).number s.cells.length
    let s' := (s.start (parent.map note) head).grow n (enclosure.inside n) ns
    (do
      let kind ← s'.resolve s.cells.length head.form
      let s' ← s'.update s.cells.length fun c => { c with kind := kind }
      return (s', s.cells.length)) = Except.ok (s.extend (n.entries parent enclosure), s.cells.length) := by
  intro n s'
  have hs' : s' = _ := grow_start n rfl (enclosure.inside n) ns
  have hholds : s'.Holds (Node.entriesAll (some n) (enclosure.inside n) n.children) := by
    rw [hs']
    exact holds_extend List.length_append
  have hlists : s'.Lists n := by
    constructor
    · refine ⟨⟨head.tag, head.isMath, parent.map note, n.children.map note, .generic⟩, ?_, rfl⟩
      rw [hs', cell_eq_ok_iff, extend, List.append_assoc]
      refine (List.getElem?_append_right (Nat.le_refl _)).trans ?_
      rw [Nat.sub_self]
      rfl
    · exact fun m hm => hholds ⟨m, some n, enclosure.inside n⟩ (Node.mem_entriesAll_of_mem hm)
  have hbelow : ∀ m ∈ n.children, s'.Lists m := fun m hm => hholds.lists (Node.mem_entriesAll_of_mem hm)
  have hkind : s'.resolve s.cells.length head.form = .ok (n.kind.map note) := resolve_eq hlists hbelow
  rw [hkind, hs', extend, List.append_assoc, List.singleton_append]
  change (do
    let s' ← update _ _ _
    return (s', s.cells.length)) = _
  rw [update_append_cons]
  rfl

theorem followsReading_of_children {read : Except Error (List (Node Unit))} {result : Except Fault Store}
    (enclosure : Enclosure Nat)
    (h : ∀ p enclosure, p.note = s.cells.length → FollowsReading (s.cells.length + 1) Node.sizeAll
      ((s.start (parent.map note) head).grow p enclosure) read result) :
    FollowsReading s.cells.length Node.size
      (fun n => (s.extend ((n.number s.cells.length).entries parent enclosure), s.cells.length))
      (read.map (Node.mk head ()))
      (do
        let s' ← result
        let kind ← s'.resolve s.cells.length head.form
        let s' ← s'.update s.cells.length fun c => { c with kind := kind }
        return (s', s.cells.length)) := by
  cases read with
  | error error =>
    rcases h (.mk head s.cells.length []) .none rfl with rfl | rfl
    · exact .inl rfl
    · exact .inr rfl
  | ok ns =>
    have h := h ((Node.mk head () ns).number s.cells.length)
      (enclosure.inside ((Node.mk head () ns).number s.cells.length)) rfl
    have hsize : s.cells.length + (Node.mk head () ns).size = s.cells.length + 1 + Node.sizeAll ns := by
      rw [Node.size]
      omega
    unfold FollowsReading at h
    dsimp only at h
    show _ = if s.cells.length + (Node.mk head () ns).size ≤ capacity then _ else _
    rw [h, hsize]
    split
    · exact finish_eq s parent enclosure head ns
    · rfl

end Finish

mutual

theorem add_followsReading (limit : Nat) (depth : Nat) (parent : Option (Node Nat)) (enclosure : Enclosure Nat)
    (s : Store) :
    ∀ e : Xml.Element, FollowsReading s.cells.length Node.size
      (fun n => (s.extend ((n.number s.cells.length).entries parent enclosure), s.cells.length))
      (Node.read limit depth e) (add limit depth (parent.map note) s e)
  | .mk name attributes content => by
    rw [Node.read, add]
    by_cases hlimit : limit ≤ depth
    · rw [if_pos hlimit, if_pos hlimit]
      exact .inr rfl
    rw [if_neg hlimit, if_neg hlimit]
    by_cases hroom : s.cells.length < capacity
    · rw [push, if_pos hroom]
      generalize hhead : Head.ofElement (Xml.Element.mk name attributes content) = head
      have hform : Form.ofElement (Xml.Element.mk name attributes content) = head.form := by rw [← hhead]; rfl
      have hcell : placeholder (Xml.Element.mk name attributes content) (parent.map note) =
          ⟨head.tag, head.isMath, parent.map note, [], .generic⟩ := by
        rw [← hhead]
        rfl
      have hstart : (s.start (parent.map note) head).cells.length ≤ capacity := by
        rw [length_start]
        exact hroom
      rw [hform, hcell]
      dsimp only
      split
      · -- a run is done at once
        refine @followsReading_of_children s parent head (.ok []) (.ok (s.start (parent.map note) head)) enclosure
          fun p enclosure _ => ?_
        rw [← length_start]
        exact followsReading_nil hstart
      · have hchildren := @followsReading_of_children s parent head (Node.readAll limit (depth + 1) content)
          (addAll limit (depth + 1) s.cells.length (s.start (parent.map note) head) content) enclosure
          fun p enclosure hnote => by
            have hp : p.note < (s.start (parent.map note) head).cells.length := by
              rw [length_start, hnote]
              exact Nat.lt_succ_self _
            rw [← length_start, ← hnote]
            exact addAll_followsReading limit (depth + 1) p enclosure _ hp hstart content
        cases hread : Node.readAll limit (depth + 1) content with
        | error error =>
          rw [hread] at hchildren
          exact hchildren
        | ok ns =>
          rw [hread] at hchildren
          exact hchildren
    · rw [push, if_neg hroom]
      refine followsReading_full _ fun n => ?_
      have hsize := n.size_pos
      omega

theorem addAll_followsReading (limit : Nat) (depth : Nat) (p : Node Nat) (enclosure : Enclosure Nat) (s : Store)
    (hp : p.note < s.cells.length) (hs : s.cells.length ≤ capacity) :
    ∀ content : List Xml.Content, FollowsReading s.cells.length Node.sizeAll (s.grow p enclosure)
      (Node.readAll limit depth content) (addAll limit depth p.note s content)
  | [] => followsReading_nil hs
  | .element e :: content => by
    rw [Node.readAll_element, addAll]
    refine followsReading_cons (add_followsReading limit depth (some p) enclosure s e) fun n hroom => ?_
    have hlength : (s.grow p enclosure [n]).cells.length = s.cells.length + n.size := length_grow p enclosure [n]
    have hrest := addAll_followsReading limit depth p enclosure (s.grow p enclosure [n])
      (hlength ▸ Nat.lt_add_right _ hp) (hlength ▸ hroom) content
    have hgrow : (s.grow p enclosure [n]).grow p enclosure = fun ns => s.grow p enclosure (n :: ns) :=
      funext fun ns => grow_grow hp
    rw [hlength, hgrow] at hrest
    dsimp only
    rw [update_extend hp, ← grow_singleton]
    exact hrest
  | .text _ :: content => addAll_followsReading limit depth p enclosure s hp hs content
  | .comment _ :: content => addAll_followsReading limit depth p enclosure s hp hs content
  | .instruction _ :: content => addAll_followsReading limit depth p enclosure s hp hs content

end

/-! ### Equations -/

/-- The store with the trees as further roots. -/
def plant (s : Store) (ns : List (Node Unit)) : Store :=
  { s.extend (Node.entriesAll none .none (Node.numberAll s.cells.length ns)) with
    roots := s.roots ++ (Node.numberAll s.cells.length ns).map note }

theorem plant_nil (s : Store) : s.plant [] = s := by
  simp [plant, extend, Node.numberAll, Node.entriesAll]

theorem plant_singleton (s : Store) (n : Node Unit) :
    s.plant [n] = { s.extend ((n.number s.cells.length).entries none .none) with
      roots := s.roots ++ [s.cells.length] } := by
  have hids : (Node.numberAll s.cells.length [n]).map note = [s.cells.length] :=
    congrArg (· :: []) (Node.note_number _ n)
  rw [plant, hids, Node.numberAll, Node.entriesAll, Node.numberAll, Node.entriesAll, List.append_nil]

theorem length_plant (s : Store) (ns : List (Node Unit)) :
    (s.plant ns).cells.length = s.cells.length + Node.sizeAll ns := by
  rw [plant, length_extend, Node.length_entriesAll, Node.sizeAll_numberAll]

theorem plant_plant {s : Store} {n : Node Unit} {ns : List (Node Unit)} :
    (s.plant [n]).plant ns = s.plant (n :: ns) := by
  have hlength : Node.sizeAll [n] = n.size := rfl
  rw [plant, length_plant, hlength, plant_singleton, plant, Node.numberAll, Node.entriesAll, List.map_cons,
    Node.note_number, extend, extend, extend, List.map_append, List.append_assoc, List.append_assoc]
  rfl

theorem addRoots_followsReading (limit : Nat) (content : List Xml.Content) (s : Store)
    (hs : s.cells.length ≤ capacity) :
    FollowsReading s.cells.length Node.sizeAll s.plant (Node.readAll limit 1 content) (addRoots limit s content) := by
  induction content generalizing s with
  | nil =>
    refine Eq.trans ?_ (if_pos hs).symm
    rw [plant_nil]
    rfl
  | cons c content ih =>
    cases c with
    | element e =>
      rw [Node.readAll_element, addRoots]
      refine followsReading_cons (add_followsReading limit 1 none .none s e) fun n hroom => ?_
      have hlength : (s.plant [n]).cells.length = s.cells.length + n.size := length_plant s [n]
      have hplant : (s.plant [n]).plant = fun ns => s.plant (n :: ns) := funext fun ns => plant_plant
      have hrest := ih (s.plant [n]) (hlength ▸ hroom)
      rw [hlength, hplant] at hrest
      dsimp only
      rw [plant_singleton] at hrest
      exact hrest
    | _ => exact ih s hs

/-- The store of an element holds the equation of the element, unless this is refused or there are too many nodes. -/
theorem ofElement_followsReading (limit : Nat) (e : Xml.Element) :
    FollowsReading 0 Equation.size Equation.store (Equation.ofElement limit e) (ofElement limit e) := by
  unfold Equation.ofElement ofElement
  split
  · have hroots := addRoots_followsReading limit e.content empty (Nat.zero_le _)
    cases hread : Node.readAll limit 1 e.content with
    | error error =>
      rw [hread] at hroots
      exact hroots
    | ok ns =>
      rw [hread] at hroots
      exact hroots
  · have hroot := add_followsReading limit 0 none .none empty e
    cases hread : Node.read limit 0 e with
    | error error =>
      rw [hread] at hroot
      rcases hroot with h | h
      · rw [show add limit 0 none empty e = _ from h]
        exact .inl rfl
      · rw [show add limit 0 none empty e = _ from h]
        exact .inr rfl
    | ok n =>
      rw [hread] at hroot
      rw [show add limit 0 none empty e = _ from hroot]
      have hstore : Equation.store ⟨[n]⟩ = empty.plant [n] := rfl
      show _ = if 0 + n.size ≤ capacity then Except.ok (Equation.store ⟨[n]⟩) else Except.error Fault.full
      rw [hstore, plant_singleton, show empty.cells.length + n.size = 0 + n.size from rfl]
      split <;> rfl

theorem ofElement_eq_ok_iff {limit : Nat} {e : Xml.Element} {s : Store} :
    ofElement limit e = .ok s ↔ ∃ q, Equation.ofElement limit e = .ok q ∧ q.size ≤ capacity ∧ q.store = s := by
  have h := ofElement_followsReading limit e
  cases hread : Equation.ofElement limit e with
  | error error =>
    rw [hread] at h
    rcases h with h | h <;> simp [h]
  | ok q =>
    rw [hread] at h
    rw [show ofElement limit e = _ from h]
    by_cases hsize : q.size ≤ capacity <;> simp [hsize]

/-- Nothing goes wrong when a store is built but that there are too many nodes or that the element is refused. -/
theorem eq_of_ofElement_eq_error {limit : Nat} {e : Xml.Element} {fault : Fault}
    (hfault : ofElement limit e = .error fault) :
    (fault = .full ∧ ∀ q, Equation.ofElement limit e = .ok q → capacity < q.size) ∨
      ∃ error, fault = .refused error ∧ Equation.ofElement limit e = .error error := by
  have h := ofElement_followsReading limit e
  rw [hfault] at h
  cases hread : Equation.ofElement limit e with
  | error error =>
    rw [hread] at h
    rcases h with h | h
    · exact .inl ⟨Except.error.inj h, by simp⟩
    · exact .inr ⟨error, Except.error.inj h, rfl⟩
  | ok q =>
    rw [hread] at h
    have h : Except.error fault = if 0 + q.size ≤ capacity then Except.ok q.store else Except.error .full := h
    split at h
    · cases h
    · next hsize =>
      refine .inl ⟨Except.error.inj h, ?_⟩
      rintro q ⟨⟩
      rwa [Nat.zero_add, Nat.not_le] at hsize

end Store

end OfficeMath
