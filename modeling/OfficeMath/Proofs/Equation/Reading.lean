import OfficeMath.Proofs.Equation.Source
import OfficeMath.Proofs.Xml.Depth

/-! Reading by parts. What is read of items is read of the first of them and then of the rest, and an element is read by
    what it says of itself and by its items. An element that nests no deeper than the limit is read. -/

namespace OfficeMath

open Xml (bind_eq_ok_iff map_eq_ok_iff)

namespace Xml

mutual

/-- The tree that is read of an element, if it is not refused. -/
def Element.tree : Element → Node Unit
  | .mk name attributes content =>
    let head := Head.ofElement (.mk name attributes content)
    .mk head () (if head.form.isRun then [] else Content.trees content)

/-- The trees that are read of the elements among the items, if they are not refused. -/
def Content.trees : List Content → List (Node Unit)
  | [] => []
  | .element e :: content => e.tree :: Content.trees content
  | _ :: content => Content.trees content

end

theorem Content.trees_append (content content' : List Content) :
    Content.trees (content ++ content') = Content.trees content ++ Content.trees content' := by
  induction content with
  | nil => rfl
  | cons c content ih => cases c <;> simp [Content.trees, ih]

@[simp] theorem Element.head_tree (e : Element) : e.tree.head = Head.ofElement e := by
  cases e
  rfl

theorem Content.exists_of_mem_trees {content : List Content} {n : Node Unit} (h : n ∈ Content.trees content) :
    ∃ e, n = Element.tree e := by
  induction content with
  | nil => cases h
  | cons c content ih =>
    cases c with
    | element e =>
      rcases List.mem_cons.mp h with rfl | h
      · exact ⟨e, rfl⟩
      · exact ih h
    | _ => exact ih h

theorem Element.exists_of_mem_children {e : Element} {n : Node Unit} (h : n ∈ e.tree.children) : ∃ c, n = tree c := by
  obtain ⟨name, attributes, content⟩ := e
  rw [tree, Node.children_mk] at h
  split at h
  · cases h
  · exact Content.exists_of_mem_trees h

end Xml

namespace Node

variable {limit depth : Nat} {e : Xml.Element}

theorem readAll_element (limit depth : Nat) (e : Xml.Element) (content : List Xml.Content) :
    readAll limit depth (.element e :: content) =
      (read limit depth e).bind fun n => (readAll limit depth content).map (n :: ·) := by
  rw [readAll]
  cases read limit depth e with
  | error error => rfl
  | ok n => cases readAll limit depth content <;> rfl

theorem readAll_append_eq_ok_iff {content content' : List Xml.Content} {ns : List (Node Unit)} :
    readAll limit depth (content ++ content') = .ok ns ↔
      ∃ ms ks, readAll limit depth content = .ok ms ∧ readAll limit depth content' = .ok ks ∧ ms ++ ks = ns := by
  have happend : readAll limit depth (content ++ content') =
      (readAll limit depth content).bind fun ms => (readAll limit depth content').map (ms ++ ·) := by
    induction content with
    | nil =>
      rw [List.nil_append]
      cases readAll limit depth content' <;> rfl
    | cons c content ih =>
      cases c with
      | element e =>
        rw [List.cons_append, readAll, readAll, ih]
        cases read limit depth e with
        | error => rfl
        | ok n =>
          cases readAll limit depth content with
          | error => rfl
          | ok ns => cases readAll limit depth content' <;> rfl
      | _ => exact ih
  rw [happend, bind_eq_ok_iff]
  simp only [map_eq_ok_iff, exists_and_left]

theorem readAll_element_eq_ok_iff {content : List Xml.Content} {ns : List (Node Unit)} :
    readAll limit depth (.element e :: content) = .ok ns ↔
      ∃ m ks, read limit depth e = .ok m ∧ readAll limit depth content = .ok ks ∧ m :: ks = ns := by
  rw [readAll]
  cases read limit depth e with
  | error => simp
  | ok m => cases readAll limit depth content <;> simp

theorem readAll_element_eq_error_iff {content : List Xml.Content} {error : Error} :
    readAll limit depth (.element e :: content) = .error error ↔
      read limit depth e = .error error ∨
        ∃ n, read limit depth e = .ok n ∧ readAll limit depth content = .error error := by
  rw [readAll]
  cases read limit depth e with
  | error => simp
  | ok m => cases readAll limit depth content <;> simp

/-- Items are read without one of the elements among them if they are read with it. -/
theorem exists_readAll_of_insert {p : Xml.Element} (before after : List Xml.Content) {ns' : List (Node Unit)}
    (h : readAll limit depth (before ++ .element p :: after) = .ok ns') :
    ∃ ns, readAll limit depth (before ++ after) = .ok ns := by
  obtain ⟨ms, _, hms, hrest, rfl⟩ := readAll_append_eq_ok_iff.mp h
  obtain ⟨m, ks, -, hks, rfl⟩ := readAll_element_eq_ok_iff.mp hrest
  exact ⟨ms ++ ks, readAll_append_eq_ok_iff.mpr ⟨ms, ks, hms, hks, rfl⟩⟩

/-- What is read of items depends on what is read of each of the elements among them. -/
theorem exists_readAll_of_read {R : Node Unit → Node Unit → Prop} {c c' : Xml.Element} (before after : List Xml.Content)
    (hread : ∀ m', read limit depth c' = .ok m' → ∃ m, read limit depth c = .ok m ∧ R m m')
    {ns' : List (Node Unit)} (h : readAll limit depth (before ++ .element c' :: after) = .ok ns') :
    ∃ ms m m' ks, ns' = ms ++ m' :: ks ∧ readAll limit depth (before ++ .element c :: after) = .ok (ms ++ m :: ks) ∧
      R m m' := by
  obtain ⟨ms, _, hms, hrest, rfl⟩ := readAll_append_eq_ok_iff.mp h
  obtain ⟨m', ks, hm', hks, rfl⟩ := readAll_element_eq_ok_iff.mp hrest
  obtain ⟨m, hm, hmm'⟩ := hread m' hm'
  refine ⟨ms, m, m', ks, rfl, readAll_append_eq_ok_iff.mpr ⟨ms, m :: ks, hms, ?_, rfl⟩, hmm'⟩
  exact readAll_element_eq_ok_iff.mpr ⟨m, ks, hm, hks, rfl⟩

/-- What is read of an element depends on what it says of itself and on what is read of its items. -/
theorem exists_read_of_content {S : List (Node Unit) → List (Node Unit) → Prop} {name : Xml.Name}
    {attributes : List Xml.Attribute} {content content' : List Xml.Content}
    (hhead : Head.ofElement (.mk name attributes content) = Head.ofElement (.mk name attributes content'))
    (hnil : S [] [])
    (hcontent : ∀ ns', readAll limit (depth + 1) content' = .ok ns' →
      ∃ ns, readAll limit (depth + 1) content = .ok ns ∧ S ns ns')
    {n' : Node Unit} (h : read limit depth (.mk name attributes content') = .ok n') :
    ∃ ns ns', n' = mk (Head.ofElement (.mk name attributes content)) () ns' ∧
      read limit depth (.mk name attributes content) =
        .ok (mk (Head.ofElement (.mk name attributes content)) () ns) ∧ S ns ns' := by
  rw [read, ← hhead] at h
  rw [read]
  split at h
  · cases h
  · next hlimit =>
    rw [if_neg hlimit]
    dsimp only at h ⊢
    split at h
    · next hrun =>
      cases h
      exact ⟨[], [], rfl, by rw [if_pos hrun], hnil⟩
    · next hrun =>
      split at h
      · cases h
      · next ns' hns' =>
        cases h
        obtain ⟨ns, hns, hS⟩ := hcontent ns' hns'
        exact ⟨ns, ns', rfl, by rw [if_neg hrun, hns], hS⟩

mutual

theorem eq_tree_of_read : ∀ (e : Xml.Element) {depth : Nat} {n : Node Unit}, read limit depth e = .ok n → n = e.tree
  | .mk name attributes content, depth, n, h => by
    rw [read] at h
    split at h
    · cases h
    · dsimp only at h
      rw [Xml.Element.tree]
      split at h
      · next hrun =>
        cases h
        rw [if_pos hrun]
      · next hrun =>
        split at h
        · cases h
        · next children hchildren =>
          cases h
          rw [if_neg hrun, eq_trees_of_readAll content hchildren]

theorem eq_trees_of_readAll : ∀ (content : List Xml.Content) {depth : Nat} {ns : List (Node Unit)},
    readAll limit depth content = .ok ns → ns = Xml.Content.trees content
  | [], _, _, h => by
    cases h
    rfl
  | .element e :: content, _, _, h => by
    obtain ⟨m, ks, hm, hks, rfl⟩ := readAll_element_eq_ok_iff.mp h
    rw [Xml.Content.trees, eq_tree_of_read e hm, eq_trees_of_readAll content hks]
  | .text _ :: content, _, _, h | .comment _ :: content, _, _, h | .instruction _ :: content, _, _, h =>
    eq_trees_of_readAll content h

end

/-! ### Depth -/

mutual

/-- There is a node for an element that stays within the limit from the depth on. -/
theorem exists_read : ∀ (e : Xml.Element) {depth : Nat}, depth + e.depth ≤ limit → ∃ n, read limit depth e = .ok n
  | .mk name attributes content, depth, h => by
    rw [Xml.Element.depth] at h
    have hlimit : ¬limit ≤ depth := by omega
    have hcontent : depth + 1 + Xml.Content.depthAll content ≤ limit := by omega
    obtain ⟨ns, hns⟩ := exists_readAll content hcontent
    rw [read, if_neg hlimit, hns]
    dsimp only
    split <;> exact ⟨_, rfl⟩

theorem exists_readAll : ∀ (content : List Xml.Content) {depth : Nat},
    depth + Xml.Content.depthAll content ≤ limit → ∃ ns, readAll limit depth content = .ok ns
  | [], _, _ => ⟨[], rfl⟩
  | .element e :: content, depth, h => by
    rw [Xml.Content.depthAll] at h
    have he : depth + e.depth ≤ limit := by omega
    have hcontent : depth + Xml.Content.depthAll content ≤ limit := by omega
    obtain ⟨n, hn⟩ := exists_read e he
    obtain ⟨ns, hns⟩ := exists_readAll content hcontent
    exact ⟨n :: ns, by rw [readAll, hn, hns]⟩
  | .text _ :: content, _, h | .comment _ :: content, _, h | .instruction _ :: content, _, h =>
    exists_readAll content h

end

end Node

namespace Equation

variable {limit : Nat}

theorem roots_of_ofElement {e : Xml.Element} {q : Equation} (h : ofElement limit e = .ok q) :
    q.roots = if e.isTag "oMath" then Xml.Content.trees e.content else [e.tree] := by
  unfold ofElement at h
  split at h
  · next hmath =>
    obtain ⟨ns, hns, rfl⟩ := map_eq_ok_iff.mp h
    rw [if_pos hmath]
    exact Node.eq_trees_of_readAll e.content hns
  · next hmath =>
    obtain ⟨n, hn, rfl⟩ := map_eq_ok_iff.mp h
    rw [if_neg hmath, Node.eq_tree_of_read e hn]

/-- An element that nests no deeper than the limit is an equation. -/
theorem exists_ofElement {e : Xml.Element} (h : e.depth ≤ limit) : ∃ q, ofElement limit e = .ok q := by
  unfold ofElement
  split
  · obtain ⟨name, attributes, content⟩ := e
    rw [Xml.Element.depth, Nat.add_comm] at h
    obtain ⟨ns, hns⟩ := Node.exists_readAll content h
    exact ⟨⟨ns⟩, by rw [Xml.Element.content_mk, hns, Except.map]⟩
  · obtain ⟨n, hn⟩ := Node.exists_read e (Nat.zero_add e.depth ▸ h)
    exact ⟨⟨[n]⟩, by rw [hn, Except.map]⟩

end Equation

end OfficeMath
