import OfficeMath.Proofs.Equation.Bare
import OfficeMath.Proofs.Equation.Outline
import OfficeMath.Proofs.Equation.Segments
import OfficeMath.Proofs.Typeset.Locality
import OfficeMath.Store.Build

/-! Nodes in a store. Where the cells of a node and of its children stand at their numbers, every look-up among the
    children comes to the numbers of what it comes to in the tree, and so do the parts of the construct. -/

namespace OfficeMath

namespace Node

/-- What stands in a store for a numbered node. -/
def cell (parent : Option Nat) (n : Node Nat) : Cell :=
  ⟨n.head.tag, n.head.isMath, parent, n.children.map note, n.kind.map note⟩

theorem source?_cell (parent : Option Nat) (n : Node Nat) : (n.cell parent).source? = n.run?.map Run.source := by
  unfold Cell.source? cell run? kind
  cases n.form <;> rfl

theorem isDelimiter_cell (parent : Option Nat) (n : Node Nat) : (n.cell parent).isDelimiter = n.form.isDelimiter := by
  unfold Cell.isDelimiter cell kind
  cases n.form <;> rfl

theorem isTag_eq_false_of_ne {α : Type} {n : Node α} {tag tag' : String} (h : n.isTag tag = true) (hne : tag ≠ tag') :
    n.isTag tag' = false := by
  obtain ⟨-, htag⟩ := Bool.and_eq_true_iff.mp h
  rw [isTag, Head.isTag, eq_of_beq htag, beq_eq_false_iff_ne.mpr hne, Bool.and_false]

end Node

namespace Store

open Node (note)

variable {s : Store} {n m : Node Nat} {parent : Option Nat}

theorem cell_eq_ok_iff {id : Nat} {c : Cell} : s.cell id = .ok c ↔ s.cells[id]? = some c := by
  unfold cell
  cases s.cells[id]? <;> simp

theorem isTag_eq (h : s.cell n.note = .ok (n.cell parent)) (tag : String) :
    s.isTag n.note tag = .ok (n.isTag tag) := by
  rw [isTag, h]
  rfl

theorem isContent_eq (h : s.cell n.note = .ok (n.cell parent)) : s.isContent n.note = .ok !n.isProperty := by
  rw [isContent, h]
  rfl

theorem mapM_map_note {γ : Type} {f : Nat → Except Fault γ} {g : Node Nat → γ} {ns : List (Node Nat)}
    (h : ∀ n ∈ ns, f n.note = .ok (g n)) : (ns.map note).mapM f = .ok (ns.map g) := by
  induction ns with
  | nil => rfl
  | cons n ns ih =>
    rw [List.map_cons, List.mapM_cons, h n List.mem_cons_self, ih fun m hm => h m (List.mem_cons_of_mem n hm)]
    rfl

theorem select_map_note {test : Nat → Except Fault Bool} {f : Node Nat → Bool} {ns : List (Node Nat)}
    (h : ∀ n ∈ ns, test n.note = .ok (f n)) : select test (ns.map note) = .ok ((ns.filter f).map note) := by
  induction ns with
  | nil => rfl
  | cons n ns ih =>
    rw [List.map_cons, select, h n List.mem_cons_self, ih fun m hm => h m (List.mem_cons_of_mem n hm),
      List.filter_cons]
    cases f n <;> rfl

theorem any_map_note {test : Nat → Bool} {f : Node Nat → Bool} {ns : List (Node Nat)}
    (h : ∀ n ∈ ns, test n.note = f n) : (ns.map note).any test = ns.any f := by
  induction ns with
  | nil => rfl
  | cons n ns ih =>
    rw [List.map_cons, List.any_cons, List.any_cons, h n List.mem_cons_self,
      ih fun m hm => h m (List.mem_cons_of_mem n hm)]

theorem filter_map_note {test : Nat → Bool} {f : Node Nat → Bool} {ns : List (Node Nat)}
    (h : ∀ n ∈ ns, test n.note = f n) : (ns.map note).filter test = (ns.filter f).map note := by
  rw [List.filter_map]
  exact congrArg _ (List.filter_congr h)

/-! ### Segments -/

section Segments

variable {loose cs : List (Node Nat)} {c : Node Nat}

/-- The segments of the content `cs` of a delimiter. -/
def segmentsOf (cs : List (Node Nat)) : List (List (Node Nat)) :=
  (cs.splitBy fun a b => a.isLoose && b.isLoose).filter fun s => !s.any (·.isTag "sep")

/-- Loose nodes that nothing cuts are one segment. -/
theorem segmentsOf_of_loose (hloose : ∀ c ∈ cs, c.isLoose = true) (hne : cs ≠ []) : segmentsOf cs = [cs] := by
  have hchain : cs.IsChain fun a b => (a.isLoose && b.isLoose) = true := by
    refine (List.pairwise_of_forall_mem_list fun a ha b hb => ?_).isChain
    rw [hloose a ha, hloose b hb]
    rfl
  have hmark : cs.any (·.isTag "sep") = false := by
    rw [List.any_eq_false]
    exact fun a ha => Bool.eq_false_iff.mp (Node.isMark_of_isLoose (hloose a ha))
  rw [segmentsOf, List.splitBy_of_isChain hne hchain, List.filter_singleton, hmark]
  rfl

theorem map_segmentsOf_loose (hloose : ∀ c ∈ loose, c.isLoose = true) (segments : List (List Nat)) :
    (segmentsOf loose).map (List.map note) ++ segments = flush (loose.map note) segments := by
  cases loose with
  | nil => rfl
  | cons c loose =>
    rw [segmentsOf_of_loose hloose (List.cons_ne_nil c loose)]
    rfl

/-- A node that does not go with others ends what has been gathered before it. -/
theorem segmentsOf_append_cons (hc : c.isLoose = false) :
    segmentsOf (loose ++ c :: cs) = segmentsOf loose ++ ((if c.isTag "sep" then [] else [[c]]) ++ segmentsOf cs) := by
  have happend : (loose ++ c :: cs).splitBy (fun a b => a.isLoose && b.isLoose) =
      loose.splitBy (fun a b => a.isLoose && b.isLoose) ++ ([c] :: cs.splitBy fun a b => a.isLoose && b.isLoose) := by
    rw [List.splitBy_append_cons cs fun a _ => by rw [hc, Bool.and_false], ← List.singleton_append,
      List.splitBy_append (by simp [hc]), List.splitBy_of_isChain (List.cons_ne_nil c []) (.singleton c)]
    rfl
  rw [segmentsOf, happend, List.filter_append, List.filter_cons]
  cases hsep : c.isTag "sep" <;> simp [hsep, segmentsOf]

theorem segmentsFrom_eq {id : Nat} (hcells : ∀ c ∈ cs, s.cell c.note = .ok (c.cell (some id)))
    (hloose : ∀ c ∈ loose, c.isLoose = true) :
    s.segmentsFrom (loose.map note) (cs.map note) = .ok ((segmentsOf (loose ++ cs)).map (List.map note)) := by
  induction cs generalizing loose with
  | nil =>
    have hflush := map_segmentsOf_loose hloose []
    rw [List.append_nil] at hflush ⊢
    rw [hflush]
    rfl
  | cons c cs ih =>
    have hcell := hcells c List.mem_cons_self
    have hcells : ∀ d ∈ cs, s.cell d.note = .ok (d.cell (some id)) := fun d hd => hcells d (List.mem_cons_of_mem c hd)
    have hnone : ∀ d ∈ ([] : List (Node Nat)), d.isLoose = true := by simp
    have hrest : s.segmentsFrom [] (cs.map note) = .ok ((segmentsOf cs).map (List.map note)) := ih hcells hnone
    rw [List.map_cons, segmentsFrom, isTag_eq hcell, isTag_eq hcell, hrest]
    cases he : c.isTag "e" with
    | true =>
      have hc : c.isLoose = false := by rw [Node.isLoose, he, Bool.not_true, Bool.false_and]
      have hsep : c.isTag "sep" = false := Node.isTag_eq_false_of_ne he (by decide)
      rw [segmentsOf_append_cons hc, List.map_append, map_segmentsOf_loose hloose, hsep]
      rfl
    | false =>
      cases hsep : c.isTag "sep" with
      | true =>
        have hc : c.isLoose = false := by rw [Node.isLoose, hsep, Bool.not_true, Bool.and_false]
        rw [segmentsOf_append_cons hc, List.map_append, map_segmentsOf_loose hloose, hsep]
        rfl
      | false =>
        have hc : c.isLoose = true := by rw [Node.isLoose, he, hsep]; rfl
        have hgathered : ∀ d ∈ loose ++ [c], d.isLoose = true :=
          List.forall_mem_append.mpr ⟨hloose, List.forall_mem_singleton.mpr hc⟩
        have ih := ih hcells hgathered
        rwa [List.map_append, List.append_assoc] at ih

end Segments

/-! ### Children -/

/-- At the number of the node stands a cell with its children, and the cells of these stand at their numbers. -/
structure Lists (s : Store) (n : Node Nat) : Prop where
  node : ∃ c, s.cell n.note = .ok c ∧ c.children = n.children.map note
  children : ∀ m ∈ n.children, s.cell m.note = .ok (m.cell (some n.note))

section Lists

variable (h : s.Lists n)

include h

theorem childrenTagged_eq (tag : String) : s.childrenTagged n.note tag = .ok ((n.childrenTagged tag).map note) := by
  obtain ⟨⟨c, hcell, hids⟩, hchildren⟩ := h
  rw [childrenTagged, hcell]
  change select _ c.children = _
  rw [hids]
  exact select_map_note fun m hm => isTag_eq (hchildren m hm) tag

theorem contentChildren_eq : s.contentChildren n.note = .ok (n.contentChildren.map note) := by
  obtain ⟨⟨c, hcell, hids⟩, hchildren⟩ := h
  rw [contentChildren, hcell]
  change select _ c.children = _
  rw [hids]
  exact select_map_note fun m hm => isContent_eq (hchildren m hm)

theorem hasContent_eq : s.hasContent n.note = .ok n.hasContent := by
  have hcontent : n.hasContent = !(n.contentChildren.map note).isEmpty := by
    rw [Bool.eq_iff_iff, Node.hasContent_iff]
    simp
  rw [hasContent, contentChildren_eq h, hcontent]
  rfl

theorem onlyContentChild_eq : s.onlyContentChild n.note = .ok (n.onlyContentChild?.map note) := by
  rw [onlyContentChild, contentChildren_eq h, Node.onlyContentChild?]
  rcases n.contentChildren with _ | ⟨c, _ | ⟨d, cs⟩⟩ <;> rfl

theorem segments_eq : s.segments n.note = .ok (n.segments.map (List.map note)) := by
  have hcells : ∀ c ∈ n.contentChildren, s.cell c.note = .ok (c.cell (some n.note)) := fun c hc =>
    h.children c (List.mem_filter.mp hc).1
  rw [segments, contentChildren_eq h]
  exact @segmentsFrom_eq s [] _ _ hcells (by simp)

/-! ### Constructs -/

section Parts

variable (hchildren : ∀ m ∈ n.children, s.Lists m)

include hchildren

theorem contentChild_eq (tag : String) : s.contentChild n.note tag = .ok ((n.contentChild? tag).map note) := by
  rw [contentChild, childrenTagged_eq h, Node.contentChild?, Node.child?, ← List.head?_filter]
  dsimp only [bind, Except.bind]
  have hmem : ∀ c, (n.childrenTagged tag).head? = some c → c ∈ n.children := fun c hc =>
    (List.mem_filter.mp (List.mem_of_head? hc)).1
  rw [List.head?_map]
  change _ = Except.ok (((n.childrenTagged tag).head?.filter _).map note)
  cases hc : (n.childrenTagged tag).head? with
  | none => rfl
  | some c =>
    rw [Option.map_some]
    dsimp only
    rw [hasContent_eq (hchildren c (hmem c hc)), Option.filter_some]
    cases c.hasContent <;> rfl

theorem contentChildrenTagged_eq (tag : String) :
    s.contentChildrenTagged n.note tag = .ok (((n.childrenTagged tag).filter Node.hasContent).map note) := by
  rw [contentChildrenTagged, childrenTagged_eq h]
  exact select_map_note fun c hc => hasContent_eq (hchildren c (List.mem_filter.mp hc).1)

/-- The parts that are looked up when the children of a node are there are the parts of its construct. -/
theorem resolve_eq : s.resolve n.note n.form = .ok (n.kind.map note) := by
  unfold resolve Node.kind
  cases n.form <;>
    simp only [contentChild_eq h hchildren, childrenTagged_eq h, contentChildrenTagged_eq h hchildren,
      segments_eq h] <;> rfl

end Parts

end Lists

end Store

end OfficeMath
