import OfficeMath.Proofs.Equation.Alike
import OfficeMath.Proofs.Equation.Bare
import OfficeMath.Proofs.Equation.Parts
import OfficeMath.Proofs.Typeset.Locality

/-! Annotations: nodes without children that are no elements of office math, such as a bookmark. An annotation is no
    part of a construct, but it counts as content; it is no text, it is alone where there is no content beside it, and
    in a delimiter it makes up a segment unless it goes with its neighbours. -/

namespace OfficeMath

/-- The node belongs to a segment of a delimiter that it shares with its neighbours. -/
def Head.isLoose (h : Head) : Bool := !h.isTag "e" && !h.isTag "sep"

/-- The place between the nodes before it and those after it is in a segment of a delimiter, beside content that is
    loose. -/
def IsBeside (before after : List Head) : Bool :=
  (before.filter (!·.isProperty)).getLast?.any Head.isLoose || (after.filter (!·.isProperty)).head?.any Head.isLoose

namespace Node

variable {α : Type}

/-- The node is no element of office math and has no children. -/
structure IsForeignLeaf (p : Node α) : Prop where
  isMath_eq : p.head.isMath = false
  form_eq : p.form = .generic
  children_eq : p.children = []

/-! ### Plain text -/

/-- Content with a node in it that is no run is no plain text. -/
theorem mapM_run?_eq_none {cs : List (Node α)} {c : Node α} (hc : c ∈ cs) (hrun : c.run? = none) :
    cs.mapM run? = none := by
  induction cs with
  | nil => cases hc
  | cons d cs ih =>
    rw [List.mapM_cons]
    rcases List.mem_cons.mp hc with rfl | hc
    · rw [hrun]
      rfl
    · cases d.run? with
      | none => rfl
      | some r => rw [ih hc]; rfl

theorem run?_eq_none_iff {n : Node α} : n.run? = none ↔ n.form.isRun = false := by
  unfold run?
  cases n.form <;> simp [Form.isRun]

theorem plainText?_of_not_run {n c : Node α} (hself : n.run? = none) (hc : c ∈ n.contentChildren)
    (hrun : c.run? = none) : n.plainText? = none := by
  have hmapM := mapM_run?_eq_none hc hrun
  unfold plainText?
  rw [hself]
  cases hcontent : n.contentChildren with
  | nil => rfl
  | cons d ds =>
    rw [hcontent] at hmapM
    dsimp only
    rw [hmapM]
    rfl

section Insertion

/-! ### What is asked of a node with an annotation -/

variable {head : Head} {note note' : α} {before after : List (Node α)} {p : Node α} {tag : String}

theorem IsForeignLeaf.isTag_eq (hp : p.IsForeignLeaf) (tag : String) : p.isTag tag = false := by
  rw [isTag, Head.isTag, hp.isMath_eq, Bool.false_and]

theorem IsForeignLeaf.isProperty_eq (hp : p.IsForeignLeaf) : p.isProperty = false := by
  rw [isProperty, Head.isProperty, hp.isMath_eq, Bool.false_and]

theorem IsForeignLeaf.run?_eq (hp : p.IsForeignLeaf) : p.run? = none := by
  rw [run?, hp.form_eq]

theorem contentChildren_insert (hp : p.IsForeignLeaf) :
    (mk head note (before ++ p :: after)).contentChildren =
      before.filter (fun c => !c.isProperty) ++ p :: after.filter fun c => !c.isProperty := by
  rw [contentChildren, children_mk, List.filter_append, List.filter_cons, hp.isProperty_eq]
  rfl

theorem childrenTagged_insert (hp : p.IsForeignLeaf) :
    (mk head note (before ++ p :: after)).childrenTagged tag =
      (mk head note' (before ++ after)).childrenTagged tag := by
  rw [childrenTagged, childrenTagged, children_mk, children_mk, List.filter_append, List.filter_append,
    List.filter_cons, hp.isTag_eq]
  rfl

theorem contentChild?_insert (hp : p.IsForeignLeaf) :
    (mk head note (before ++ p :: after)).contentChild? tag = (mk head note' (before ++ after)).contentChild? tag := by
  have htagged : (mk head note (before ++ p :: after)).childrenTagged tag =
      (mk head note' (before ++ after)).childrenTagged tag := childrenTagged_insert hp
  rw [contentChild?, contentChild?, child?, child?, ← List.head?_filter, ← List.head?_filter]
  exact congrArg (fun cs => cs.head?.filter hasContent) htagged

/-- An annotation is no part of a construct, but it is in the content of a delimiter. -/
theorem kind_insert (hp : p.IsForeignLeaf) (hd : head.form.isDelimiter = false) :
    (mk head note (before ++ p :: after)).kind = (mk head note' (before ++ after)).kind := by
  have hpart (tag : String) : (mk head note (before ++ p :: after)).contentChild? tag =
      (mk head note' (before ++ after)).contentChild? tag := contentChild?_insert hp
  have htagged (tag : String) : (mk head note (before ++ p :: after)).childrenTagged tag =
      (mk head note' (before ++ after)).childrenTagged tag := childrenTagged_insert hp
  unfold kind form
  rw [head_mk, head_mk]
  cases hform : head.form with
  | delimiter fence => simp [hform, Form.isDelimiter] at hd
  | _ => simp only [hpart, htagged]

theorem hasContent_insert (hp : p.IsForeignLeaf) : (mk head note (before ++ p :: after)).hasContent = true := by
  rw [hasContent_iff, contentChildren_insert hp]
  simp

/-- A node with an annotation in it is no plain text, unless it is a run. -/
theorem plainText?_insert (hp : p.IsForeignLeaf) (hrun : head.form.isRun = false) :
    (mk head note (before ++ p :: after)).plainText? = none := by
  refine plainText?_of_not_run (run?_eq_none_iff.mpr hrun) ?_ hp.run?_eq
  rw [contentChildren_insert hp]
  simp

theorem eq_of_onlyContentChild?_insert (hp : p.IsForeignLeaf) {c : Node α}
    (h : (mk head note (before ++ p :: after)).onlyContentChild? = some c) : c = p := by
  refine (eq_of_mem_contentChildren h ?_).symm
  rw [contentChildren_insert hp]
  simp

/-! ### Delimiters -/

theorem IsForeignLeaf.isLoose_eq (hp : p.IsForeignLeaf) : p.isLoose = true := by
  rw [isLoose, hp.isTag_eq, hp.isTag_eq]
  rfl

theorem eq_of_soleContent?_insert (hp : p.IsForeignLeaf) {c : Node α}
    (h : (mk head note (before ++ p :: after)).soleContent? = some c) : c = p := by
  have hcontent := contentChildren_of_soleContent? h
  have hmem : p ∈ (mk head note (before ++ p :: after)).contentChildren.filter fun c => !c.isMark := by
    rw [contentChildren_insert hp, List.filter_append, List.filter_cons, isMark_of_isLoose hp.isLoose_eq]
    simp
  rw [hcontent, List.mem_singleton] at hmem
  exact hmem.symm

/-- Nothing in a delimiter with an annotation brings the fence. -/
theorem absorbedContent?_insert (hp : p.IsForeignLeaf) (fence : Fence) :
    (mk head note (before ++ p :: after)).absorbedContent? fence = none := by
  unfold absorbedContent? wrappedContent?
  cases hsole : (mk head note (before ++ p :: after)).soleContent? with
  | none => rfl
  | some c =>
    obtain rfl := eq_of_soleContent?_insert hp hsole
    rw [Option.bind_some, hp.isTag_eq, if_neg Bool.false_ne_true, Option.filter_some, absorbs, hp.form_eq,
      if_neg Bool.false_ne_true]

theorem isBeside_eq (before after : List (Node α)) :
    IsBeside (before.map Node.head) (after.map Node.head) =
      ((before.filter fun c => !c.isProperty).getLast?.any isLoose ||
        (after.filter fun c => !c.isProperty).head?.any isLoose) := by
  rw [IsBeside, List.filter_map, List.filter_map, List.getLast?_map, List.head?_map, Option.any_map, Option.any_map]
  rfl

/-- Beside loose content, each segment is as it was or has the annotation put in. -/
theorem forall₂_segments_insert {S : List (Node α) → List (Node α) → Prop} (head : Head) (note note' : α)
    (hp : p.IsForeignLeaf) (hrefl : ∀ s, S s s) (hcons : ∀ c s s', S s s' → S (c :: s) (c :: s'))
    (hput : ∀ s, S s (p :: s)) (h : IsBeside (before.map Node.head) (after.map Node.head) = true) :
    List.Forall₂ S (mk head note' (before ++ after)).segments (mk head note (before ++ p :: after)).segments := by
  rw [isBeside_eq] at h
  -- an annotation is no mark, so the same runs are segments
  have hruns := forall₂_splitBy_insert (S := fun s s' => s.any (·.isTag "sep") = s'.any (·.isTag "sep") ∧ S s s')
    hp.isLoose_eq (fun s => ⟨rfl, hrefl s⟩)
    (fun c s s' hs => ⟨by rw [List.any_cons, List.any_cons, hs.1], hcons c s s' hs.2⟩)
    (fun s => ⟨by rw [List.any_cons, hp.isTag_eq, Bool.false_or], hput s⟩) _ _ h
  unfold segments
  rw [contentChildren_insert hp, contentChildren, children_mk, List.filter_append]
  exact (forall₂_filter (fun hs => congrArg not hs.1) hruns).imp fun s s' hs => hs.2

/-- Elsewhere the annotation makes up a segment by itself. -/
theorem segments_insert (head : Head) (note note' : α) (hp : p.IsForeignLeaf)
    (h : IsBeside (before.map Node.head) (after.map Node.head) = false) :
    ∃ segments segments', (mk head note' (before ++ after)).segments = segments ++ segments' ∧
      (mk head note (before ++ p :: after)).segments = segments ++ [p] :: segments' := by
  rw [isBeside_eq] at h
  obtain ⟨hruns, hruns'⟩ := splitBy_insert p _ _ h
  have hmark : [p].any (·.isTag "sep") = false := by
    rw [List.any_cons, hp.isTag_eq]
    rfl
  unfold segments
  rw [contentChildren_insert hp, contentChildren, children_mk, List.filter_append, hruns, hruns', List.filter_append,
    List.filter_append, List.filter_cons, hmark]
  exact ⟨_, _, rfl, rfl⟩

end Insertion

end Node

end OfficeMath
