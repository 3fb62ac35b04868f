import OfficeMath.Proofs.Latex.Fragments
import OfficeMath.Proofs.Typeset.Enclosure
import OfficeMath.Proofs.Typeset.SeenAlike

/-! Putting in an annotation. A node that has been set, with an annotation put in among its children where it is
    admitted, has the same LaTeX and is seen like the node without it. -/

namespace OfficeMath

open Typeset (scriptedOperator? scriptedName? baseName? plainName? functionName renderedName isFencedArgument)

namespace Latex

@[simp] theorem Draft.write_empty (d : Draft) : d.write "" = d := by
  cases d
  rfl

@[simp] theorem Draft.push_empty (d : Draft) : d.push "" = d := by
  cases d
  rfl

end Latex

namespace Typeset

open Latex

/-- Segments that add the same to any draft make up the same delimiter. -/
theorem joinSegments_congr (separator : String) {segments segments' : List (List String)}
    (h : List.Forall₂ (fun s s' => ∀ d : Draft, d.pushAll s = d.pushAll s') segments segments') :
    joinSegments separator segments = joinSegments separator segments' := by
  have hpush {segments segments' : List (List String)}
      (h : List.Forall₂ (fun s s' => ∀ d : Draft, d.pushAll s = d.pushAll s') segments segments') (d : Draft) :
      pushSegments separator d segments = pushSegments separator d segments' := by
    induction h generalizing d with
    | nil => rfl
    | cons hs _ ih =>
      unfold pushSegments at ih ⊢
      rw [List.foldl_cons, List.foldl_cons, hs, ih]
  cases h with
  | nil => rfl
  | cons hs hsegments =>
    unfold joinSegments
    dsimp only
    rw [hs, hpush hsegments]

/-- Without a separator between them, the segments are only written one after the other. -/
theorem joinSegments_empty_separator (segments : List (List String)) :
    joinSegments "" segments = (pushSegments "" Draft.empty segments).latex := by
  cases segments with
  | nil => rfl
  | cons s segments =>
    unfold joinSegments pushSegments
    dsimp only
    rw [List.foldl_cons, Draft.write_empty]

/-- A segment without LaTeX between the others is not seen, if it comes without a separator. -/
theorem joinSegments_insert {separator : String} {segments segments' : List (List String)}
    (h : segments ++ segments' = [] ∨ separator = "") :
    joinSegments separator (segments ++ [""] :: segments') = joinSegments separator (segments ++ segments') := by
  rcases h with hnil | rfl
  · obtain ⟨rfl, rfl⟩ := List.append_eq_nil_iff.mp hnil
    rfl
  · have hempty (d : Draft) : (d.write "").pushAll [""] = d := by
      rw [Draft.write_empty, Draft.pushAll, List.foldl_cons, List.foldl_nil, Draft.push_empty]
    simp only [joinSegments_empty_separator, pushSegments, List.foldl_append, List.foldl_cons, hempty]

end Typeset

namespace Node

variable {role : Role} {choice : ArrayEnvironment} {fence : Option Fence} {head : Head} {note note' : String}
  {before after : List (Node String)} {p : Node String}

/-- The LaTeX of a node is the same with an annotation where it is admitted. -/
theorem latexOf_insert (hp : p.IsForeignLeaf) (hnone : p.note = "")
    (h : (mk head note (before ++ after)).admitsSegment (before.map Node.head) (after.map Node.head) = true) :
    (mk head note (before ++ after)).latexOf choice fence =
      (mk head note' (before ++ p :: after)).latexOf choice fence := by
  cases hd : head.form.isDelimiter with
  | true =>
    obtain ⟨own, hform⟩ := Form.exists_fence_of_isDelimiter hd
    have hform (note : String) (ns : List (Node String)) : (mk head note ns).form = .delimiter own := hform
    rw [admitsSegment, hform, Bool.and_eq_true, Option.isNone_iff_eq_none] at h
    obtain ⟨habsorbed, hplace⟩ := h
    unfold latexOf kind
    rw [hform, hform]
    dsimp only
    rw [habsorbed, absorbedContent?_insert hp]
    refine congrArg (Typeset.fenced own) ?_
    cases hbeside : IsBeside (before.map Node.head) (after.map Node.head) with
    | true =>
      have hsegments := forall₂_segments_insert (S := fun s s' => ∀ d : Latex.Draft,
          d.pushAll (s.map Node.note) = d.pushAll (s'.map Node.note)) head note' note hp
        (fun s d => rfl) (fun c s s' hs d => hs (d.push c.note))
        (fun s d => by rw [List.map_cons, hnone, Latex.Draft.pushAll, Latex.Draft.pushAll, List.foldl_cons,
          Latex.Draft.push_empty]) hbeside
      exact Typeset.joinSegments_congr _ (List.forall₂_map_left_iff.mpr (List.forall₂_map_right_iff.mpr hsegments))
    | false =>
      obtain ⟨segments, segments', hwithout, hwith⟩ := segments_insert head note' note hp hbeside
      rw [hbeside, Bool.false_or, Bool.or_eq_true, List.isEmpty_iff, beq_iff_eq, hwithout] at hplace
      rw [hwithout, hwith, List.map_append, List.map_append, List.map_cons, List.map_singleton, hnone]
      refine (Typeset.joinSegments_insert (hplace.imp_left fun hnil => ?_)).symm
      rw [← List.map_append, hnil, List.map_nil]
  | false =>
    unfold latexOf
    have hkinds : (mk head note' (before ++ p :: after)).kind = (mk head note (before ++ after)).kind := kind_insert hp hd
    rw [← hkinds]
    cases hkind : (mk head note' (before ++ p :: after)).kind with
    | generic =>
      dsimp only
      rw [contentChildren_insert hp, contentChildren, children_mk, List.filter_append, List.map_append, List.map_append,
        List.map_cons, hnone, Latex.joinFragments_insert_empty]
    | delimiter own segments =>
      have hform : head.form = .delimiter own := form_of_kind_delimiter hkind
      rw [hform] at hd
      cases hd
    | _ => rfl

/-- A container without content has no LaTeX. -/
theorem latexOf_of_not_hasContent {n : Node String} (hform : n.form = .generic) (h : n.hasContent = false) :
    n.latexOf choice fence = "" := by
  have hcontent : n.contentChildren = [] := by
    by_contra hcontent
    rw [hasContent_iff.mpr hcontent] at h
    cases h
  rw [latexOf, kind, hform]
  dsimp only
  rw [hcontent]
  rfl

/-- What is looked at in a node with an annotation in it: it has content and is no plain text, and what is alone in it
    is no construct. Otherwise it is as it was, but for a delimiter. -/
structure AsAnnotated (n n' : Node String) : Prop where
  head_eq : n.head = n'.head
  hasContent_eq : n'.hasContent = true
  plainText?_eq : n'.plainText? = none
  form_eq : ∀ c, n'.onlyContentChild? = some c → c.form = .generic
  childrenTagged_eq : ∀ tag, n'.childrenTagged tag = n.childrenTagged tag
  kind_eq : n.form.isDelimiter = false → n'.kind = n.kind

theorem asAnnotated_insert (hp : p.IsForeignLeaf) (hrun : head.form.isRun = false) :
    AsAnnotated (mk head note (before ++ after)) (mk head note' (before ++ p :: after)) where
  head_eq := rfl
  hasContent_eq := hasContent_insert hp
  plainText?_eq := plainText?_insert hp hrun
  form_eq c hc := by rw [eq_of_onlyContentChild?_insert hp hc, hp.form_eq]
  childrenTagged_eq _ := childrenTagged_insert hp
  kind_eq := kind_insert hp

namespace AsAnnotated

variable {n n' : Node String} (h : AsAnnotated n n')

include h

theorem plainName?_eq : plainName? n' = none := by rw [plainName?, h.plainText?_eq, Option.bind_none]

theorem baseName?_eq : baseName? n' = none := by rw [baseName?, h.plainName?_eq, ite_self]

theorem scriptedName?_eq : scriptedName? n' = none := by
  rw [Typeset.scriptedName?_eq_bind, Option.bind_eq_none_iff]
  exact fun c hc => Typeset.scriptedOperator?_of_ne_script (by rw [h.form_eq c hc]; decide)

theorem scriptedOperator?_eq : scriptedOperator? n = scriptedOperator? n' := by
  cases hd : n.form.isDelimiter with
  | false => rw [scriptedOperator?, scriptedOperator?, h.kind_eq hd]
  | true =>
    have hne : n.form ≠ .script := by
      intro hform
      rw [hform] at hd
      cases hd
    rw [Typeset.scriptedOperator?_of_ne_script hne,
      Typeset.scriptedOperator?_of_ne_script (Node.form_eq h.head_eq ▸ hne)]

theorem isFencedArgument_eq : isFencedArgument n' = false := by
  rw [isFencedArgument]
  cases hc : n'.onlyContentChild? with
  | none => rfl
  | some c => rw [Option.any_some, h.form_eq c hc]

theorem absorbed_eq (fence : Fence) : n'.onlyContentChild?.filter (absorbs fence) = none := by
  rw [Option.filter_eq_none_iff]
  intro c hc
  rw [absorbs, h.form_eq c hc]
  exact Bool.false_ne_true

/-- A node is seen alike with an annotation in it that its role admits. -/
theorem seenAlike (hhead : ∃ e, n.head = Head.ofElement e) (hnote : n.note = n'.note)
    (hlatex : n.note = n.latexOf choice fence) (hadmits : role.admits n = true) : SeenAlike role n n' where
  head_eq := h.head_eq
  note_eq _ := hnote
  hasContent_eq hcounted := by
    rw [h.hasContent_eq]
    cases role with
    | part => exact hadmits
    | name | limitBase | argument => exact (Bool.and_eq_true_iff.mp hadmits).1
    | _ => cases hcounted
  hasContent_or _ tag hcontainer htag := by
    cases hempty : n.hasContent with
    | true => exact .inl h.hasContent_eq.symm
    | false => exact .inr (hlatex.trans (latexOf_of_not_hasContent (form_of_container hhead hcontainer htag) hempty))
  cells_eq _ _ := by rw [h.childrenTagged_eq]
  functionName_eq := by
    rintro rfl
    have hwritten : functionName n = renderedName n.note := eq_of_beq (Bool.and_eq_true_iff.mp hadmits).2
    rw [hwritten, functionName, h.plainName?_eq, h.scriptedName?_eq, Option.getD_none, hnote]
  scriptedOperator_eq _ := by rw [h.scriptedOperator?_eq, hnote]
  scriptedBase_eq := by
    rintro rfl
    have hnone : plainName? n = none := by
      cases hplain : plainName? n with
      | none => rfl
      | some name => simp [Role.admits, hplain] at hadmits
    rw [h.baseName?_eq, baseName?, hnone, ite_self]
  bareBase_eq := by
    rintro rfl
    rw [h.baseName?_eq, Option.getD_none, ← hnote, baseName?]
    split
    · cases hplain : plainName? n with
      | none => rw [Option.getD_none]
      | some name =>
        rw [Role.admits, hplain] at hadmits
        simpa using hadmits
    · rw [Option.getD_none]
  command_eq := by
    rintro rfl
    rw [h.plainText?_eq, Option.bind_none]
    exact Option.isNone_iff_eq_none.mp (Bool.and_eq_true_iff.mp hadmits).2
  isFencedArgument_eq := by
    rintro rfl
    rw [h.isFencedArgument_eq]
    exact (Bool.not_eq_true' _).mp (Bool.and_eq_true_iff.mp hadmits).2
  absorbed_eq := by
    rintro own rfl
    rw [h.absorbed_eq, Option.filter_eq_none_iff.mpr]
    intro c hc
    rw [Role.admits, hc] at hadmits
    simpa using hadmits

end AsAnnotated

/-! ### Trees -/

variable {α : Type}

theorem isForeignLeaf_typeset (choice : ArrayEnvironment) {p : Node α} (hp : p.IsForeignLeaf)
    (enclosure : Enclosure α) :
    (p.typeset choice enclosure).IsForeignLeaf ∧ (p.typeset choice enclosure).note = "" := by
  obtain ⟨head, note, children⟩ := p
  obtain ⟨hmath, hform, hchildren⟩ := hp
  obtain rfl : children = [] := hchildren
  refine ⟨⟨hmath, hform, rfl⟩, ?_⟩
  have hform : head.form = .generic := hform
  rw [typeset, note_mk, latexOf, kind, form, head_mk, hform]
  rfl

/-- The note of a node that is set is its LaTeX. -/
theorem note_typeset (enclosure : Enclosure α) (n : Node α) :
    (n.typeset choice enclosure).note = (n.typeset choice enclosure).latexOf choice enclosure.fence? := by
  cases n
  rfl

theorem typeset_of_children {n : Node α} {enclosure : Enclosure α} {ns : List (Node String)}
    (h : n.children.map (typeset choice (enclosure.inside n)) = ns) :
    n.typeset choice enclosure = mk n.head (latexOf choice enclosure.fence? (mk n.head "" ns)) ns := by
  subst h
  obtain ⟨head, note, children⟩ := n
  rw [typeset, typesetAll_eq_map]
  rfl

end Node

end OfficeMath
