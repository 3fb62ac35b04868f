import OfficeMath.Proofs.Typeset.SeenAlike

/-! Replacing a child. A node with a child replaced by one that is seen alike, in the role that the child has there, has
    the same LaTeX and is seen alike itself. -/

namespace OfficeMath

open Typeset (scriptedOperator? scriptedName? baseName? plainName? functionName renderedName isFencedArgument)

/-- Things that are the same, if they are there, or one thing and another. -/
theorem eq_or_of_rel {α : Type} {a b : α} {x y : Option α} (h : Option.Rel (fun x y => x = y ∨ x = a ∧ y = b) x y) :
    x = y ∨ x = some a ∧ y = some b := by
  cases h with
  | none => exact .inl rfl
  | some h =>
    obtain rfl | ⟨rfl, rfl⟩ := h
    · exact .inl rfl
    · exact .inr ⟨rfl, rfl⟩

namespace Node

section Replacement

variable {role : Role} {n n' c c' : Node String} {before after : List (Node String)}

variable (hchildren : n.children = before ++ c :: after) (hchildren' : n'.children = before ++ c' :: after)

include hchildren hchildren'

theorem notesAlike_of_replace (hc : SeenAlike (n.partRole role (before.map head) c.head) c c') :
    NotesAlike (n.form.partRoles role fun tag => ((n.contentChild? tag).map note).isSome)
      (fun tag => (n.contentChild? tag).map note) fun tag => (n'.contentChild? tag).map note := by
  simp only [Option.isSome_map]
  by_cases h : ∃ part ∈ n.partRoles role, c.head.isFirst (before.map head) part.1 = true
  · obtain ⟨⟨tag, partRole⟩, hmem, hfirst⟩ := h
    rw [partRole_of_isFirst hmem hfirst] at hc
    have hchild := child?_of_isFirst hchildren hfirst
    have hchild' := child?_of_isFirst hchildren' (hc.head_eq ▸ hfirst)
    have htag : c.isTag tag = true := Head.isTag_of_isFirst hfirst
    have hothers (other : String) (hne : other ≠ tag) : n.contentChild? other = n'.contentChild? other :=
      contentChild?_of_isTag_ne hchildren hchildren' hc.head_eq htag hne
    by_cases hhidden : partRole = .hidden
    · subst hhidden
      exact .hidden hmem fun other hne => congrArg _ (hothers other hne)
    · cases hcounted : partRole.isCounted with
      | true =>
        refine .same fun part _ => ?_
        by_cases hne : part.1 = tag
        · rw [hne]
          exact map_note_of_isCounted hchild hchild' hc hcounted
        · exact congrArg _ (hothers part.1 hne)
      | false =>
        refine .empty hmem hhidden hcounted (fun f hf => ?_) fun other hne => congrArg _ (hothers other hne)
        exact apply_note_of_ne_hidden f hf hchild hchild' hc hhidden htag (mem_containerTags_of_partRoles hmem)
  · refine .same fun part hmem => congrArg _ (contentChild?_of_not_isFirst hchildren hchildren' hc.head_eq ?_)
    exact Bool.eq_false_iff.mpr fun hfirst => h ⟨part, hmem, hfirst⟩

/-- What is made of the children that are picked is the same, if the child that is replaced is picked like the child in
    its place and the same is made of both. -/
theorem map_filter_replace {β : Type} (f : Node String → Bool) (g : Node String → β) (hf : f c = f c')
    (hg : f c = true → g c = g c') : (n.children.filter f).map g = (n'.children.filter f).map g := by
  rw [hchildren, hchildren', List.filter_append, List.filter_append, List.filter_cons, List.filter_cons, ← hf,
    List.map_append, List.map_append]
  split
  · next hpicked => rw [List.map_cons, List.map_cons, hg hpicked]
  · rfl

theorem childrenTagged_of_not_isTag {tag : String} (hself : c.head = c'.head) (htag : c.isTag tag = false) :
    n.childrenTagged tag = n'.childrenTagged tag := by
  have h := map_filter_replace hchildren hchildren' (·.isTag tag) id (isTag_eq hself tag) fun hc => by
    rw [htag] at hc
    cases hc
  rwa [List.map_id, List.map_id] at h

/-- The children correspond one by one: they are the same, or the child and the one in its place. -/
theorem forall₂_replaced : List.Forall₂ (fun x y => x = y ∨ x = c ∧ y = c') n.children n'.children := by
  rw [hchildren, hchildren']
  exact forall₂_replace (fun _ => .inl rfl) (.inr ⟨rfl, rfl⟩) before after

omit hchildren hchildren' in
theorem head_eq_of_replaced (hself : c.head = c'.head) {x y : Node String} (h : x = y ∨ x = c ∧ y = c') :
    x.head = y.head := by
  obtain rfl | ⟨rfl, rfl⟩ := h
  · rfl
  · exact hself

theorem onlyContentChild?_replace (hself : c.head = c'.head) :
    n.onlyContentChild? = n'.onlyContentChild? ∨ n.onlyContentChild? = some c ∧ n'.onlyContentChild? = some c' :=
  eq_or_of_rel (rel_onlyContentChild? (head_eq_of_replaced hself) (forall₂_replaced hchildren hchildren'))

theorem soleContent?_replace (hself : c.head = c'.head) :
    n.soleContent? = n'.soleContent? ∨ n.soleContent? = some c ∧ n'.soleContent? = some c' :=
  eq_or_of_rel (rel_soleContent? (head_eq_of_replaced hself) (forall₂_replaced hchildren hchildren'))

/-! ### Functions -/

omit hchildren hchildren' in
/-- A single argument is looked at for a delimiter only if it would get parentheses otherwise. -/
theorem application_congr (name : String) {arguments arguments' : List (Node String)}
    (hnotes : arguments.map note = arguments'.map note)
    (hfenced : ∀ argument, arguments = [argument] → name ≠ "\\lim" → name.toList.contains '_' = false →
      arguments.map isFencedArgument = arguments'.map isFencedArgument) :
    Typeset.application name arguments = Typeset.application name arguments' := by
  unfold Typeset.application
  rcases arguments with _ | ⟨a, _ | ⟨b, arguments⟩⟩ <;> rcases arguments' with _ | ⟨a', _ | ⟨b', arguments'⟩⟩ <;>
    simp only [List.map_cons, List.map_nil, List.cons.injEq, reduceCtorEq, and_false, and_true] at hnotes
  · rfl
  · dsimp only
    rw [hnotes]
    split
    · rfl
    · next hlim =>
      split
      · rfl
      · next hunderscore =>
        rw [(List.cons.inj (hfenced a rfl hlim (Bool.eq_false_iff.mpr hunderscore))).1]
  · dsimp only
    rw [List.map_cons, List.map_cons, List.map_cons, List.map_cons, hnotes.1, hnotes.2.1, hnotes.2.2]

theorem function_replace (hform : n.form = .function)
    (hc : SeenAlike (n.childRole role (before.map head) c.head) c c') :
    Typeset.function (n.contentChild? "fName") ((n.childrenTagged "e").filter hasContent) =
      Typeset.function (n'.contentChild? "fName") ((n'.childrenTagged "e").filter hasContent) := by
  have hself := hc.head_eq
  simp only [childRole, hform] at hc
  cases he : c.isTag "e" with
  | false =>
    rw [if_neg (show ¬c.head.isTag "e" = true from Bool.eq_false_iff.mp he)] at hc
    rw [childrenTagged_of_not_isTag hchildren hchildren' hself he]
    cases hfirst : c.head.isFirst (before.map head) "fName" with
    | false => rw [contentChild?_of_not_isFirst hchildren hchildren' hself hfirst]
    | true =>
      have hmem : ("fName", Role.name) ∈ n.partRoles role := by
        rw [partRoles, hform]
        exact List.mem_cons_self
      rw [partRole_of_isFirst hmem hfirst] at hc
      rw [contentChild?_of_child? (child?_of_isFirst hchildren hfirst),
        contentChild?_of_child? (child?_of_isFirst hchildren' (hself ▸ hfirst)), hc.hasContent_eq rfl]
      split
      · simp only [Typeset.function, hc.functionName_eq rfl]
      · rfl
  | true =>
    rw [if_pos (show c.head.isTag "e" = true from he)] at hc
    have hname : n.contentChild? "fName" = n'.contentChild? "fName" :=
      contentChild?_of_isTag_ne hchildren hchildren' hself he (by decide)
    have hcounted : (if n.parenthesizes = true then Role.argument else Role.part).isCounted = true := by
      split <;> rfl
    have hvisible : (if n.parenthesizes = true then Role.argument else Role.part) ≠ .hidden := by
      split <;> decide
    have hpicked : (c.hasContent && c.isTag "e") = (c'.hasContent && c'.isTag "e") := by
      rw [hc.hasContent_eq hcounted, isTag_eq hself]
    have hnotes : ((n.childrenTagged "e").filter hasContent).map note =
        ((n'.childrenTagged "e").filter hasContent).map note := by
      rw [childrenTagged, childrenTagged, List.filter_filter, List.filter_filter]
      exact map_filter_replace hchildren hchildren' _ note hpicked fun _ => hc.note_eq hvisible
    rw [← hname]
    cases hfunction : n.contentChild? "fName" with
    | none => rw [Typeset.function, Typeset.function, hnotes]
    | some name =>
      refine application_congr _ hnotes fun argument harguments hlim hunderscore => ?_
      have hparenthesizes : n.parenthesizes = true := by
        simp only [parenthesizes, kind, hform, hfunction, harguments]
        rw [hunderscore, Bool.not_false, Bool.and_true]
        exact bne_iff_ne.mpr hlim
      rw [if_pos hparenthesizes] at hc
      rw [childrenTagged, childrenTagged, List.filter_filter, List.filter_filter]
      exact map_filter_replace hchildren hchildren' _ isFencedArgument hpicked fun _ => hc.isFencedArgument_eq rfl

/-! ### Delimiters and arrays -/

omit hchildren hchildren' in
theorem mem_content_of_segments {x : Node String} {s : List (Node String)} (hs : s ∈ n.segments) (hx : x ∈ s) :
    x.isProperty = false ∧ x.isMark = false := by
  have hmem : x ∈ n.segments.flatten := List.mem_flatten.mpr ⟨s, hs, hx⟩
  rw [flatten_segments] at hmem
  obtain ⟨hcontent, hmark⟩ := List.mem_filter.mp hmem
  exact ⟨(Bool.not_eq_true' _).mp (List.mem_filter.mp hcontent).2, (Bool.not_eq_true' _).mp hmark⟩

theorem delimiter_replace {own : Fence} (hform : n.form = .delimiter own)
    (hc : SeenAlike (n.childRole role (before.map head) c.head) c c') :
    (n.absorbedContent? own).map note = (n'.absorbedContent? own).map note ∧
      n.segments.map (List.map note) = n'.segments.map (List.map note) := by
  have hself := hc.head_eq
  simp only [childRole, hform] at hc
  have hcontent (hproperty : c.isProperty = false) (hmark : c.isMark = false) :
      SeenAlike (if (c.isTag "e" && n.soleContent?.isSome) = true then .segment own else .plain) c c' := by
    have hproperty : c.head.isProperty = false := hproperty
    have hmark : c.head.isTag "sep" = false := hmark
    rwa [hproperty, hmark, Bool.or_self, if_neg Bool.false_ne_true] at hc
  constructor
  · unfold absorbedContent? wrappedContent?
    rcases soleContent?_replace hchildren hchildren' hself with hsame | ⟨hsole, hsole'⟩
    · rw [hsame]
    · obtain ⟨hproperty, hmark⟩ := mem_content_of_segments (mem_segments_of_soleContent? hsole) List.mem_cons_self
      have hc := hcontent hproperty hmark
      rw [hsole, Option.isSome_some, Bool.and_true] at hc
      rw [hsole, hsole', Option.bind_some, Option.bind_some, ← isTag_eq hself]
      split
      · next he =>
        rw [if_pos he] at hc
        exact hc.absorbed_eq own rfl
      · next he =>
        rw [if_neg he] at hc
        rw [Option.filter_some, Option.filter_some, absorbs_eq hself]
        split
        · exact congrArg some (hc.note_eq Role.noConfusion)
        · rfl
  · have hnote {x y : Node String} {s : List (Node String)} (hs : s ∈ n.segments) (hx : x ∈ s)
        (h : x = y ∨ x = c ∧ y = c') : x.note = y.note := by
      obtain rfl | ⟨rfl, rfl⟩ := h
      · rfl
      obtain ⟨hproperty, hmark⟩ := mem_content_of_segments hs hx
      refine (hcontent hproperty hmark).note_eq ?_
      split <;> exact Role.noConfusion
    have hsegments : List.Forall₂ (fun s t => s ∈ n.segments ∧ List.Forall₂ _ s t) n.segments n'.segments :=
      (List.forall₂_and_left _ _).mpr ⟨fun s hs => hs,
        forall₂_segments (head_eq_of_replaced hself) (forall₂_replaced hchildren hchildren')⟩
    refine map_eq_of_forall₂ hsegments fun {s t} hst => ?_
    have hst' : List.Forall₂ (fun x y => x ∈ s ∧ (x = y ∨ x = c ∧ y = c')) s t :=
      (List.forall₂_and_left _ _).mpr ⟨fun x hx => hx, hst.2⟩
    exact map_eq_of_forall₂ hst' fun hxy => hnote hst.1 hxy.1 hxy.2

/-! ### The LaTeX of a node -/

/-- The function that the base of a limit names is looked at only if there is a limit. -/
theorem command_replace {upper : Bool} (hform : n.form = .limit upper)
    (hc : SeenAlike (n.partRole role (before.map head) c.head) c c')
    (hlim : ((n.contentChild? "lim").map note).isSome = true) :
    ((n.contentChild? "e").bind plainText?).bind Latex.functionCommand? =
      ((n'.contentChild? "e").bind plainText?).bind Latex.functionCommand? := by
  cases hfirst : c.head.isFirst (before.map head) "e" with
  | false => rw [contentChild?_of_not_isFirst hchildren hchildren' hc.head_eq hfirst]
  | true =>
    have hmem : ("e", Role.limitBase) ∈ n.partRoles role := by
      rw [Option.isSome_map] at hlim
      rw [partRoles, hform, Form.partRoles, if_pos hlim]
      exact List.mem_cons_self
    rw [partRole_of_isFirst hmem hfirst] at hc
    rw [contentChild?_of_child? (child?_of_isFirst hchildren hfirst),
      contentChild?_of_child? (child?_of_isFirst hchildren' (hc.head_eq ▸ hfirst)), hc.hasContent_eq rfl]
    split
    · exact hc.command_eq rfl
    · rfl

/-- The LaTeX of a node is the same if a child is replaced by one that is seen alike. -/
theorem latexOf_replace (hhead : n.head = n'.head) (hc : SeenAlike (n.childRole role (before.map head) c.head) c c')
    (choice : ArrayEnvironment) (fence : Option Fence) : n.latexOf choice fence = n'.latexOf choice fence := by
  have hself := hc.head_eq
  have hnotes {form : Form} (hform : n.form = form)
      (hrole : n.childRole role (before.map head) c.head = n.partRole role (before.map head) c.head) :
      NotesAlike (form.partRoles role fun tag => ((n.contentChild? tag).map note).isSome)
        (fun tag => (n.contentChild? tag).map note) fun tag => (n'.contentChild? tag).map note :=
    hform ▸ notesAlike_of_replace hchildren hchildren' (hrole ▸ hc)
  unfold latexOf kind
  rw [← form_eq hhead]
  cases hform : n.form with
  | run r => rfl
  | generic =>
    simp only [childRole, hform] at hc
    refine congrArg Latex.joinFragments (map_filter_replace hchildren hchildren' _ note ?_ fun hcontent => ?_)
    · rw [isProperty_eq hself]
    · have hproperty : c.head.isProperty = false := (Bool.not_eq_true' _).mp hcontent
      refine hc.note_eq ?_
      rw [hproperty, if_neg Bool.false_ne_true]
      split <;> exact Role.noConfusion
  | delimiter own =>
    obtain ⟨habsorbed, hsegments⟩ := delimiter_replace hchildren hchildren' hform hc
    dsimp only
    rw [habsorbed, hsegments]
  | function => exact function_replace hchildren hchildren' hform hc
  | matrix =>
    simp only [childRole, hform] at hc
    refine congrArg (Typeset.matrix fence) (map_filter_replace hchildren hchildren' _ _ (isTag_eq hself "mr") ?_)
    intro hrow
    rw [if_pos (show c.head.isTag "mr" = true from hrow)] at hc
    have hcells := hc.cells_eq (by decide)
    unfold kind
    rw [← form_eq hself]
    cases hform : c.form with
    | matrixRow => exact hcells hform
    | _ => rfl
  | matrixRow =>
    simp only [childRole, hform] at hc
    refine congrArg Latex.row (map_filter_replace hchildren hchildren' _ note (isTag_eq hself "e") fun he => ?_)
    rw [if_pos (show c.head.isTag "e" = true from he)] at hc
    exact hc.note_eq (by decide)
  | equationArray =>
    simp only [childRole, hform] at hc
    dsimp only
    cases he : c.isTag "e" with
    | false => rw [childrenTagged_of_not_isTag hchildren hchildren' hself he]
    | true =>
      rw [if_pos (show c.head.isTag "e" = true from he)] at hc
      rw [childrenTagged, childrenTagged, List.filter_filter, List.filter_filter]
      refine congrArg (Typeset.equationArray choice fence)
        (map_filter_replace hchildren hchildren' _ note ?_ fun _ => hc.note_eq Role.noConfusion)
      rw [hc.hasContent_eq rfl, isTag_eq hself]
  | limit upper =>
    have hrole : n.childRole role (before.map head) c.head = n.partRole role (before.map head) c.head := by
      simp only [childRole, hform]
    exact (hnotes hform hrole).limit_eq upper (command_replace hchildren hchildren' hform (hrole ▸ hc))
  | fraction style => exact (hnotes hform (by simp only [childRole, hform])).fraction_eq style
  | radical hideDegree => exact (hnotes hform (by simp only [childRole, hform])).radical_eq hideDegree
  | script => exact (hnotes hform (by simp only [childRole, hform])).script_eq
  | preScript => exact (hnotes hform (by simp only [childRole, hform])).preScript_eq
  | nary operator => exact (hnotes hform (by simp only [childRole, hform])).nary_eq operator
  | accent mark => exact congrArg (Typeset.accent mark) (hnotes hform (by simp only [childRole, hform])).base_eq
  | bar position => exact congrArg (Typeset.bar position) (hnotes hform (by simp only [childRole, hform])).base_eq
  | box _ => exact congrArg Typeset.box (hnotes hform (by simp only [childRole, hform])).base_eq
  | groupCharacter sign position =>
    exact congrArg (Typeset.groupCharacter sign position) (hnotes hform (by simp only [childRole, hform])).base_eq
  | phantom isShown =>
    exact congrArg (Typeset.phantom isShown) (hnotes hform (by simp only [childRole, hform])).base_eq

/-! ### What is looked at in a node -/

omit hchildren hchildren' in
theorem scriptedOperator?_of_script (hform : n.form = .script) :
    scriptedOperator? n = ((n.child? "e").bind baseName?).map fun name =>
      name ++ Typeset.scripts ((n.contentChild? "sub").map note) ((n.contentChild? "sup").map note) := by
  have hbase : (n.contentChild? "e").bind plainName? = (n.child? "e").bind baseName? := by
    cases he : n.child? "e" with
    | none =>
      rw [contentChild?, he]
      rfl
    | some base =>
      rw [contentChild?_of_child? he, Option.bind_some, baseName?]
      split <;> rfl
  simp only [scriptedOperator?, kind, hform, hbase]

omit hchildren hchildren' in
/-- A script with nothing below or above a base that is a name is written as the base. -/
theorem note_of_unscripted (hform : n.form = .script)
    (hlatex : ∃ choice fence, n.note = n.latexOf choice fence) (he : n.child? "e" = some c)
    (hsub : n.contentChild? "sub" = none) (hsup : n.contentChild? "sup" = none) (hname : baseName? c ≠ none) :
    n.note = c.note := by
  have hcontent : c.hasContent = true := by
    by_contra hcontent
    exact hname (if_neg hcontent)
  have hbase : n.contentChild? "e" = some c := by rw [contentChild?_of_child? he, if_pos hcontent]
  obtain ⟨choice, fence, hlatex⟩ := hlatex
  rw [hlatex, latexOf, kind, hform]
  dsimp only
  rw [hbase, hsub, hsup]
  rfl

/-- What a script is written as in the name of a function is the same, if a part of it is replaced. -/
theorem scriptedOperator_replace (hhead : n.head = n'.head) (hnote : n.note = n'.note)
    (hlatex : ∃ choice fence, n.note = n.latexOf choice fence)
    (hlatex' : ∃ choice fence, n'.note = n'.latexOf choice fence)
    (hc : SeenAlike (n.childRole .soleName (before.map head) c.head) c c') :
    (scriptedOperator? n).getD (renderedName n.note) = (scriptedOperator? n').getD (renderedName n'.note) := by
  by_cases hform : n.form = .script
  swap
  · rw [Typeset.scriptedOperator?_of_ne_script hform,
      Typeset.scriptedOperator?_of_ne_script (form_eq hhead ▸ hform), hnote]
  have hform' : n'.form = .script := form_eq hhead ▸ hform
  have hself := hc.head_eq
  have hparts : n.partRoles .soleName = [("e", .nameBase ((n.contentChild? "sub").isSome ||
      (n.contentChild? "sup").isSome)), ("sub", .part), ("sup", .part)] := by
    rw [partRoles, hform]
    rfl
  simp only [childRole, hform] at hc
  rw [scriptedOperator?_of_script hform, scriptedOperator?_of_script hform']
  cases hfirst : c.head.isFirst (before.map head) "e" with
  | false =>
    -- the base is as it was, and the scripts are written the same
    have hscript (tag : String) (hmem : (tag, Role.part) ∈ n.partRoles .soleName) :
        (n.contentChild? tag).map note = (n'.contentChild? tag).map note := by
      cases hscript : c.head.isFirst (before.map head) tag with
      | false => rw [contentChild?_of_not_isFirst hchildren hchildren' hself hscript]
      | true =>
        rw [partRole_of_isFirst hmem hscript] at hc
        exact map_note_of_isCounted (child?_of_isFirst hchildren hscript)
          (child?_of_isFirst hchildren' (hself ▸ hscript)) hc rfl
    rw [child?_of_not_isFirst hchildren hchildren' hself hfirst, hscript "sub" (by simp [hparts]),
      hscript "sup" (by simp [hparts]), hnote]
  | true =>
    have he := child?_of_isFirst hchildren hfirst
    have he' := child?_of_isFirst hchildren' (hself ▸ hfirst)
    have hother (tag : String) (hne : tag ≠ "e") : n.contentChild? tag = n'.contentChild? tag :=
      contentChild?_of_isTag_ne hchildren hchildren' hself (Head.isTag_of_isFirst hfirst) hne
    rw [partRole_of_isFirst (hparts ▸ List.mem_cons_self) hfirst] at hc
    rw [← hother "sub" (by decide), ← hother "sup" (by decide), he, he', Option.bind_some, Option.bind_some]
    cases hscripted : (n.contentChild? "sub").isSome || (n.contentChild? "sup").isSome with
    | true =>
      rw [hscripted] at hc
      rw [hc.scriptedBase_eq rfl, hnote]
    | false =>
      rw [hscripted] at hc
      obtain ⟨hsub, hsup⟩ := Bool.or_eq_false_iff.mp hscripted
      rw [Option.isSome_eq_false_iff, Option.isNone_iff_eq_none] at hsub hsup
      have hunscripted (name : String) : name ++ Typeset.scripts none none = name := by simp [Typeset.scripts]
      simp only [hsub, hsup, Option.map_none, hunscripted, Option.map_id']
      by_cases hnone : baseName? c = none ∧ baseName? c' = none
      · rw [hnone.1, hnone.2, hnote]
      · have hwritten : n.note = c.note := by
          rcases not_and_or.mp hnone with hname | hname
          · exact note_of_unscripted hform hlatex he hsub hsup hname
          · have hbase := note_of_unscripted hform' hlatex' he' (hother "sub" (by decide) ▸ hsub)
              (hother "sup" (by decide) ▸ hsup) hname
            rw [hnote, hbase, hc.note_eq Role.noConfusion]
        rw [← hnote, hwritten, hc.bareBase_eq rfl, hc.note_eq Role.noConfusion]

omit hchildren hchildren' in
/-- What is alone in a container is all that is written. -/
theorem latexOf_of_onlyContentChild? (hform : n.form = .generic) (h : n.onlyContentChild? = some c)
    (choice : ArrayEnvironment) (fence : Option Fence) : n.latexOf choice fence = c.note := by
  have hcontent : n.contentChildren = [c] := by
    unfold onlyContentChild? at h
    split at h
    · next hcontent =>
      cases h
      exact hcontent
    · cases h
  rw [latexOf, kind, hform]
  dsimp only
  rw [hcontent]
  exact Latex.joinFragments_singleton c.note

/-- The name of a function is the same, if a child of it is replaced. -/
theorem functionName_replace (hhead : n.head = n'.head) (hform : n.form = .generic) (hnote : n.note = n'.note)
    (hlatex : ∃ choice fence, n.note = n.latexOf choice fence)
    (hc : SeenAlike (n.childRole .name (before.map head) c.head) c c') : functionName n = functionName n' := by
  have hself := hc.head_eq
  have htext : n.plainText? = n'.plainText? :=
    plainText?_eq (head_eq_of_replaced hself) (forall₂_replaced hchildren hchildren') hhead
  unfold functionName
  rw [plainName?, plainName?, htext]
  split
  · rfl
  rw [Typeset.scriptedName?_eq_bind, Typeset.scriptedName?_eq_bind]
  rcases onlyContentChild?_replace hchildren hchildren' hself with hsame | ⟨honly, honly'⟩
  · rw [hsame, hnote]
  · have hproperty : c.head.isProperty = false :=
      (Bool.not_eq_true' _).mp (List.mem_filter.mp (mem_contentChildren_of_onlyContentChild? honly)).2
    simp only [childRole, hform, hproperty, honly] at hc
    obtain ⟨choice, fence, hlatex⟩ := hlatex
    have hwritten : n.note = c.note := hlatex.trans (latexOf_of_onlyContentChild? hform honly choice fence)
    have hseen := hc.scriptedOperator_eq rfl
    rw [← hc.note_eq Role.noConfusion, ← hwritten] at hseen
    rw [honly, honly', Option.bind_some, Option.bind_some, ← hnote]
    exact hseen

/-- The array that brings a fence is written the same, if a child is replaced. -/
theorem absorbed_replace {fence : Fence} (hform : n.form = .generic) (hrole : role ≠ .name)
    (hc : SeenAlike (n.childRole role (before.map head) c.head) c c') :
    (n.onlyContentChild?.filter (absorbs fence)).map note =
      (n'.onlyContentChild?.filter (absorbs fence)).map note := by
  have hself := hc.head_eq
  rcases onlyContentChild?_replace hchildren hchildren' hself with hsame | ⟨honly, honly'⟩
  · rw [hsame]
  · have hproperty : c.head.isProperty = false :=
      (Bool.not_eq_true' _).mp (List.mem_filter.mp (mem_contentChildren_of_onlyContentChild? honly)).2
    simp only [childRole, hform, hproperty, hrole] at hc
    rw [honly, honly', Option.filter_some, Option.filter_some, absorbs_eq hself]
    split
    · exact congrArg some (hc.note_eq Role.noConfusion)
    · rfl

/-- A node that is set is seen alike if a child of it is replaced by one that is seen alike. -/
theorem seenAlike_replace (hhead : n.head = n'.head) (hroot : role ≠ .root)
    (hname : role = .name → n.form = .generic) (hsegment : ∀ fence, role = .segment fence → n.form = .generic)
    {choice : ArrayEnvironment} {fence : Option Fence} (hlatex : n.note = n.latexOf choice fence)
    (hlatex' : n'.note = n'.latexOf choice fence) (hc : SeenAlike (role.inside n (before.map head) c.head) c c') :
    SeenAlike role n n' := by
  by_cases hhidden : role = .hidden
  · subst hhidden
    exact .of_hidden hhead
  have hc : SeenAlike (n.childRole role (before.map head) c.head) c c' := by
    cases role with
    | root => exact absurd rfl hroot
    | hidden => exact absurd rfl hhidden
    | _ => exact hc
  have hnote : n.note = n'.note := by
    rw [hlatex, hlatex', latexOf_replace hchildren hchildren' hhead hc]
  have hself := hc.head_eq
  have hrel := forall₂_replaced hchildren hchildren'
  have hcontent : n.hasContent = n'.hasContent := Node.hasContent_eq (head_eq_of_replaced hself) hrel
  have htext : n.plainText? = n'.plainText? := plainText?_eq (head_eq_of_replaced hself) hrel hhead
  have hbase : baseName? n = baseName? n' := by
    rw [baseName?, baseName?, hcontent, plainName?, plainName?, htext]
  exact {
    head_eq := hhead
    note_eq := fun _ => hnote
    hasContent_eq := fun _ => hcontent
    hasContent_or := fun _ _ _ _ => .inl hcontent
    cells_eq := fun _ hform => by
      simp only [childRole, hform] at hc
      refine map_filter_replace hchildren hchildren' _ note (isTag_eq hc.head_eq "e") fun he => ?_
      rw [if_pos (show c.head.isTag "e" = true from he)] at hc
      exact hc.note_eq Role.noConfusion
    functionName_eq := by
      rintro rfl
      exact functionName_replace hchildren hchildren' hhead (hname rfl) hnote ⟨choice, fence, hlatex⟩ hc
    scriptedOperator_eq := by
      rintro rfl
      exact scriptedOperator_replace hchildren hchildren' hhead hnote ⟨choice, fence, hlatex⟩
        ⟨choice, fence, hlatex'⟩ hc
    scriptedBase_eq := fun _ => hbase
    bareBase_eq := fun _ => by rw [hbase, hnote]
    command_eq := fun _ => by rw [htext]
    isFencedArgument_eq := fun _ => by
      unfold isFencedArgument
      rcases onlyContentChild?_replace hchildren hchildren' hself with hsame | ⟨honly, honly'⟩
      · rw [hsame]
      · rw [honly, honly', Option.any_some, Option.any_some, form_eq hself]
    absorbed_eq := by
      rintro own rfl
      exact absorbed_replace hchildren hchildren' (hsegment own rfl) Role.noConfusion hc }

end Replacement

end Node

end OfficeMath
