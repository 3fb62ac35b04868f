import OfficeMath.Proofs.Typeset.Role

/-! Nodes that are seen alike. What is looked at in a node from around it depends on its role. Of the parts of a
    construct some must be written the same, some may be missing where the other node has an empty one, and some are not
    shown. -/

namespace OfficeMath

namespace Typeset

/-- The operator that a node spells as a script on a plain name. -/
def scriptedOperator? (n : Node String) : Option String :=
  match n.kind with
  | .script base sub sup =>
    (base.bind plainName?).map fun name => name ++ scripts (sub.map Node.note) (sup.map Node.note)
  | _ => none

theorem scriptedName?_eq_bind (n : Node String) : scriptedName? n = n.onlyContentChild?.bind scriptedOperator? := by
  unfold scriptedName?
  congr 1
  funext c
  unfold scriptedOperator?
  cases c.kind with
  | script base sub sup => cases base <;> rfl
  | _ => rfl

theorem scriptedOperator?_of_ne_script {n : Node String} (hform : n.form ≠ .script) : scriptedOperator? n = none := by
  unfold scriptedOperator? Node.kind
  cases h : n.form with
  | script => exact absurd h hform
  | _ => rfl

/-- The name that is typed in the base of a script. A base without content is none. -/
def baseName? (n : Node String) : Option String := if n.hasContent then plainName? n else none

end Typeset

open Typeset (scriptedOperator? scriptedName? baseName? plainName? functionName renderedName isFencedArgument)

/-- It is looked at whether a node with the role has content. -/
def Role.isCounted : Role → Bool
  | part | name | limitBase | argument => true
  | _ => false

namespace Node

/-- What is looked at in a node with the role is the same in both nodes. -/
structure SeenAlike (role : Role) (n n' : Node String) : Prop where
  head_eq : n.head = n'.head
  note_eq : role ≠ .hidden → n.note = n'.note
  hasContent_eq : role.isCounted = true → n.hasContent = n'.hasContent
  hasContent_or : role ≠ .hidden → ∀ tag ∈ containerTags, n.isTag tag = true →
    n.hasContent = n'.hasContent ∨ n.note = ""
  cells_eq : role ≠ .hidden → n.form = .matrixRow → (n.childrenTagged "e").map note = (n'.childrenTagged "e").map note
  functionName_eq : role = .name → functionName n = functionName n'
  scriptedOperator_eq : role = .soleName →
    (scriptedOperator? n).getD (renderedName n.note) = (scriptedOperator? n').getD (renderedName n'.note)
  scriptedBase_eq : role = .nameBase true → baseName? n = baseName? n'
  bareBase_eq : role = .nameBase false →
    (baseName? n).getD (renderedName n.note) = (baseName? n').getD (renderedName n'.note)
  command_eq : role = .limitBase →
    n.plainText?.bind Latex.functionCommand? = n'.plainText?.bind Latex.functionCommand?
  isFencedArgument_eq : role = .argument → isFencedArgument n = isFencedArgument n'
  absorbed_eq : ∀ fence, role = .segment fence →
    (n.onlyContentChild?.filter (absorbs fence)).map note = (n'.onlyContentChild?.filter (absorbs fence)).map note

theorem SeenAlike.of_hidden {n n' : Node String} (hhead : n.head = n'.head) : SeenAlike .hidden n n' where
  head_eq := hhead
  note_eq h := absurd rfl h
  hasContent_eq h := nomatch h
  hasContent_or h := absurd rfl h
  cells_eq h := absurd rfl h
  functionName_eq h := nomatch h
  scriptedOperator_eq h := nomatch h
  scriptedBase_eq h := nomatch h
  bareBase_eq h := nomatch h
  command_eq h := nomatch h
  isFencedArgument_eq h := nomatch h
  absorbed_eq _ h := nomatch h

theorem SeenAlike.refl (role : Role) (n : Node String) : SeenAlike role n n := by
  constructor <;> simp

/-! ### The parts of a construct -/

section Parts

variable {role : Role} {n n' c c' : Node String} {before after : List (Node String)} {tag : String}

/-- A construct has one part of each tag. -/
theorem nodup_partRoles (role : Role) (has : String → Bool) (form : Form) :
    ((form.partRoles role has).map Prod.fst).Nodup := by
  cases form <;> simp [Form.partRoles]

/-- The parts of a construct are in containers. -/
theorem mem_containerTags_of_partRoles {role : Role} {has : String → Bool} {form : Form} {part : String × Role}
    (h : part ∈ form.partRoles role has) : part.1 ∈ containerTags := by
  have hall : ∀ part ∈ form.partRoles role has, part.1 ∈ containerTags := by
    cases form <;> simp [Form.partRoles, containerTags]
  exact hall part h

theorem partRole_of_isFirst {part : String × Role} (hmem : part ∈ n.partRoles role)
    (hfirst : c.head.isFirst (before.map head) part.1 = true) : n.partRole role (before.map head) c.head = part.2 := by
  obtain ⟨found, hfound⟩ := Option.isSome_iff_exists.mp
    (List.find?_isSome (p := fun part => c.head.isFirst (before.map head) part.1).mpr ⟨part, hmem, hfirst⟩)
  have hfirst' : c.head.isFirst (before.map head) found.1 = true :=
    List.find?_some (p := fun part : String × Role => c.head.isFirst (before.map head) part.1) hfound
  have htag : found.1 = part.1 :=
    Head.eq_of_isTag (Head.isTag_of_isFirst hfirst') (Head.isTag_of_isFirst hfirst)
  have heq : found = part :=
    List.inj_on_of_nodup_map (nodup_partRoles role _ n.form) (List.mem_of_find?_eq_some hfound) hmem htag
  rw [partRole, hfound, heq]
  rfl

/-- A part of which it is looked at whether it has content is there in both nodes or in none. -/
theorem map_note_of_isCounted (hc : n.child? tag = some c) (hc' : n'.child? tag = some c') (h : SeenAlike role c c')
    (hrole : role.isCounted = true) : (n.contentChild? tag).map note = (n'.contentChild? tag).map note := by
  have hhidden : role ≠ .hidden := by
    rintro rfl
    cases hrole
  rw [contentChild?_of_child? hc, contentChild?_of_child? hc', h.hasContent_eq hrole]
  split
  · exact congrArg some (h.note_eq hhidden)
  · rfl

/-- A part without which the construct is written as with an empty one may be there in one of the two only. -/
theorem apply_note_of_ne_hidden (f : Option String → String) (hf : f (some "") = f none)
    (hc : n.child? tag = some c) (hc' : n'.child? tag = some c') (h : SeenAlike role c c') (hrole : role ≠ .hidden)
    (htag : c.isTag tag = true) (hcontainer : tag ∈ containerTags) :
    f ((n.contentChild? tag).map note) = f ((n'.contentChild? tag).map note) := by
  have hnote := h.note_eq hrole
  rw [contentChild?_of_child? hc, contentChild?_of_child? hc']
  rcases h.hasContent_or hrole tag hcontainer htag with hcontent | hempty
  · rw [hcontent]
    split
    · exact congrArg (fun note => f (some note)) hnote
    · rfl
  · have hwritten (c : Node String) (hc : c.note = "") :
        f ((if c.hasContent = true then some c else none).map note) = f none := by
      split
      · rw [Option.map_some, hc, hf]
      · rfl
    rw [hwritten c hempty, hwritten c' (hnote ▸ hempty)]

variable (hchildren : n.children = before ++ c :: after) (hchildren' : n'.children = before ++ c' :: after)

include hchildren

theorem child?_of_isFirst (hfirst : c.head.isFirst (before.map head) tag = true) : n.child? tag = some c := by
  obtain ⟨hc, hbefore⟩ := Bool.and_eq_true_iff.mp hfirst
  rw [List.any_map, Bool.not_eq_true', List.any_eq_false] at hbefore
  refine List.find?_eq_some_iff_append.mpr ⟨hc, before, after, hchildren, fun x hx => ?_⟩
  exact Bool.not_eq_true' _ ▸ Bool.eq_false_iff.mpr (hbefore x hx)

include hchildren'

/-- A child that is not the first with the tag is no part by it. -/
theorem child?_of_not_isFirst (hhead : c.head = c'.head) (hfirst : c.head.isFirst (before.map head) tag = false) :
    n.child? tag = n'.child? tag := by
  unfold child?
  rw [hchildren, hchildren', List.find?_append, List.find?_append]
  cases hc : c.isTag tag with
  | false =>
    rw [List.find?_cons_of_neg (by rw [hc]; exact Bool.false_ne_true),
      List.find?_cons_of_neg (by rw [← isTag_eq hhead, hc]; exact Bool.false_ne_true)]
  | true =>
    have hbefore : (before.map head).any (·.isTag tag) = true := by
      have htag : c.head.isTag tag = true := hc
      simpa [Head.isFirst, htag] using hfirst
    rw [List.any_map, List.any_eq_true] at hbefore
    obtain ⟨y, hy⟩ := Option.isSome_iff_exists.mp (List.find?_isSome.mpr hbefore)
    have hy : before.find? (·.isTag tag) = some y := hy
    rw [hy, Option.some_or, Option.some_or]

theorem contentChild?_of_not_isFirst (hhead : c.head = c'.head)
    (hfirst : c.head.isFirst (before.map head) tag = false) : n.contentChild? tag = n'.contentChild? tag :=
  congrArg (Option.filter hasContent) (child?_of_not_isFirst hchildren hchildren' hhead hfirst)

/-- A child with a tag is no part by another one. -/
theorem contentChild?_of_isTag_ne {other : String} (hhead : c.head = c'.head) (htag : c.isTag tag = true)
    (hne : other ≠ tag) : n.contentChild? other = n'.contentChild? other :=
  contentChild?_of_not_isFirst hchildren hchildren' hhead
    (Bool.eq_false_iff.mpr fun hfirst => hne (Head.eq_of_isTag (Head.isTag_of_isFirst hfirst) htag))

end Parts

end Node

/-! ### The LaTeX of a construct -/

/-- At most one of the parts that a construct has one each of is written differently, and that is not seen. -/
inductive NotesAlike (parts : List (String × Role)) (notes₁ notes₂ : String → Option String) : Prop
  | same (h : ∀ part ∈ parts, notes₁ part.1 = notes₂ part.1)
  | empty {tag : String} {role : Role} (hmem : (tag, role) ∈ parts) (hhidden : role ≠ .hidden)
      (hcounted : role.isCounted = false)
      (h : ∀ f : Option String → String, f (some "") = f none → f (notes₁ tag) = f (notes₂ tag))
      (hothers : ∀ other, other ≠ tag → notes₁ other = notes₂ other)
  | hidden {tag : String} (hmem : (tag, .hidden) ∈ parts)
      (hothers : ∀ other, other ≠ tag → notes₁ other = notes₂ other)

namespace NotesAlike

variable {role : Role} {notes₁ notes₂ : String → Option String}

variable (style : FractionStyle) (hideDegree : Bool) (operator : LargeOperator) (upper : Bool)

theorem fraction_eq
    (h : NotesAlike ((Form.fraction style).partRoles role fun tag => (notes₁ tag).isSome) notes₁ notes₂) :
    Typeset.fraction style (notes₁ "num") (notes₁ "den") =
      Typeset.fraction style (notes₂ "num") (notes₂ "den") := by
  cases h with
  | same h =>
    simp only [Form.partRoles, List.forall_mem_cons] at h
    rw [h.1, h.2.1]
  | empty hmem hhidden hcounted =>
    -- no part of a fraction is written like an empty one when it is missing
    simp only [Form.partRoles] at hmem
    grind [Role.isCounted]
  | hidden hmem hothers =>
    simp [Form.partRoles] at hmem
    obtain ⟨rfl, hden⟩ | ⟨rfl, hnum⟩ := hmem
    · have hden' := hothers "den" (by decide)
      rw [hden] at hden' ⊢
      rw [← hden']
      cases notes₁ "num" <;> cases notes₂ "num" <;> rfl
    · have hnum' := hothers "num" (by decide)
      rw [hnum] at hnum' ⊢
      rw [← hnum']
      rfl

theorem radical_eq
    (h : NotesAlike ((Form.radical hideDegree).partRoles role fun tag => (notes₁ tag).isSome) notes₁ notes₂) :
    Typeset.radical hideDegree (notes₁ "e") (notes₁ "deg") =
      Typeset.radical hideDegree (notes₂ "e") (notes₂ "deg") := by
  cases h with
  | same h =>
    simp only [Form.partRoles, List.forall_mem_cons] at h
    rw [h.1, h.2.1]
  | @empty tag role hmem hhidden hcounted h hothers =>
    obtain rfl : tag = "deg" := by
      simp only [Form.partRoles] at hmem
      grind [Role.isCounted]
    rw [← hothers "e" (by decide)]
    refine h (Typeset.radical hideDegree (notes₁ "e")) ?_
    cases hideDegree <;> rfl
  | hidden hmem hothers =>
    simp [Form.partRoles] at hmem
    obtain ⟨rfl, hdegree⟩ := hmem
    rw [← hothers "e" (by decide)]
    cases hideDegree with
    | true => rfl
    | false =>
      rw [hdegree rfl]
      rfl

theorem script_eq (h : NotesAlike (Form.script.partRoles role fun tag => (notes₁ tag).isSome) notes₁ notes₂) :
    Typeset.script (notes₁ "e") (notes₁ "sub") (notes₁ "sup") =
      Typeset.script (notes₂ "e") (notes₂ "sub") (notes₂ "sup") := by
  cases h with
  | same h =>
    simp only [Form.partRoles, List.forall_mem_cons] at h
    rw [h.1, h.2.1, h.2.2.1]
  | @empty tag role hmem hhidden hcounted h hothers =>
    obtain rfl : tag = "e" := by
      simp only [Form.partRoles] at hmem
      grind [Role.isCounted]
    rw [← hothers "sub" (by decide), ← hothers "sup" (by decide)]
    exact h (fun base => Typeset.script base (notes₁ "sub") (notes₁ "sup")) rfl
  | hidden hmem hothers =>
    simp only [Form.partRoles] at hmem
    grind

theorem preScript_eq (h : NotesAlike (Form.preScript.partRoles role fun tag => (notes₁ tag).isSome) notes₁ notes₂) :
    Typeset.preScript (notes₁ "e") (notes₁ "sub") (notes₁ "sup") =
      Typeset.preScript (notes₂ "e") (notes₂ "sub") (notes₂ "sup") := by
  cases h with
  | same h =>
    simp only [Form.partRoles, List.forall_mem_cons] at h
    rw [h.1, h.2.1, h.2.2.1]
  | @empty tag role hmem hhidden hcounted h hothers =>
    obtain ⟨rfl, hsub, hsup⟩ : tag = "e" ∧ notes₁ "sub" = none ∧ notes₁ "sup" = none := by
      simp only [Form.partRoles] at hmem
      grind [Role.isCounted, Option.isSome_iff_ne_none]
    rw [← hothers "sub" (by decide), ← hothers "sup" (by decide), hsub, hsup]
    exact h (fun base => Typeset.preScript base none none) rfl
  | hidden hmem hothers =>
    simp only [Form.partRoles] at hmem
    grind

theorem nary_eq (h : NotesAlike ((Form.nary operator).partRoles role fun tag => (notes₁ tag).isSome) notes₁ notes₂) :
    Typeset.nary operator (notes₁ "sub") (notes₁ "sup") (notes₁ "e") =
      Typeset.nary operator (notes₂ "sub") (notes₂ "sup") (notes₂ "e") := by
  cases h with
  | same h =>
    simp only [Form.partRoles, List.forall_mem_cons] at h
    rw [h.1, h.2.1, h.2.2.1]
  | empty hmem hhidden hcounted =>
    simp only [Form.partRoles] at hmem
    grind [Role.isCounted]
  | hidden hmem hothers =>
    simp [Form.partRoles] at hmem
    obtain ⟨rfl, hsub⟩ | ⟨rfl, hsup⟩ := hmem
    · rw [← hothers "sup" (by decide), ← hothers "e" (by decide)]
      cases hhide : operator.hideSub with
      | true => simp only [Typeset.nary, hhide, if_true]
      | false =>
        rw [hsub hhide]
        rfl
    · rw [← hothers "sub" (by decide), ← hothers "e" (by decide)]
      cases hhide : operator.hideSup with
      | true => simp only [Typeset.nary, hhide, if_true]
      | false =>
        rw [hsup hhide]
        rfl

/-- What is written for the base of a limit is looked at only if there is a limit. -/
theorem limit_eq {command command' : Option String} (hcommand : (notes₁ "lim").isSome = true → command = command')
    (h : NotesAlike ((Form.limit upper).partRoles role fun tag => (notes₁ tag).isSome) notes₁ notes₂) :
    Typeset.limit upper command (notes₁ "e") (notes₁ "lim") =
      Typeset.limit upper command' (notes₂ "e") (notes₂ "lim") := by
  have hbase (command command' base : Option String) :
      Typeset.limit upper command base none = Typeset.limit upper command' base none := by
    cases base <;> rfl
  cases h with
  | same h =>
    simp only [Form.partRoles, List.forall_mem_cons] at h
    rw [← h.1, ← h.2.1]
    cases hlim : notes₁ "lim" with
    | none => exact hbase _ _ _
    | some lim => rw [hcommand (by rw [hlim]; rfl)]
  | @empty tag role hmem hhidden hcounted h hothers =>
    obtain ⟨rfl, hlim⟩ | ⟨rfl, rfl, he⟩ :
        tag = "e" ∧ notes₁ "lim" = none ∨ tag = "lim" ∧ upper = false ∧ notes₁ "e" = none := by
      simp only [Form.partRoles] at hmem
      grind [Role.isCounted, Option.isSome_iff_ne_none]
    · rw [← hothers "lim" (by decide), hlim, hbase command command']
      exact h (fun base => Typeset.limit upper command' base none) rfl
    · have hmark (limit : Option String) :
          Typeset.limit false command none limit = Typeset.limit false command' none limit := by
        cases limit <;> rfl
      rw [← hothers "e" (by decide), he, ← hmark]
      exact h (Typeset.limit false command none) rfl
  | hidden hmem hothers =>
    simp only [Form.partRoles] at hmem
    grind

/-- A construct with nothing but a base. -/
theorem base_eq (h : NotesAlike [("e", .part)] notes₁ notes₂) : notes₁ "e" = notes₂ "e" := by
  cases h with
  | same h => exact h _ List.mem_cons_self
  | empty hmem hhidden hcounted =>
    obtain ⟨rfl, rfl⟩ := Prod.mk.inj (List.mem_singleton.mp hmem)
    cases hcounted
  | hidden hmem hothers => cases (Prod.mk.inj (List.mem_singleton.mp hmem)).2

end NotesAlike

end OfficeMath
