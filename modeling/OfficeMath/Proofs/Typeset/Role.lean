import OfficeMath.Convert
import OfficeMath.Proofs.Equation.Annotation
import OfficeMath.Proofs.Typeset.Lookup

/-! What is looked at in a node. More than the LaTeX of a node may matter to the nodes around it: whether it has
    content, which operator it spells, whether something stands alone in it. What this is depends on the construct around
    it and on the other parts of that, and where the construct does not show the node at all it is nothing. -/

namespace OfficeMath

open Typeset (functionName renderedName plainName? isFencedArgument segmentSeparator)

/-- What the nodes around look at in a node, each time with its LaTeX. -/
inductive Role where
  /-- The node only holds the roots of an equation and is no node of it itself. -/
  | root
  /-- Not even the LaTeX is looked at: the node is no part of the construct around it, or one that is not shown. -/
  | hidden
  /-- Nothing else is looked at. -/
  | plain
  /-- Whether the node has content; without content it is no part of the construct. -/
  | part
  /-- The node is the name of a function: whether it has content, and which operator it names. -/
  | name
  /-- The node is alone in the name of a function: which operator it spells, if it is a script on a typed name. -/
  | soleName
  /-- The node is the base of a script that is alone in the name of a function: the name that is typed in it. With it
      stands if the script has anything below or above the base. -/
  | nameBase (scripted : Bool)
  /-- The node is what a limit stands at: whether it has content, and the function whose name is typed in it. -/
  | limitBase
  /-- The node is the argument of a function that sets it in parentheses: whether it has content, and whether this is
      one delimiter. -/
  | argument
  /-- The node is an `e` that is all the content of a delimiter: the array that is alone in it and brings the fence. -/
  | segment (fence : Fence)
  deriving DecidableEq, Repr

/-- The roles of the parts of which a construct has one each, in a node with a role of its own. A part is hidden if the
    construct does not show it, for it is told so or misses another part; and whether it has content is not looked at
    if the construct is written the same without it and with an empty one. -/
def Form.partRoles (role : Role) (has : String → Bool) : Form → List (String × Role)
  | fraction _ => [("num", if has "den" then .part else .hidden), ("den", if has "num" then .part else .hidden)]
  | radical hideDegree => [("e", .part), ("deg", if hideDegree || !has "e" then .hidden else .plain)]
  | script =>
    [("e", if role = .soleName then .nameBase (has "sub" || has "sup") else .plain), ("sub", .part), ("sup", .part)]
  | preScript => [("e", if has "sub" || has "sup" then .part else .plain), ("sub", .part), ("sup", .part)]
  | function => [("fName", .name)]
  | nary operator =>
    [("sub", if operator.hideSub || !has "e" then .hidden else .part),
      ("sup", if operator.hideSup || !has "e" then .hidden else .part), ("e", .part)]
  | limit upper =>
    [("e", if has "lim" then .limitBase else .plain), ("lim", if upper || has "e" then .part else .plain)]
  | accent _ | bar _ | box _ | groupCharacter _ _ | phantom _ => [("e", .part)]
  | generic | run _ | delimiter _ | matrix | matrixRow | equationArray => []

/-- The node is the first one with the tag. -/
def Head.isFirst (before : List Head) (c : Head) (tag : String) : Bool := c.isTag tag && !before.any (·.isTag tag)

theorem Head.isTag_of_isFirst {before : List Head} {c : Head} {tag : String} (h : c.isFirst before tag = true) :
    c.isTag tag = true :=
  (Bool.and_eq_true_iff.mp h).1

namespace Node

/-- The function sets its only argument in parentheses, unless that has fences of its own. -/
def parenthesizes (n : Node String) : Bool :=
  match n.kind with
  | .function (some name) [_] => functionName name != "\\lim" && !(functionName name).toList.contains '_'
  | _ => false

/-- The parts of which the node has one each, with their roles. -/
def partRoles (role : Role) (n : Node String) : List (String × Role) :=
  n.form.partRoles role fun tag => (n.contentChild? tag).isSome

/-- The role of a child after others as a part: that of the first one with the tag of the part. -/
def partRole (role : Role) (n : Node String) (before : List Head) (c : Head) : Role :=
  ((n.partRoles role).find? fun part => c.isFirst before part.1).elim .hidden Prod.snd

/-- The role of a child after others in a node that is seen. -/
def childRole (role : Role) (n : Node String) (before : List Head) (c : Head) : Role :=
  match n.form with
  | .generic =>
    if c.isProperty then .hidden
    else if role = .name && n.onlyContentChild?.isSome then .soleName
    else .plain
  | .delimiter fence =>
    if c.isProperty || c.isTag "sep" then .hidden
    else if c.isTag "e" && n.soleContent?.isSome then .segment fence
    else .plain
  | .function =>
    if c.isTag "e" then if n.parenthesizes then .argument else .part
    else n.partRole role before c
  | .matrix => if c.isTag "mr" then .plain else .hidden
  | .matrixRow => if c.isTag "e" then .plain else .hidden
  | .equationArray => if c.isTag "e" then .part else .hidden
  | _ => n.partRole role before c

end Node

namespace Role

/-- The role of a child after others of a node with a role of its own. -/
def inside (role : Role) (n : Node String) (before : List Head) (c : Head) : Role :=
  match role with
  | .root => .plain
  | .hidden => .hidden
  | role => n.childRole role before c

/-- What is looked at in a node with the role is the same with an annotation put in: what must have content has some
    without it; the operator that is spelled is the one that the LaTeX names; no function is named by the base of a
    limit; and what stands alone in it makes no difference by it. -/
def admits (role : Role) (n : Node String) : Bool :=
  match role with
  | .root | .hidden | .plain | .soleName => true
  | .part => n.hasContent
  | .name => n.hasContent && functionName n == renderedName n.note
  | .nameBase scripted => (plainName? n).all fun name => !scripted && name == renderedName n.note
  | .limitBase => n.hasContent && (n.plainText?.bind Latex.functionCommand?).isNone
  | .argument => n.hasContent && !isFencedArgument n
  | .segment fence => n.onlyContentChild?.all fun c => !c.absorbs fence

end Role

/-- One more segment between the others is not seen in a delimiter: it leaves its fence to no array, and the segment
    that the place would make up by itself does not come with a separator. -/
def Node.admitsSegment (n : Node String) (before after : List Head) : Bool :=
  match n.form with
  | .delimiter fence => (n.absorbedContent? fence).isNone &&
      (IsBeside before after || n.segments.isEmpty || segmentSeparator fence.separator == "")
  | _ => true

/-- An annotation between the children before it and those after it is not seen in a node with the role. -/
def Role.Admits (role : Role) (n : Node String) (before after : List Head) : Prop :=
  role = .hidden ∨ role.admits n = true ∧ n.admitsSegment before after = true

instance (role : Role) (n : Node String) (before after : List Head) : Decidable (role.Admits n before after) :=
  inferInstanceAs (Decidable (_ ∨ _))

/-! ### Roles that fit -/

/-- No part of a construct is looked at like the roots or like an `e` in a delimiter, and only the name like a name. -/
theorem Form.role_of_mem_partRoles {role : Role} {has : String → Bool} {form : Form} {part : String × Role}
    (h : part ∈ form.partRoles role has) :
    part.2 ≠ .root ∧ (part.2 = .name → part.1 = "fName") ∧ ∀ fence, part.2 ≠ .segment fence := by
  have hall : ∀ part ∈ form.partRoles role has,
      part.2 ≠ .root ∧ (part.2 = .name → part.1 = "fName") ∧ ∀ fence, part.2 ≠ .segment fence := by
    cases form <;> simp [Form.partRoles] <;> grind
  exact hall part h

namespace Node

variable (role : Role) (n : Node String) (before : List Head) (c : Head)

theorem partRole_cases : n.partRole role before c = .hidden ∨
    ∃ part ∈ n.partRoles role, c.isTag part.1 = true ∧ n.partRole role before c = part.2 := by
  unfold partRole
  cases hpart : (n.partRoles role).find? fun part => c.isFirst before part.1 with
  | none => exact .inl rfl
  | some part =>
    have hfirst : c.isFirst before part.1 = true :=
      List.find?_some (p := fun part : String × Role => c.isFirst before part.1) hpart
    exact .inr ⟨part, List.mem_of_find?_eq_some hpart, Head.isTag_of_isFirst hfirst, rfl⟩

theorem role_of_partRole : n.partRole role before c ≠ .root ∧
    (n.partRole role before c = .name → c.isTag "fName" = true) ∧
      ∀ fence, n.partRole role before c ≠ .segment fence := by
  rcases partRole_cases role n before c with hrole | ⟨part, hmem, htag, hrole⟩
  · rw [hrole]
    exact ⟨Role.noConfusion, Role.noConfusion, fun _ => Role.noConfusion⟩
  · obtain ⟨hroot, hname, hsegment⟩ := Form.role_of_mem_partRoles hmem
    rw [hrole]
    exact ⟨hroot, fun h => hname h ▸ htag, hsegment⟩

theorem role_of_childRole : n.childRole role before c ≠ .root ∧
    (n.childRole role before c = .name → c.isTag "fName" = true) ∧
      ∀ fence, n.childRole role before c = .segment fence → c.isTag "e" = true := by
  have hpart := role_of_partRole role n before c
  unfold childRole
  split <;> grind

end Node

namespace Role

/-- The role is one that the node can have inside the enclosure. -/
structure Fits {α : Type} (role : Role) (enclosure : Enclosure α) (n : Node α) : Prop where
  ne_root : role ≠ .root
  isTag_of_name : role = .name → n.isTag "fName" = true
  isTag_of_segment : ∀ fence, role = .segment fence → n.isTag "e" = true
  eq_segment : ∀ d, enclosure = .direct d → n.isTag "e" = true → role ≠ .hidden →
    ∃ fence, d.form = .delimiter fence ∧ role = .segment fence

variable {α : Type} {role : Role} {enclosure : Enclosure α} {choice : ArrayEnvironment} {n c : Node α}
  {before : List Head}

/-- A child has a role inside its parent that it can have inside what the parent makes. -/
theorem Fits.inside (h : role.Fits enclosure n) :
    (role.inside (n.typeset choice enclosure) before c.head).Fits (enclosure.inside n) c := by
  by_cases hhidden : role = .hidden
  · subst hhidden
    exact ⟨Role.noConfusion, Role.noConfusion, fun _ => Role.noConfusion, fun _ _ _ h => absurd rfl h⟩
  have hinside : role.inside (n.typeset choice enclosure) before c.head =
      (n.typeset choice enclosure).childRole role before c.head := by
    cases role with
    | root => exact absurd rfl h.ne_root
    | hidden => exact absurd rfl hhidden
    | _ => rfl
  rw [hinside]
  obtain ⟨hroot, hname, hsegment⟩ :=
    Node.role_of_childRole role (n.typeset choice enclosure) before c.head
  refine ⟨hroot, hname, hsegment, fun d hd he hrole => ?_⟩
  cases hdelimiter : n.form.isDelimiter with
  | false =>
    rw [Enclosure.inside_of_not_isDelimiter hdelimiter] at hd
    split at hd
    · split at hd <;> cases hd
    · cases hd
  | true =>
    obtain ⟨fence, hform⟩ := Form.exists_fence_of_isDelimiter hdelimiter
    rw [Enclosure.inside_of_isDelimiter hdelimiter] at hd
    split at hd
    · next hsole =>
      cases hd
      have hsole' : (n.typeset choice enclosure).soleContent?.isSome = true := by
        rw [Node.soleContent?_of_children (Node.children_typeset enclosure n), Option.isSome_map]
        exact hsole
      have hproperty : c.head.isProperty = false := Node.isProperty_of_isTag (n := c) (by decide) he
      have hmark : c.head.isTag "sep" = false := Node.isMark_of_isTag he (by decide)
      refine ⟨fence, hform, ?_⟩
      have hform : (n.typeset choice enclosure).form = .delimiter fence :=
        (Node.form_eq (Node.head_typeset enclosure n)).trans hform
      have he : c.head.isTag "e" = true := he
      simp only [Node.childRole, hform, hproperty, hmark, he, hsole']
      rfl
    · cases hd

end Role

end OfficeMath
