import OfficeMath.Proofs.Equation.Bare
import OfficeMath.Proofs.Typeset.Locality

/-! The LaTeX of an equation does not depend on the elements of properties below its roots: they can be taken from the
    trees before they are set or after, and the LaTeX of a node is the same with them and without them. -/

namespace OfficeMath

namespace Enclosure

variable {α : Type}

/-- The enclosure by the delimiter without elements of properties. -/
def bare : Enclosure α → Enclosure α
  | none => none
  | direct d => direct d.bare
  | throughContainer d => throughContainer d.bare

theorem fence?_bare (e : Enclosure α) : e.bare.fence? = e.fence? := by
  cases e with
  | none => rfl
  | direct d => simp [bare, fence?, delimiter?]
  | throughContainer d => simp [bare, fence?, delimiter?]

theorem inside_bare (e : Enclosure α) (n : Node α) : e.bare.inside n.bare = (e.inside n).bare := by
  unfold inside
  rw [Node.form_bare, Node.soleContent?_bare, Option.isSome_map]
  cases n.form <;> cases e <;> simp only [bare, Node.isTag_bare, Node.onlyContentChild?_bare, Option.isSome_map] <;>
    split <;> rfl

end Enclosure

namespace Typeset

variable (n : Node String)

theorem plainName?_bare : plainName? n.bare = plainName? n := by
  rw [plainName?, Node.plainText?_bare, plainName?]

theorem scriptedName?_bare : scriptedName? n.bare = scriptedName? n := by
  unfold scriptedName?
  rw [Node.onlyContentChild?_bare]
  cases n.onlyContentChild? with
  | none => rfl
  | some c =>
    rw [Option.map_some, Option.bind_some, Option.bind_some, Node.kind_bare]
    cases c.kind with
    | script base sub sup => cases base <;> simp [Kind.map, plainName?_bare]
    | _ => rfl

theorem functionName_bare : functionName n.bare = functionName n := by
  rw [functionName, plainName?_bare, scriptedName?_bare, Node.note_bare, functionName]

theorem isFencedArgument_bare : isFencedArgument n.bare = isFencedArgument n := by
  unfold isFencedArgument
  rw [Node.onlyContentChild?_bare, Option.any_map]
  simp

theorem application_bare (name : String) (arguments : List (Node String)) :
    application name (arguments.map Node.bare) = application name arguments := by
  unfold application
  rcases arguments with _ | ⟨argument, _ | ⟨argument', arguments⟩⟩
  · rfl
  · simp [isFencedArgument_bare]
  · simp

theorem function_bare (name : Option (Node String)) (arguments : List (Node String)) :
    function (name.map Node.bare) (arguments.map Node.bare) = function name arguments := by
  cases name with
  | none => simp [function]
  | some name => simp [function, functionName_bare, application_bare]

end Typeset

namespace Node

theorem cellsOf_bare (rows : List (Node String)) : cellsOf (rows.map bare) = cellsOf rows := by
  unfold cellsOf
  rw [List.map_map]
  refine List.map_congr_left fun r _ => ?_
  rw [Function.comp_apply, kind_bare]
  cases r.kind <;> simp [Kind.map]

/-- The LaTeX of a node is the same without the elements of properties below it. -/
theorem latexOf_bare (choice : ArrayEnvironment) (fence : Option Fence) (n : Node String) :
    n.bare.latexOf choice fence = n.latexOf choice fence := by
  have hplain : plainText? ∘ bare = (plainText? : Node String → Option String) := funext fun _ => plainText?_bare
  unfold latexOf
  rw [kind_bare]
  cases n.kind <;>
    simp only [Kind.map, contentChildren_bare, absorbedContent?_bare, List.map_map, Option.map_map, Option.bind_map,
      note_comp_bare, hplain, Typeset.function_bare, cellsOf_bare, List.map_comp_map]

variable {α : Type} {choice : ArrayEnvironment}

mutual

/-- Taking the elements of properties from a tree and setting it can change places. -/
theorem bare_typeset (enclosure : Enclosure α) :
    ∀ n : Node α, (n.typeset choice enclosure).bare = n.bare.typeset choice enclosure.bare
  | mk head note children => by
    have hchildren := bareAll_typesetAll (enclosure.inside (mk head note children)) children
    rw [← Enclosure.inside_bare, bare] at hchildren
    rw [typeset, bare, bare, typeset, Enclosure.fence?_bare, ← hchildren]
    congr 1
    -- what is below the node has been set already, and its LaTeX does not look at elements of properties there
    exact (latexOf_bare choice enclosure.fence? (mk head "" _)).symm

theorem bareAll_typesetAll (enclosure : Enclosure α) :
    ∀ ns : List (Node α), bareAll (typesetAll choice enclosure ns) = typesetAll choice enclosure.bare (bareAll ns)
  | [] => rfl
  | n :: ns => by
    have hproperty : (n.typeset choice enclosure).isProperty = n.isProperty := by
      cases n
      rfl
    rw [typesetAll, bareAll, bareAll, hproperty, bareAll_typesetAll enclosure ns, bare_typeset enclosure n]
    split <;> rfl

end

theorem note_typeset_bare (n : Node α) : (n.bare.typeset choice .none).note = (n.typeset choice .none).note :=
  (congrArg note (bare_typeset .none n)).symm.trans note_bare

end Node

namespace Equation

/-- Equations whose roots differ in nothing but elements of properties below them have the same LaTeX. -/
theorem latex_congr {q q' : Equation} (h : q.roots.map Node.bare = q'.roots.map Node.bare) (options : Options) :
    q.latex options = q'.latex options := by
  have hnotes (q : Equation) : (q.typeset options).map Node.note =
      (q.roots.map Node.bare).map fun n => (n.typeset options.equationArray .none).note := by
    rw [typeset, Node.typesetAll_eq_map, List.map_map, List.map_map]
    exact List.map_congr_left fun n _ => (Node.note_typeset_bare n).symm
  rw [latex, latex, hnotes, hnotes, h]

end Equation

end OfficeMath
