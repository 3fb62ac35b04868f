import OfficeMath.Equation.Kind
import OfficeMath.Latex.Bracket
import OfficeMath.Text.Basic

/-! Delimiters around arrays. A matrix between a pair of fences, and an array of equations after a brace, bring the
    fence themselves if they are all that the delimiter encloses, either directly or through one `e`. This is
    seen from two sides: the delimiter leaves out its fences if its content absorbs them, and the array looks for
    the delimiter that encloses it and nothing else. -/

namespace OfficeMath

namespace Fence

/-- A brace that is not closed, as it stands before a distinction of cases. -/
def isCases (f : Fence) : Bool := f.opening == "\x7b" && f.closing?.all Text.isBlankText

/-- The pair of fences that a matrix can bring. -/
def matrixFence (f : Fence) : Latex.MatrixFence := Latex.MatrixFence.ofFences f.opening f.closing

end Fence

namespace Node

variable {α : Type}

/-! ### From the delimiter -/

/-- The only node in the content of a node. -/
def onlyContentChild? (n : Node α) : Option (Node α) :=
  match n.contentChildren with
  | [c] => some c
  | _ => none

/-- What a delimiter wraps, if that is one node: its sole content, or what that holds if it is an `e`. -/
def wrappedContent? (n : Node α) : Option (Node α) :=
  n.soleContent?.bind fun c => if c.isTag "e" then c.onlyContentChild? else some c

/-- The node brings the fence itself. -/
def absorbs (fence : Fence) (n : Node α) : Bool :=
  match n.form with
  | .matrix => fence.matrixFence != .none
  | .equationArray => fence.isCases
  | _ => false

/-- The node in a delimiter with the fence that brings the fence itself. -/
def absorbedContent? (fence : Fence) (n : Node α) : Option (Node α) := n.wrappedContent?.filter (absorbs fence)

end Node

/-! ### From the array -/

/-- How a node stands to the delimiter around it: it is the sole content, it is the only content of the `e` that is
    the sole content, or neither. -/
inductive Enclosure (α : Type) where
  | none
  | direct (delimiter : Node α)
  | throughContainer (delimiter : Node α)

namespace Enclosure

variable {α : Type}

/-- The delimiter that encloses the node and nothing else. -/
def delimiter? : Enclosure α → Option (Node α)
  | none => Option.none
  | direct d => some d
  | throughContainer d => some d

/-- The fence of that delimiter. -/
def fence? (e : Enclosure α) : Option Fence :=
  e.delimiter?.bind fun d =>
    match d.form with
    | .delimiter fence => some fence
    | _ => Option.none

/-- How the content of a node stands to the delimiters around it, if the node stands so itself. -/
def inside (e : Enclosure α) (n : Node α) : Enclosure α :=
  match n.form, e with
  | .delimiter _, _ => if n.soleContent?.isSome then direct n else none
  | _, direct d => if n.isTag "e" && n.onlyContentChild?.isSome then throughContainer d else none
  | _, _ => none

end Enclosure

end OfficeMath
