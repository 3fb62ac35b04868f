import OfficeMath.Equation.Enclosure
import OfficeMath.Latex.Command
import OfficeMath.Latex.Draft
import OfficeMath.Latex.Symbol

/-! The LaTeX of delimiters and of the arrays in them, from the LaTeX of what they hold. -/

namespace OfficeMath
namespace Typeset

open Latex

/-! ### Delimiters -/

/-- What stands between two segments: the separator, which is a comma where none is given. -/
def segmentSeparator (separator : Option String) : String := (separator.map convertText).getD ", "

/-- Writes segments after the first, each with the separator before it. -/
def pushSegments (separator : String) (d : Draft) (segments : List (List String)) : Draft :=
  segments.foldl (fun d s => (d.write separator).pushAll s) d

/-- The segments of a delimiter with the separator between them. -/
def joinSegments (separator : String) (segments : List (List String)) : String :=
  match segments with
  | [] => ""
  | s :: segments => (pushSegments separator (Draft.empty.pushAll s) segments).latex

/-- A fence that grows with what it encloses; a point stands for one that is not there. -/
def growingFence (name fence : String) : String := name ++ if fence.isEmpty then "." else fence

/-- A text between fences. -/
def fenced (fence : Fence) (content : String) : String :=
  let opening := bracket fence.opening
  let closing := bracket fence.closing
  if fence.grows then
    pushFragment (growingFence "\\left" opening) content ++ growingFence "\\right" closing
  else joinFragments [opening, content, closing]

/-- A delimiter, which leaves out its fences if what it encloses brings them. -/
def delimiter (fence : Fence) (absorbed : Option String) (segments : List (List String)) : String :=
  match absorbed with
  | some latex => latex
  | none => fenced fence (joinSegments (segmentSeparator fence.separator) segments)

/-! ### Arrays -/

/-- A matrix inside the fence. Rows without a cell are left out, and so is a matrix without rows. -/
def matrix (fence : Option Fence) (rows : List (List String)) : String :=
  match rows.filter (!·.isEmpty) with
  | [] => ""
  | rows => environment (fence.elim .none Fence.matrixFence).environment (rows.map row)

/-- The environment of an array of equations inside the fence. -/
def arrayEnvironment (choice : ArrayEnvironment) (fence : Option Fence) : String :=
  if fence.any Fence.isCases then "cases" else choice.name

/-- An array of equations inside the fence; one without rows is left out. -/
def equationArray (choice : ArrayEnvironment) (fence : Option Fence) (rows : List String) : String :=
  if rows.isEmpty then "" else environment (arrayEnvironment choice fence) rows

end Typeset
end OfficeMath
