import OfficeMath.Equation.Kind
import OfficeMath.Equation.Enclosure
import OfficeMath.Latex.Draft
import OfficeMath.Latex.FunctionName
import OfficeMath.Typeset.Script

/-! The LaTeX of functions applied to arguments. The nodes here carry their LaTeX as their note. -/

namespace OfficeMath
namespace Typeset

open Latex

/-! ### The name -/

/-- The pattern occurs in the text. -/
def occursIn (pattern : List Char) : List Char → Bool
  | [] => pattern.isEmpty
  | c :: cs => pattern.isPrefixOf (c :: cs) || occursIn pattern cs

/-- The operator of a node that is typed as plain text. -/
def plainName? (n : Node String) : Option String := n.plainText?.bind plainOperator?

/-- The operator of a name that holds nothing but scripts on a plain name. -/
def scriptedName? (n : Node String) : Option String :=
  n.onlyContentChild?.bind fun c =>
    match c.kind with
    | .script (some base) sub sup =>
      (plainName? base).map fun name => name ++ scripts (sub.map Node.note) (sup.map Node.note)
    | _ => none

/-- The operator of a name from its LaTeX: a command is left as it is, unless it holds an operator name. -/
def renderedName (latex : String) : String :=
  let latex := Text.trim latex
  match functionCommand? latex with
  | some name => name
  | none =>
    if latex.toList.head? == some '\\' && !occursIn "operatorname".toList latex.toList then latex
    else operatorName latex

/-- The LaTeX of the name of a function. -/
def functionName (n : Node String) : String :=
  match plainName? n with
  | some name => name
  | none => (scriptedName? n).getD (renderedName n.note)

/-! ### The application -/

/-- The argument is one delimiter, so that it has fences of its own. -/
def isFencedArgument (n : Node String) : Bool :=
  n.onlyContentChild?.any fun c =>
    match c.form with
    | .delimiter _ => true
    | _ => false

/-- A function without a name. -/
def namelessFunction (arguments : List String) : String :=
  if arguments.isEmpty then errorMarker "Missing function name"
  else errorMarker ("Missing function name; args: " ++ ", ".intercalate arguments)

/-- A named function with its arguments: below the name for a limit, after a space if the name has a script
    below, as they are if fenced, and else between parentheses. -/
def application (name : String) (arguments : List (Node String)) : String :=
  let latex := arguments.map Node.note
  match arguments with
  | [] => name
  | [argument] =>
    if name = "\\lim" then command "\\lim_" argument.note
    else if name.toList.contains '_' then name ++ " " ++ argument.note
    else if isFencedArgument argument then pushFragment name argument.note
    else name ++ "(" ++ argument.note ++ ")"
  | _ =>
    if name.toList.contains '_' then name ++ " " ++ " ".intercalate latex
    else name ++ "(" ++ ", ".intercalate latex ++ ")"

/-- A function with its arguments. -/
def function (name : Option (Node String)) (arguments : List (Node String)) : String :=
  match name with
  | none => namelessFunction (arguments.map Node.note)
  | some name => application (functionName name) arguments

end Typeset
end OfficeMath
