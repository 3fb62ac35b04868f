import OfficeMath.Latex.Command
import OfficeMath.Text.Basic

/-! Names of functions. A name that LaTeX knows is written by its command, any other word of letters as an
    operator name. -/

namespace OfficeMath
namespace Latex

/-- The names of functions that have a command. -/
def functionCommands : List (String × String) := [
  ("sin", "\\sin"), ("cos", "\\cos"), ("tan", "\\tan"), ("cot", "\\cot"), ("sec", "\\sec"), ("csc", "\\csc"),
  ("arcsin", "\\arcsin"), ("arccos", "\\arccos"), ("arctan", "\\arctan"),
  ("sinh", "\\sinh"), ("cosh", "\\cosh"), ("tanh", "\\tanh"), ("coth", "\\coth"),
  ("exp", "\\exp"), ("ln", "\\ln"), ("lg", "\\lg"), ("log", "\\log"),
  ("lim", "\\lim"), ("liminf", "\\liminf"), ("limsup", "\\limsup"), ("lim inf", "\\liminf"),
  ("lim sup", "\\limsup"), ("min", "\\min"), ("max", "\\max"), ("sup", "\\sup"), ("inf", "\\inf"),
  ("det", "\\det"), ("dim", "\\dim"), ("gcd", "\\gcd"), ("Pr", "\\Pr"), ("arg", "\\arg"), ("deg", "\\deg"),
  ("hom", "\\hom"), ("ker", "\\ker")]

/-- The command of a function name, whatever blank characters surround it. -/
def functionCommand? (name : String) : Option String := functionCommands.lookup (Text.trim name)

/-- The text as the name of an operator. -/
def operatorName (name : String) : String := command "\\operatorname" name

/-- The text is one word of ASCII letters. -/
def isWord (text : String) : Bool := !text.toList.isEmpty && text.toList.all Char.isAlpha

/-- The operator for a name that is typed as plain text: its command, or else an operator name if it is a word. -/
def plainOperator? (name : String) : Option String :=
  match functionCommand? name with
  | some latex => some latex
  | none => if isWord (Text.trim name) then some (operatorName (Text.trim name)) else none

theorem functionCommand?_eq_some_mem {name s : String} (h : functionCommand? name = some s) :
    (Text.trim name, s) ∈ functionCommands :=
  Text.mem_of_lookup h

end Latex
end OfficeMath
