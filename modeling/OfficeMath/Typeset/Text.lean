import OfficeMath.Equation.Form
import OfficeMath.Latex.Command
import OfficeMath.Text.Alphabetic

/-! The LaTeX of a run: its text in the alphabet or with the weight and slope that its style asks for. -/

namespace OfficeMath
namespace Typeset

/-- The command of an alphabet. -/
def alphabetCommand : Alphabet → String
  | .script => "\\mathscr"
  | .fraktur => "\\mathfrak"
  | .doubleStruck => "\\mathbb"
  | .sansSerif => "\\mathsf"
  | .monospace => "\\mathtt"

/-- The text is a word of more than one letter, which is set upright where the style is plain. -/
def isLongWord (latex : String) : Bool :=
  let letters := Text.trimChars latex.toList
  1 < letters.length && letters.all Text.isAlphabetic

/-- The text in the command, if the condition holds. -/
def commandIf (condition : Bool) (name text : String) : String :=
  if condition then Latex.command name text else text

/-- Applies a style to a text in LaTeX. An alphabet takes the place of weight and slope. -/
def styled (style : RunStyle) (latex : String) : String :=
  if latex.isEmpty then ""
  else
    match style.alphabet with
    | some alphabet => Latex.command (alphabetCommand alphabet) latex
    | none =>
      commandIf style.bold "\\mathbf"
        (commandIf style.italic "\\textit" (commandIf (style.plain && isLongWord latex) "\\mathrm" latex))

/-- The LaTeX of a run. -/
def run (r : Run) : String := styled r.style r.latex

end Typeset
end OfficeMath
