import OfficeMath.Latex.Escape

/-! Fences around a formula: the LaTeX of a fence, and the array environments that bring a fence of their own. -/

namespace OfficeMath
namespace Latex

/-- The fences that have a bracket in LaTeX. -/
def brackets : List (String × String) := [
  ("(", "("), (")", ")"), ("[", "["), ("]", "]"), ("\x7b", "\\\x7b"), ("\x7d", "\\\x7d"), ("|", "|"),
  ("‖", "\\|"), ("⟨", "\\langle"), ("⟩", "\\rangle"), ("〈", "\\langle"), ("〉", "\\rangle"),
  ("⌊", "\\lfloor"), ("⌋", "\\rfloor"), ("⌈", "\\lceil"), ("⌉", "\\rceil")]

/-- The LaTeX of a fence: its bracket, or its text with the special characters escaped. -/
def bracket (fence : String) : String := (brackets.lookup fence).getD (escape fence)

/-- The pairs of fences that a matrix can bring itself. -/
inductive MatrixFence where
  | none | paren | square | brace | bar | doubleBar
  deriving DecidableEq, Repr

namespace MatrixFence

/-- The pair that an opening and a closing fence make. -/
def ofFences (opening closing : String) : MatrixFence :=
  if opening = "(" ∧ closing = ")" then paren
  else if opening = "[" ∧ closing = "]" then square
  else if opening = "\x7b" ∧ closing = "\x7d" then brace
  else if opening = "|" ∧ closing = "|" then bar
  else if opening = "‖" ∧ closing = "‖" then doubleBar
  else none

/-- The environment of a matrix between the fences. -/
def environment : MatrixFence → String
  | none => "matrix"
  | paren => "pmatrix"
  | square => "bmatrix"
  | brace => "Bmatrix"
  | bar => "vmatrix"
  | doubleBar => "Vmatrix"

end MatrixFence

theorem bracket_of_mem {fence latex : String} (h : brackets.lookup fence = some latex) : bracket fence = latex := by
  simp [bracket, h]

end Latex
end OfficeMath
