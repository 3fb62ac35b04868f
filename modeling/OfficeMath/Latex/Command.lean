/-! The ways LaTeX is put together from arguments and rows: an argument between braces, a command with its argument,
    and an environment of rows. The rows stand on lines of their own, each but the last followed by a row break, and
    the cells of a row are parted by ampersands. -/

namespace OfficeMath
namespace Latex

/-! ### Commands -/

/-- The argument between braces. -/
def braced (argument : String) : String := "\x7b" ++ argument ++ "\x7d"

/-- The command followed by its argument between braces. -/
def command (name argument : String) : String := name ++ braced argument

/-- A marker that stands in the place of an incomplete construct. -/
def errorMarker (complaint : String) : String := braced ("ERROR: " ++ complaint)

@[simp] theorem toList_braced (argument : String) :
    (braced argument).toList = '{' :: (argument.toList ++ ['}']) := by simp [braced]

@[simp] theorem toList_command (name argument : String) :
    (command name argument).toList = name.toList ++ '{' :: (argument.toList ++ ['}']) := by simp [command]

/-! ### Environments -/

/-- What stands between two rows: a row break and the end of the line. -/
def rowSeparator : String := " \\\\\n"

/-- What stands between two cells of a row. -/
def cellSeparator : String := " & "

/-- The cells of one row. -/
def row (cells : List String) : String := cellSeparator.intercalate cells

/-- The rows in the environment of the given name. -/
def environment (name : String) (rows : List String) : String :=
  command "\\begin" name ++ "\n" ++ rowSeparator.intercalate rows ++ "\n" ++ command "\\end" name

end Latex

/-- The environments for an array of equations. -/
inductive ArrayEnvironment where
  | aligned | align | gathered
  deriving DecidableEq, Repr

namespace ArrayEnvironment

/-- The name of the environment. -/
def name : ArrayEnvironment → String
  | aligned => "aligned"
  | align => "align"
  | gathered => "gathered"

end ArrayEnvironment

end OfficeMath
