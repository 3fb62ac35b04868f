import OfficeMath.Text.Basic

/-! Escaping of literal text. The characters that LaTeX reads as markup are written by their escapes and all
    others as they stand. A text in which no such character occurs is passed on whole, which is seen from the
    bytes of its UTF-8 encoding: the escaped characters are ASCII, and no other character has an ASCII byte. -/

namespace OfficeMath
namespace Latex

/-- The characters that cannot stand for themselves in LaTeX, with their escapes. -/
def escapes : List (Char × String) := [
  ('&', "\\&"), ('%', "\\%"), ('$', "\\$"), ('#', "\\#"), ('_', "\\_"), ('{', "\\\x7b"), ('}', "\\\x7d"),
  ('~', "\\textasciitilde\x7b\x7d"), ('^', "\\textasciicircum\x7b\x7d"), ('\\', "\\textbackslash\x7b\x7d"),
  ('\n', "\\\\")]

/-- The escape of a character that needs one. -/
def escapeOf? (c : Char) : Option String := escapes.lookup c

/-- The character as it is written: its escape if it needs one, else itself. -/
def escapeChar (c : Char) : String := (escapeOf? c).getD (String.singleton c)

/-- The text with every character written for itself. -/
def escapeEach (text : String) : String := String.join (text.toList.map escapeChar)

/-- The bytes of the escaped characters. -/
def specialBytes : List UInt8 := [0x26, 0x25, 0x24, 0x23, 0x5F, 0x7B, 0x7D, 0x7E, 0x5E, 0x5C, 0x0A]

/-- Some byte of the text is that of an escaped character. -/
def hasSpecialByte (text : String) : Bool := text.toByteArray.data.any specialBytes.contains

/-- Appends the text to the buffer, escaped where it has a special byte, and says whether it has one. -/
def appendEscaped (text buffer : String) : String × Bool :=
  if hasSpecialByte text then (buffer ++ escapeEach text, true) else (buffer ++ text, false)

/-- The text with its special characters escaped. -/
def escape (text : String) : String := (appendEscaped text "").1

theorem escapeOf?_eq_some_mem {c : Char} {s : String} (h : escapeOf? c = some s) : (c, s) ∈ escapes :=
  Text.mem_of_lookup h

theorem escapeChar_of_none {c : Char} (h : escapeOf? c = none) : escapeChar c = String.singleton c := by
  simp [escapeChar, h]

@[simp] theorem toList_escapeEach (text : String) :
    (escapeEach text).toList = text.toList.flatMap fun c => (escapeChar c).toList := by
  simp [escapeEach, List.flatMap_map]

end Latex
end OfficeMath
