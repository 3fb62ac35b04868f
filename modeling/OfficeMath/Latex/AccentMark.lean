/-! Accents over a formula. An accent is given by a combining character, by its four hexadecimal digits in
    either case, or by a spacing form of it, and is written by a command. -/

namespace OfficeMath
namespace Latex

/-- The combining characters that have a command. -/
def combiningAccents : List (Char × String) := [
  ('\u0300', "\\grave"), ('\u0301', "\\acute"), ('\u0302', "\\hat"), ('\u0303', "\\tilde"), ('\u0304', "\\bar"),
  ('\u0305', "\\overline"), ('\u0306', "\\breve"), ('\u0307', "\\dot"), ('\u0308', "\\ddot"),
  ('\u030a', "\\mathring"), ('\u030c', "\\check"), ('\u20d6', "\\overleftarrow"), ('\u20d7', "\\vec"),
  ('\u20e1', "\\overleftrightarrow")]

/-- The spacing forms of accents. -/
def spacingAccents : List (String × String) := [
  ("^", "\\hat"), ("~", "\\tilde"), ("-", "\\bar"), ("¯", "\\bar"), ("→", "\\vec"), (".", "\\dot"),
  ("..", "\\ddot"), ("'", "\\acute"), ("`", "\\grave"), ("˘", "\\breve"), ("ˇ", "\\check"), ("˙", "\\dot"),
  ("¨", "\\ddot")]

/-- The circumflex, which is the accent where none is given. -/
def defaultAccent : String := "\u0302"

/-- The value of a hexadecimal digit. -/
def hexDigit? (c : Char) : Option Nat :=
  if '0' ≤ c ∧ c ≤ '9' then some (c.toNat - 0x30)
  else if 'A' ≤ c ∧ c ≤ 'F' then some (c.toNat - 0x37)
  else if 'a' ≤ c ∧ c ≤ 'f' then some (c.toNat - 0x57)
  else none

/-- The character whose code point is spelled by four hexadecimal digits. -/
def spelledCharacter? (digits : List Char) : Option Char :=
  match digits.mapM hexDigit? with
  | some [a, b, c, d] => some (Char.ofNat (((a * 16 + b) * 16 + c) * 16 + d))
  | _ => none

/-- The command of an accent. -/
def accentCommand? (accent : String) : Option String :=
  match accent.toList with
  | [c] => (combiningAccents.lookup c).or (spacingAccents.lookup accent)
  | cs =>
    match spelledCharacter? cs with
    | some c => combiningAccents.lookup c
    | none => spacingAccents.lookup accent

end Latex
end OfficeMath
