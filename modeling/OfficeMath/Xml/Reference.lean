import OfficeMath.Xml.Malformed

/-! References to characters. A reference names one of the five predefined entities, or gives a code point in
    decimal or, after a small `x`, in hexadecimal digits. -/

namespace OfficeMath
namespace Xml

/-- The entities that need no declaration. -/
def predefinedEntities : List (List Char × Char) := [
  (['l', 't'], '<'), (['g', 't'], '>'), (['a', 'm', 'p'], '&'), (['a', 'p', 'o', 's'], '\x27'),
  (['q', 'u', 'o', 't'], '"')]

/-- The value of a digit in the base, which is ten or sixteen. -/
def digitValue? (base : Nat) (c : Char) : Option Nat :=
  let value? :=
    if '0' ≤ c ∧ c ≤ '9' then some (c.toNat - 0x30)
    else if 'a' ≤ c ∧ c ≤ 'f' then some (c.toNat - 0x57)
    else if 'A' ≤ c ∧ c ≤ 'F' then some (c.toNat - 0x37)
    else none
  value?.filter (· < base)

/-- The number that the digits spell, of which there is one at least. -/
def number? (base : Nat) (digits : List Char) : Option Nat :=
  if digits.isEmpty then none
  else digits.foldl (fun n c => n.bind fun n => (digitValue? base c).map fun d => n * base + d) (some 0)

/-- The character with the code point, which is neither zero nor a surrogate. -/
def characterAt? (n : Nat) : Option Char :=
  if n ≠ 0 ∧ n.isValidChar then some (Char.ofNat n) else none

/-- What a reference that stands for no character lacks. -/
inductive UnresolvedReference where
  | noCharacter
  | unknownEntity
  deriving DecidableEq, Repr

/-- The character that a reference stands for, from the text between the ampersand and the semicolon. -/
def resolveReference (name : List Char) : Except UnresolvedReference Char :=
  match name with
  | '#' :: 'x' :: digits => ((number? 16 digits).bind characterAt?).elim (.error .noCharacter) .ok
  | '#' :: digits => ((number? 10 digits).bind characterAt?).elim (.error .noCharacter) .ok
  | _ => (predefinedEntities.lookup name).elim (.error .unknownEntity) .ok

/-- Replaces the references in an attribute value. The characters of an open reference are held, last first. -/
def expandReferences (held : Option (List Char)) (cs : List Char) : Except Malformed (List Char) :=
  match held, cs with
  | none, [] => .ok []
  | some _, [] => .error .unterminatedReference
  | none, c :: cs => if c == '&' then expandReferences (some []) cs else (expandReferences none cs).map (c :: ·)
  | some name, c :: cs =>
    if c == ';' then
      match resolveReference name.reverse with
      | .ok d => (expandReferences none cs).map (d :: ·)
      | .error .noCharacter => .error .invalidCharacterReference
      | .error .unknownEntity => .error (.unknownEntity (String.ofList name.reverse))
    else if c == '&' then .error .unterminatedReference
    else expandReferences (some (c :: name)) cs

/-- The value of an attribute with its references replaced. -/
def expandValue (value : List Char) : Except Malformed String := (expandReferences none value).map String.ofList

/-- A text without an ampersand is its own value. -/
theorem expandValue_of_plain {value : List Char} (h : '&' ∉ value) : expandValue value = .ok (String.ofList value) := by
  have hgo : ∀ cs : List Char, '&' ∉ cs → expandReferences none cs = .ok cs := by
    intro cs
    induction cs with
    | nil => intro _; rfl
    | cons c cs ih =>
      intro hc
      simp only [List.mem_cons, not_or] at hc
      have hne : (c == '&') = false := by simpa using fun he => hc.1 he.symm
      simp [expandReferences, hne, ih hc.2, Except.map]
  simp [expandValue, hgo value h, Except.map]

end Xml
end OfficeMath
