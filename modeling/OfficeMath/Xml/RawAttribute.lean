import OfficeMath.Xml.Chars
import OfficeMath.Xml.Malformed

/-! Attributes as they are written in a tag: a key, an equals sign and a value between quotes, with white space
    allowed around the sign and not needed after the value. -/

namespace OfficeMath
namespace Xml

/-- An attribute as written: its key and the value between the quotes, in which nothing is replaced. -/
structure RawAttribute where
  key : List Char
  value : List Char
  deriving DecidableEq, Repr

namespace RawAttribute

/-- The character goes on a key. -/
def inKey (c : Char) : Bool := c != '=' && !isSpace c

/-- Reads the value of the attribute with the key, from after the equals sign. -/
def readValue (key cs : List Char) : Except Malformed (RawAttribute × List Char) :=
  match cs.dropWhile isSpace with
  | [] => .error (.attributeWithoutValue (String.ofList key))
  | quote :: cs =>
    if isQuote quote then
      match cs.dropWhile (· != quote) with
      | [] => .error (.unclosedValue (String.ofList key))
      | _ :: rest => .ok (⟨key, cs.takeWhile (· != quote)⟩, rest)
    else .error (.unquotedValue (String.ofList key))

/-- Reads the attribute whose key begins with `c`, whatever character that is. -/
def read (c : Char) (cs : List Char) : Except Malformed (RawAttribute × List Char) :=
  let key := c :: cs.takeWhile inKey
  match (cs.dropWhile inKey).dropWhile isSpace with
  | '=' :: rest => readValue key rest
  | _ => .error (.attributeWithoutValue (String.ofList key))

theorem length_le_of_readValue {key cs rest : List Char} {a : RawAttribute}
    (h : readValue key cs = .ok (a, rest)) : rest.length ≤ cs.length := by
  unfold readValue at h
  have hspace := length_dropWhile_le isSpace cs
  split at h
  · simp at h
  · next quote cs' hq =>
    rw [hq, List.length_cons] at hspace
    split at h
    · have hvalue := length_dropWhile_le (· != quote) cs'
      split at h
      · simp at h
      · next hv =>
        rw [hv, List.length_cons] at hvalue
        simp only [Except.ok.injEq, Prod.mk.injEq] at h
        obtain ⟨-, rfl⟩ := h
        omega
    · simp at h

theorem length_le_of_read {c : Char} {cs rest : List Char} {a : RawAttribute}
    (h : read c cs = .ok (a, rest)) : rest.length ≤ cs.length := by
  unfold read at h
  have hkey := length_dropWhile_le inKey cs
  have hspace := length_dropWhile_le isSpace (cs.dropWhile inKey)
  dsimp only at h
  split at h
  · next hs =>
    rw [hs, List.length_cons] at hspace
    have := length_le_of_readValue h
    omega
  · simp at h

/-- The attributes in what follows the name in a tag, up to the first fault or to the end. -/
def scan (cs : List Char) : List RawAttribute × Option Malformed :=
  match hs : cs.dropWhile isSpace with
  | [] => ([], none)
  | c :: cs' =>
    match h : read c cs' with
    | .error fault => ([], some fault)
    | .ok (a, rest) =>
      have : rest.length < cs.length := by
        have hspace := length_dropWhile_le isSpace cs
        rw [hs, List.length_cons] at hspace
        have := length_le_of_read h
        omega
      let (as, fault) := scan rest
      (a :: as, fault)
termination_by cs.length

theorem scan_of_blank {cs : List Char} (h : cs.dropWhile isSpace = []) : scan cs = ([], none) := by
  rw [scan]
  split <;> simp_all

theorem scan_of_error {c : Char} {cs cs' : List Char} {fault : Malformed} (hs : cs.dropWhile isSpace = c :: cs')
    (h : read c cs' = .error fault) : scan cs = ([], some fault) := by
  rw [scan]
  split
  · simp_all
  · next hs' =>
    rw [hs] at hs'
    obtain ⟨rfl, rfl⟩ := List.cons.inj hs'
    split <;> simp_all

theorem scan_of_ok {c : Char} {cs cs' rest : List Char} {a : RawAttribute} (hs : cs.dropWhile isSpace = c :: cs')
    (h : read c cs' = .ok (a, rest)) : scan cs = (a :: (scan rest).1, (scan rest).2) := by
  rw [scan]
  split
  · simp_all
  · next hs' =>
    rw [hs] at hs'
    obtain ⟨rfl, rfl⟩ := List.cons.inj hs'
    split
    · simp_all
    · next h' =>
      rw [h] at h'
      simp only [Except.ok.injEq, Prod.mk.injEq] at h'
      obtain ⟨rfl, rfl⟩ := h'
      rfl

end RawAttribute

end Xml
end OfficeMath
