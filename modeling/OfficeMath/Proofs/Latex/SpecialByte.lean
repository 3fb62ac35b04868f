import Mathlib.Tactic.SplitIfs
import OfficeMath.Proofs.Latex.Escape

/-! The search for special bytes. Before a text is escaped, the bytes of its encoding are searched for those of the
    escaped characters. These are ASCII, and no character outside ASCII has an ASCII byte in its encoding, so the search
    finds the escaped characters and nothing else. -/

namespace OfficeMath
namespace Latex

variable {text : String} {c : Char} {cs : List Char} {b : UInt8} {i : Nat}

/-- A character that is not ASCII is encoded by bytes that have their highest bit set. -/
theorem le_toNat_of_mem_utf8EncodeChar (hc : 128 ≤ c.toNat) (hmem : b ∈ String.utf8EncodeChar c) : 128 ≤ b.toNat := by
  have hlong : ¬ c.val.toNat ≤ 127 := Nat.not_le.mpr hc
  simp only [String.utf8EncodeChar, if_neg hlong] at hmem
  split_ifs at hmem <;> simp only [List.mem_cons, List.not_mem_nil, or_false] at hmem
  · rcases hmem with rfl | rfl <;> rw [UInt8.toNat_ofNat'] <;> omega
  · rcases hmem with rfl | rfl | rfl <;> rw [UInt8.toNat_ofNat'] <;> omega
  · rcases hmem with rfl | rfl | rfl | rfl <;> rw [UInt8.toNat_ofNat'] <;> omega

/-- A byte that an escaped character has is the encoding of such a character, and no part of a longer one. -/
theorem utf8EncodeChar_of_mem_specialBytes (hmem : b ∈ String.utf8EncodeChar c) (hb : b ∈ specialBytes) :
    (escapeOf? c).isSome = true ∧ String.utf8EncodeChar c = [b] := by
  have hspecial : ∀ b ∈ specialBytes, b.toNat < 128 := by simp [specialBytes]
  have hascii : ∀ n < 128, UInt8.ofNat n ∈ specialBytes → (escapeOf? (Char.ofNat n)).isSome = true := by decide
  have hc : c.toNat < 128 := Nat.lt_of_not_le fun hc =>
    Nat.not_lt.mpr (le_toNat_of_mem_utf8EncodeChar hc hmem) (hspecial b hb)
  have hencode : String.utf8EncodeChar c = [UInt8.ofNat c.toNat] := if_pos (Nat.le_of_lt_succ hc)
  rw [hencode, List.mem_singleton] at hmem
  subst hmem
  have hsome := hascii c.toNat hc hb
  rw [Char.ofNat_toNat] at hsome
  exact ⟨hsome, hencode⟩

/-- The special bytes of an encoding stand where the escaped characters start. -/
theorem getElem?_flatMap_utf8EncodeChar :
    (∃ b ∈ specialBytes, (cs.flatMap String.utf8EncodeChar)[i]? = some b) ↔ ∃ before c after,
      cs = before ++ c :: after ∧ (before.flatMap String.utf8EncodeChar).length = i ∧ (escapeOf? c).isSome = true := by
  induction cs generalizing i with
  | nil => simp
  | cons d cs ih =>
    rw [List.flatMap_cons]
    constructor
    · rintro ⟨b, hb, hi⟩
      rw [List.getElem?_append] at hi
      split at hi
      · next hlt =>
        obtain ⟨hsome, hencode⟩ := utf8EncodeChar_of_mem_specialBytes (List.mem_of_getElem? hi) hb
        rw [hencode, List.length_singleton] at hlt
        exact ⟨[], d, cs, rfl, (Nat.lt_one_iff.mp hlt).symm, hsome⟩
      · next hlt =>
        obtain ⟨before, c, after, rfl, hlength, hsome⟩ := ih.mp ⟨b, hb, hi⟩
        refine ⟨d :: before, c, after, rfl, ?_, hsome⟩
        rw [List.flatMap_cons, List.length_append, hlength]
        omega
    · rintro ⟨before, c, after, hsplit, hlength, hsome⟩
      cases before with
      | nil =>
        rw [List.nil_append, List.cons.injEq] at hsplit
        obtain ⟨rfl, rfl⟩ := hsplit
        obtain ⟨s, hs⟩ := Option.isSome_iff_exists.mp hsome
        obtain ⟨b, hb, hencode⟩ := utf8EncodeChar_of_escapeOf? hs
        refine ⟨b, hb, ?_⟩
        rw [← hlength, hencode]
        rfl
      | cons d' before =>
        rw [List.cons_append, List.cons.injEq] at hsplit
        obtain ⟨rfl, rfl⟩ := hsplit
        rw [List.flatMap_cons, List.length_append] at hlength
        obtain ⟨b, hb, hi⟩ := ih.mpr ⟨before, c, after, rfl, rfl, hsome⟩
        refine ⟨b, hb, ?_⟩
        rw [← hlength, List.getElem?_append_right (Nat.le_add_right ..), Nat.add_sub_cancel_left]
        exact hi

theorem utf8ByteSize_eq_length (text : String) :
    text.utf8ByteSize = (text.toList.flatMap String.utf8EncodeChar).length := by
  rw [← toList_data_toByteArray, Array.length_toList, ← String.size_toByteArray]
  rfl

theorem hasSpecialByte_iff : hasSpecialByte text = true ↔ ∃ c ∈ text.toList, (escapeOf? c).isSome = true := by
  constructor
  · intro h
    rw [hasSpecialByte, ← Array.any_toList, List.any_eq_true, toList_data_toByteArray] at h
    obtain ⟨b, hmem, hb⟩ := h
    obtain ⟨c, hc, hmem⟩ := List.mem_flatMap.mp hmem
    exact ⟨c, hc, (utf8EncodeChar_of_mem_specialBytes hmem (List.contains_iff_mem.mp hb)).1⟩
  · rintro ⟨c, hc, hsome⟩
    obtain ⟨s, hs⟩ := Option.isSome_iff_exists.mp hsome
    exact hasSpecialByte_of_mem hc hs

/-- Searching the bytes of a text is as good as looking at its characters. What the buffer held is followed by each
    character as it is written, and an escape is reported exactly if some character has one: the bytes that are searched
    for stand where such a character starts and nowhere else, least of all in the middle of a longer one. -/
theorem appendEscaped_by_characters (text buffer : String) :
    (appendEscaped text buffer).1 =
        buffer ++ String.join (text.toList.map fun c => (escapeOf? c).getD (String.singleton c)) ∧
      ((appendEscaped text buffer).2 = true ↔ ∃ c ∈ text.toList, (escapeOf? c).isSome = true) ∧
      ∀ i, (∃ b ∈ specialBytes, text.toByteArray.data[i]? = some b) ↔ ∃ before after c,
        text = before ++ String.singleton c ++ after ∧ before.utf8ByteSize = i ∧ (escapeOf? c).isSome = true := by
  have hlatex : (appendEscaped text buffer).1 = buffer ++ escapeEach text := by
    unfold appendEscaped
    split
    · rfl
    · next h => rw [escapeEach_of_not_hasSpecialByte (Bool.eq_false_iff.mpr h)]
  have hsaid : (appendEscaped text buffer).2 = hasSpecialByte text := by
    unfold appendEscaped
    split
    · next h => exact h.symm
    · next h => exact (Bool.eq_false_iff.mpr h).symm
  refine ⟨hlatex, hsaid ▸ hasSpecialByte_iff, fun i => ?_⟩
  rw [← Array.getElem?_toList, toList_data_toByteArray, getElem?_flatMap_utf8EncodeChar]
  constructor
  · rintro ⟨before, c, after, hsplit, hlength, hsome⟩
    refine ⟨String.ofList before, String.ofList after, c, ?_, ?_, hsome⟩
    · rw [← String.toList_inj, hsplit]
      simp
    · rw [utf8ByteSize_eq_length, String.toList_ofList, hlength]
  · rintro ⟨before, after, c, rfl, hlength, hsome⟩
    refine ⟨before.toList, c, after.toList, by simp, ?_, hsome⟩
    rw [← utf8ByteSize_eq_length, hlength]

end Latex
end OfficeMath
