import OfficeMath.Latex.Bracket

/-! Escaping, character by character. The test on bytes only passes a text on whole where no character of it has
    an escape, so that a text is escaped as each of its characters is. -/

namespace OfficeMath
namespace Latex

variable {text : String} {c : Char}

theorem toList_data_toByteArray (text : String) :
    text.toByteArray.data.toList = text.toList.flatMap String.utf8EncodeChar := by
  rw [← String.utf8Encode_toList, List.utf8Encode, List.toList_data_toByteArray]

theorem utf8EncodeChar_of_escapeOf? {s : String} (h : escapeOf? c = some s) :
    ∃ b ∈ specialBytes, String.utf8EncodeChar c = [b] := by
  have hall : ∀ p ∈ escapes, ∃ b ∈ specialBytes, String.utf8EncodeChar p.1 = [b] := by decide
  exact hall (c, s) (escapeOf?_eq_some_mem h)

theorem hasSpecialByte_of_mem {s : String} (hc : c ∈ text.toList) (h : escapeOf? c = some s) :
    hasSpecialByte text = true := by
  obtain ⟨b, hb, hencode⟩ := utf8EncodeChar_of_escapeOf? h
  have hmem : b ∈ text.toByteArray.data.toList := by
    rw [toList_data_toByteArray]
    exact List.mem_flatMap.mpr ⟨c, hc, hencode ▸ List.mem_singleton_self b⟩
  rw [hasSpecialByte, ← Array.any_toList, List.any_eq_true]
  exact ⟨b, hmem, List.contains_iff_mem.mpr hb⟩

theorem escapeEach_of_none (h : ∀ c ∈ text.toList, escapeOf? c = none) : escapeEach text = text := by
  have hchar : ∀ c ∈ text.toList, (escapeChar c).toList = [c] := fun c hc => by simp [escapeChar_of_none (h c hc)]
  rw [← String.toList_inj, toList_escapeEach, List.flatMap_def, List.map_congr_left hchar, ← List.flatMap_def,
    List.flatMap_singleton']

theorem escapeEach_of_not_hasSpecialByte (h : hasSpecialByte text = false) : escapeEach text = text :=
  escapeEach_of_none fun c hc => by
    cases hescape : escapeOf? c with
    | none => rfl
    | some s => exact absurd (hasSpecialByte_of_mem hc hescape) (by simp [h])

/-- A text is escaped as each of its characters is. -/
theorem escape_eq_escapeEach (text : String) : escape text = escapeEach text := by
  unfold escape appendEscaped
  split
  · simp
  · next h => simp [escapeEach_of_not_hasSpecialByte (Bool.eq_false_iff.mpr h)]

/-! ### Texts that are not empty -/

theorem escapeChar_ne_empty (c : Char) : escapeChar c ≠ "" := by
  unfold escapeChar
  cases hescape : escapeOf? c with
  | none => simp
  | some s =>
    have hescapes : ∀ entry ∈ escapes, entry.2 ≠ "" := by decide
    exact hescapes _ (escapeOf?_eq_some_mem hescape)

theorem escape_ne_empty (h : text ≠ "") : escape text ≠ "" := by
  rw [escape_eq_escapeEach, Ne, ← String.toList_inj, toList_escapeEach]
  cases htext : text.toList with
  | nil => exact absurd (String.toList_inj.mp htext) h
  | cons c cs => simp [escapeChar_ne_empty c]

theorem bracket_ne_empty {fence : String} (h : fence ≠ "") : bracket fence ≠ "" := by
  unfold bracket
  cases hfence : brackets.lookup fence with
  | none => exact escape_ne_empty h
  | some latex =>
    have hbrackets : ∀ entry ∈ brackets, entry.2 ≠ "" := by decide
    exact hbrackets _ (Text.mem_of_lookup hfence)

end Latex
end OfficeMath
