import OfficeMath.Proofs.Latex.Escape

/-! Reading escaped text back. What the characters are written as is a prefix code: no character is written as the
    beginning of what another one is written as. So an escaped text is read back from left to right, a character as soon
    as what has been read is one. -/

namespace OfficeMath
namespace Latex

variable {c d : Char} {cs word : List Char}

/-! ### The decoder -/

/-- The character that is written as the given characters, if there is one. -/
def writtenChar? (word : List Char) : Option Char :=
  match word with
  | [c] => if (escapeOf? c).isNone then some c else none
  | word => (escapes.find? fun entry => entry.2.toList == word).map Prod.fst

/-- The characters that are written as the given ones, where `word` has been read of the one that comes first. -/
def unescapeFrom (word : List Char) : List Char → Option (List Char)
  | [] => if word.isEmpty then some [] else none
  | c :: cs =>
    match writtenChar? (word ++ [c]) with
    | some d => (unescapeFrom [] cs).map (d :: ·)
    | none => unescapeFrom (word ++ [c]) cs

/-- The text that has been escaped to the given one, if there is one. -/
def unescape? (latex : String) : Option String := (unescapeFrom [] latex.toList).map String.ofList

/-- The text that has been escaped to the given one; a text that has not been escaped is left as it is. -/
def unescape (latex : String) : String := (unescape? latex).getD latex

/-! ### A prefix code -/

theorem writtenChar?_eq_some_iff : writtenChar? word = some c ↔ (escapeChar c).toList = word := by
  constructor
  · intro h
    unfold writtenChar? at h
    split at h
    · next d =>
      split at h
      · next hnone =>
        cases h
        rw [escapeChar_of_none (Option.isNone_iff_eq_none.mp hnone), String.toList_singleton]
      · cases h
    · obtain ⟨⟨d, s⟩, hfind, rfl⟩ := Option.map_eq_some_iff.mp h
      have hescapes : ∀ entry ∈ escapes, escapeChar entry.1 = entry.2 := by decide
      have hword := List.find?_some hfind
      rw [hescapes _ (List.mem_of_find?_eq_some hfind)]
      exact eq_of_beq hword
  · rintro rfl
    cases h : escapeOf? c with
    | none =>
      rw [escapeChar_of_none h, String.toList_singleton, writtenChar?, h]
      rfl
    | some s =>
      have hescapes : ∀ entry ∈ escapes, writtenChar? (escapeChar entry.1).toList = some entry.1 := by decide
      exact hescapes (c, s) (escapeOf?_eq_some_mem h)

/-- Every escape starts with a backslash, and a backslash does not stand for itself. -/
theorem exists_escapeChar_eq (c : Char) :
    (∃ rest, (escapeChar c).toList = '\\' :: rest ∧ ∃ s, (c, s) ∈ escapes) ∨
      (escapeChar c).toList = [c] ∧ c ≠ '\\' := by
  cases h : escapeOf? c with
  | none =>
    refine .inr ⟨by rw [escapeChar_of_none h, String.toList_singleton], ?_⟩
    rintro rfl
    cases h
  | some s =>
    have hescapes : ∀ entry ∈ escapes, (escapeChar entry.1).toList = '\\' :: (escapeChar entry.1).toList.tail := by
      decide
    exact .inl ⟨_, hescapes (c, s) (escapeOf?_eq_some_mem h), s, escapeOf?_eq_some_mem h⟩

/-- No character is written as the beginning of what another one is written as. -/
theorem eq_of_escapeChar_prefix (h : (escapeChar c).toList <+: (escapeChar d).toList) : c = d := by
  have hescapes : ∀ entry ∈ escapes, ∀ entry' ∈ escapes,
      (escapeChar entry.1).toList <+: (escapeChar entry'.1).toList → entry.1 = entry'.1 := by decide
  rcases exists_escapeChar_eq c with ⟨rest, hc, s, hs⟩ | ⟨hc, hne⟩ <;>
    rcases exists_escapeChar_eq d with ⟨rest', hd, t, ht⟩ | ⟨hd, hne'⟩
  · exact hescapes (c, s) hs (d, t) ht h
  · rw [hc, hd, List.cons_prefix_cons] at h
    exact absurd h.1.symm hne'
  · rw [hc, hd, List.cons_prefix_cons] at h
    exact absurd h.1 hne
  · rw [hc, hd, List.cons_prefix_cons] at h
    exact h.1

/-! ### Texts -/

/-- While a character is read, nothing has been read that another one would be written as. -/
theorem unescapeFrom_append {rest : List Char} (h : word ++ cs = (escapeChar c).toList) (hne : cs ≠ []) :
    unescapeFrom word (cs ++ rest) = (unescapeFrom [] rest).map (c :: ·) := by
  induction cs generalizing word with
  | nil => exact absurd rfl hne
  | cons e cs ih =>
    rw [List.cons_append, unescapeFrom]
    cases hwritten : writtenChar? (word ++ [e]) with
    | some d =>
      have hd := writtenChar?_eq_some_iff.mp hwritten
      have hprefix : (escapeChar d).toList <+: (escapeChar c).toList := ⟨cs, by rw [hd, ← h]; simp⟩
      obtain rfl := eq_of_escapeChar_prefix hprefix
      rw [hd] at h
      have hcs : cs = [] := by simpa using h
      rw [hcs, List.nil_append]
    | none =>
      have hcs : cs ≠ [] := by
        rintro rfl
        rw [writtenChar?_eq_some_iff.mpr h.symm] at hwritten
        cases hwritten
      exact ih (by simpa using h) hcs

theorem unescapeFrom_flatMap (cs : List Char) :
    unescapeFrom [] (cs.flatMap fun c => (escapeChar c).toList) = some cs := by
  induction cs with
  | nil => rfl
  | cons c cs ih =>
    have hne : (escapeChar c).toList ≠ [] := by simpa using escapeChar_ne_empty c
    rw [List.flatMap_cons, unescapeFrom_append (List.nil_append _) hne, ih]
    rfl

theorem eq_flatMap_of_unescapeFrom {ds : List Char} (h : unescapeFrom word cs = some ds) :
    word ++ cs = ds.flatMap fun c => (escapeChar c).toList := by
  induction cs generalizing word ds with
  | nil =>
    rw [unescapeFrom] at h
    split at h
    · next hword =>
      cases h
      rw [List.isEmpty_iff.mp hword]
      rfl
    · cases h
  | cons c cs ih =>
    rw [unescapeFrom] at h
    split at h
    · next d hd =>
      obtain ⟨ds, hds, rfl⟩ := Option.map_eq_some_iff.mp h
      have hcs := ih hds
      rw [List.nil_append] at hcs
      rw [List.flatMap_cons, writtenChar?_eq_some_iff.mp hd, ← hcs]
      simp
    · simpa using ih h

/-- What has been escaped can be read back, and from nothing else is a text read. -/
theorem unescape?_eq_some_iff {latex text : String} : unescape? latex = some text ↔ escape text = latex := by
  rw [escape_eq_escapeEach, ← String.toList_inj, toList_escapeEach, unescape?, Option.map_eq_some_iff]
  constructor
  · rintro ⟨cs, hcs, rfl⟩
    rw [String.toList_ofList]
    exact (eq_flatMap_of_unescapeFrom hcs).symm
  · rintro h
    rw [← h]
    exact ⟨text.toList, unescapeFrom_flatMap text.toList, String.ofList_toList⟩

/-- Escapes that start alike are told apart, and a character that is always escaped is not read by itself. -/
example :
    unescape? "a\\\\\\textasciitilde\x7b\x7d\\textbackslash\x7b\x7d" = some "a\n~\\" ∧ unescape? "~" = none := by
  decide

/-- Escaping loses nothing: every text can be read back from its escaped form and from no other one, so two texts are
    never escaped to the same, and texts are escaped one after the other as they are together. -/
theorem escape_losesNothing :
    (∀ text, unescape (escape text) = text) ∧ (∀ latex text, unescape? latex = some text ↔ escape text = latex) ∧
      Function.Injective escape ∧ ∀ s t, escape (s ++ t) = escape s ++ escape t := by
  have hback (text : String) : unescape (escape text) = text := by
    rw [unescape, unescape?_eq_some_iff.mpr rfl, Option.getD_some]
  refine ⟨hback, fun _ _ => unescape?_eq_some_iff, fun s t hst => ?_, fun s t => ?_⟩
  · rw [← hback s, hst, hback]
  · simp only [escape_eq_escapeEach, ← String.toList_inj, toList_escapeEach, String.toList_append, List.flatMap_append]

end Latex
end OfficeMath
