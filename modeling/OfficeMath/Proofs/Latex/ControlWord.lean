import OfficeMath.Proofs.Latex.Closed

/-! Control words. A backslash before a letter begins a control word, which takes in all the letters that follow. In a
    text that is put together with care no control word takes in a letter that is not its own, so that every control
    word is a command that some construct or table has. -/

namespace OfficeMath

theorem Text.isAlpha_of_isBlank {c : Char} (h : isBlank c = true) : c.isAlpha = false := by
  rw [Bool.eq_false_iff]
  intro hletter
  have hcode : 65 ≤ c.toNat ∧ c.toNat ≤ 90 ∨ 97 ≤ c.toNat ∧ c.toNat ≤ 122 := by
    simpa [Char.isAlpha, Char.isUpper, Char.isLower, UInt32.le_iff_toNat_le] using hletter
  simp only [isBlank, Bool.or_eq_true, Bool.and_eq_true, decide_eq_true_eq, beq_iff_eq] at h
  omega

namespace Latex

/-! ### Control words of lexemes -/

/-- The letters with which the lexemes start. -/
def leadingLetters : List Lexeme → List Char
  | .plain c :: ls => if c.isAlpha then c :: leadingLetters ls else []
  | _ => []

/-- The control words: an escaped letter begins one, and all letters that follow belong to it. -/
def controlWords : List Lexeme → List String
  | [] => []
  | .plain _ :: ls => controlWords ls
  | .escaped c :: ls =>
    if c.isAlpha then String.ofList (c :: leadingLetters ls) :: controlWords ls else controlWords ls

/-- The commands: the control words of the texts that are written as they stand. -/
def commands : List String :=
  fixedTexts.flatten.flatMap fun s => ((lexemes? s.toList).map controlWords).getD []

/-! ### Lexemes and their characters -/

variable {cs ds : List Char} {ls ls' : List Lexeme} {s t : String}

/-- The lexeme as it is written. -/
def Lexeme.chars : Lexeme → List Char
  | plain c => [c]
  | escaped c => ['\\', c]

theorem Lexeme.flatMap_chars_map_plain (cs : List Char) : (cs.map plain).flatMap chars = cs := by
  rw [List.flatMap_map]
  exact List.flatMap_singleton' cs

theorem lexemes?_cons_of_ne {c : Char} (hc : c ≠ '\\') (cs : List Char) :
    lexemes? (c :: cs) = (lexemes? cs).map (.plain c :: ·) := by
  cases cs with
  | nil => simp [lexemes?, hc]
  | cons d cs => rw [lexemes?, if_neg hc]

/-- The lexemes of a text spell it, and no backslash is left by itself. -/
theorem lexemes?_eq_some_iff : lexemes? cs = some ls ↔ ls.flatMap Lexeme.chars = cs ∧ .plain '\\' ∉ ls := by
  constructor
  · intro h
    induction cs using lexemes?.induct generalizing ls with
    | case1 =>
      cases h
      exact ⟨rfl, List.not_mem_nil⟩
    | case2 => cases h
    | case3 c hc =>
      rw [lexemes?_cons_of_ne hc] at h
      cases h
      exact ⟨rfl, by simpa [eq_comm] using hc⟩
    | case4 c cs ih =>
      obtain ⟨ls, hls, rfl⟩ := Option.map_eq_some_iff.mp h
      obtain ⟨rfl, hmem⟩ := ih hls
      exact ⟨rfl, by simpa using hmem⟩
    | case5 c b cs hc ih =>
      rw [lexemes?_cons_of_ne hc] at h
      obtain ⟨ls, hls, rfl⟩ := Option.map_eq_some_iff.mp h
      obtain ⟨hchars, hmem⟩ := ih hls
      refine ⟨?_, by simpa [eq_comm] using ⟨hc, hmem⟩⟩
      rw [List.flatMap_cons, hchars]
      rfl
  · rintro ⟨rfl, hmem⟩
    induction ls with
    | nil => rfl
    | cons l ls ih =>
      rw [List.mem_cons, not_or] at hmem
      have ih := ih hmem.2
      cases l with
      | plain c =>
        have hc : c ≠ '\\' := by
          rintro rfl
          exact hmem.1 rfl
        rw [List.flatMap_cons, Lexeme.chars, List.singleton_append, lexemes?_cons_of_ne hc, ih, Option.map_some]
      | escaped c =>
        rw [List.flatMap_cons]
        simp only [Lexeme.chars, List.cons_append, List.nil_append, lexemes?, if_true, ih, Option.map_some]

theorem lexemes?_append (hs : lexemes? cs = some ls) (ht : lexemes? ds = some ls') :
    lexemes? (cs ++ ds) = some (ls ++ ls') := by
  obtain ⟨hs, hls⟩ := lexemes?_eq_some_iff.mp hs
  obtain ⟨ht, hls'⟩ := lexemes?_eq_some_iff.mp ht
  exact lexemes?_eq_some_iff.mpr ⟨by rw [List.flatMap_append, hs, ht], by simp [hls, hls']⟩

theorem lexemes?_of_ne (h : ∀ c ∈ cs, c ≠ '\\') : lexemes? cs = some (cs.map .plain) :=
  lexemes?_eq_some_iff.mpr ⟨Lexeme.flatMap_chars_map_plain cs, by simpa using fun hmem => h _ hmem rfl⟩

/-! ### Control words one after the other -/

/-- The lexemes end in a control word. -/
def EndsInWord (ls : List Lexeme) : Prop :=
  ∃ before c letters, ls = before ++ .escaped c :: List.map .plain letters ∧ ∀ d ∈ c :: letters, d.isAlpha = true

theorem EndsInWord.cons (l : Lexeme) (h : EndsInWord ls) : EndsInWord (l :: ls) := by
  obtain ⟨before, c, letters, rfl, hletters⟩ := h
  exact ⟨l :: before, c, letters, rfl, hletters⟩

theorem leadingLetters_append (h : ∀ letters : List Char, ls = letters.map .plain →
    (∀ c ∈ letters, c.isAlpha = true) → leadingLetters ls' = []) : leadingLetters (ls ++ ls') = leadingLetters ls := by
  induction ls with
  | nil => exact h [] rfl (by simp)
  | cons l ls ih =>
    cases l with
    | escaped c => rfl
    | plain c =>
      rw [List.cons_append, leadingLetters, leadingLetters]
      split
      · next hc =>
        rw [ih]
        rintro letters rfl hletters
        exact h (c :: letters) rfl (List.forall_mem_cons.mpr ⟨hc, hletters⟩)
      · rfl

/-- No control word runs on where the first lexemes end in none or the second ones start with no letter. -/
theorem controlWords_append (h : EndsInWord ls → leadingLetters ls' = []) :
    controlWords (ls ++ ls') = controlWords ls ++ controlWords ls' := by
  induction ls with
  | nil => rfl
  | cons l ls ih =>
    have ih := ih fun hend => h (hend.cons l)
    cases l with
    | plain c => exact ih
    | escaped c =>
      rw [List.cons_append, controlWords, controlWords]
      split
      · next hc =>
        rw [ih, List.cons_append, leadingLetters_append]
        rintro letters rfl hletters
        exact h ⟨[], c, letters, rfl, List.forall_mem_cons.mpr ⟨hc, hletters⟩⟩
      · exact ih

theorem controlWords_map_plain_append (cs : List Char) (ls : List Lexeme) :
    controlWords (cs.map .plain ++ ls) = controlWords ls := by
  induction cs with
  | nil => rfl
  | cons c cs ih => exact ih

/-! ### Texts one after the other -/

theorem endsInControlWord_of_endsInWord (h : lexemes? cs = some ls) (hend : EndsInWord ls) :
    endsInControlWord cs.reverse = true := by
  obtain ⟨before, c, letters, rfl, hletters⟩ := hend
  obtain ⟨rfl, -⟩ := lexemes?_eq_some_iff.mp h
  have hcs : ((before ++ Lexeme.escaped c :: letters.map Lexeme.plain).flatMap Lexeme.chars).reverse =
      (c :: letters).reverse ++ '\\' :: (before.flatMap Lexeme.chars).reverse := by
    rw [List.flatMap_append, List.flatMap_cons, Lexeme.flatMap_chars_map_plain]
    simp [Lexeme.chars]
  have hletters : ∀ d ∈ (c :: letters).reverse, d.isAlpha = true := fun d hd => hletters d (List.mem_reverse.mp hd)
  rw [hcs]
  cases hreverse : (c :: letters).reverse with
  | nil => simp at hreverse
  | cons d ds =>
    rw [hreverse, List.forall_mem_cons] at hletters
    rw [List.cons_append, endsInControlWord, hletters.1, List.dropWhile_append_of_pos hletters.2]
    rfl

theorem leadingLetters_of_startsWithLetter (h : lexemes? s.toList = some ls) (hs : startsWithLetter s = false) :
    leadingLetters ls = [] := by
  obtain ⟨hchars, -⟩ := lexemes?_eq_some_iff.mp h
  rw [startsWithLetter, ← hchars] at hs
  cases ls with
  | nil => rfl
  | cons l ls =>
    cases l with
    | escaped c => rfl
    | plain c =>
      have hc : c.isAlpha = false := hs
      rw [leadingLetters, hc]
      rfl

theorem controlWords_append_of_runsOn (hs : lexemes? s.toList = some ls) (ht : lexemes? t.toList = some ls')
    (h : runsOn s t = false) : controlWords (ls ++ ls') = controlWords ls ++ controlWords ls' := by
  refine controlWords_append fun hend => leadingLetters_of_startsWithLetter ht ?_
  rwa [runsOn, endsInControlWord_of_endsInWord hs hend, Bool.and_true] at h

/-! ### Separated texts -/

theorem Closed.exists_lexemes (h : Closed s) : ∃ ls, lexemes? s.toList = some ls := by
  obtain ⟨ls, hls, -⟩ := h.lexicallyClosed
  exact ⟨ls, hls⟩

/-- The text is closed, and every control word in it is a command. -/
structure Separated (s : String) : Prop where
  closed : Closed s
  mem_commands : ∀ ls, lexemes? s.toList = some ls → controlWords ls ⊆ commands

namespace Separated

theorem of_lexemes (hs : Closed s) (h : lexemes? s.toList = some ls) (hwords : controlWords ls ⊆ commands) :
    Separated s where
  closed := hs
  mem_commands _ h' := Option.some.inj (h.symm.trans h') ▸ hwords

theorem append (hs : Separated s) (ht : Separated t) (h : runsOn s t = false) : Separated (s ++ t) := by
  obtain ⟨ls, hls⟩ := hs.closed.exists_lexemes
  obtain ⟨ls', hls'⟩ := ht.closed.exists_lexemes
  have hwords := List.append_subset.mpr ⟨hs.mem_commands ls hls, ht.mem_commands ls' hls'⟩
  rw [← controlWords_append_of_runsOn hls hls' h] at hwords
  exact of_lexemes (hs.closed.append ht.closed) (String.toList_append ▸ lexemes?_append hls hls') hwords

theorem braced (hs : Separated s) : Separated (braced s) := by
  obtain ⟨ls, hls⟩ := hs.closed.exists_lexemes
  have hbraced : lexemes? (Latex.braced s).toList = some (.plain '{' :: (ls ++ [.plain '}'])) := by
    have hopen : lexemes? ['{'] = some [.plain '{'] := rfl
    have hclose : lexemes? ['}'] = some [.plain '}'] := rfl
    rw [toList_braced]
    exact lexemes?_append hopen (lexemes?_append hls hclose)
  refine of_lexemes hs.closed.braced hbraced ?_
  rw [controlWords, controlWords_append fun _ => rfl]
  exact List.append_subset.mpr ⟨hs.mem_commands ls hls, List.nil_subset _⟩

theorem trim (hs : Separated s) : Separated (Text.trim s) := by
  obtain ⟨before, after, hsplit, hbefore, hafter⟩ := Text.exists_eq_append_trimChars s.toList
  obtain ⟨ls, hls⟩ := hs.closed.trim.exists_lexemes
  have hplain {cs : List Char} (h : ∀ c ∈ cs, Text.isBlank c = true) : lexemes? cs = some (cs.map .plain) := by
    refine lexemes?_of_ne fun c hc => ?_
    rintro rfl
    exact absurd (h _ hc) (by decide)
  have hwhole : lexemes? s.toList = some (before.map .plain ++ (ls ++ after.map .plain)) := by
    rw [Text.toList_trim] at hls
    rw [hsplit]
    exact lexemes?_append (hplain hbefore) (lexemes?_append hls (hplain hafter))
  have hafter : leadingLetters (after.map .plain) = [] := by
    cases after with
    | nil => rfl
    | cons c cs =>
      rw [List.map_cons, leadingLetters, Text.isAlpha_of_isBlank (hafter c (List.mem_cons_self ..))]
      rfl
  have hwords := hs.mem_commands _ hwhole
  rw [controlWords_map_plain_append, controlWords_append fun _ => hafter] at hwords
  exact of_lexemes hs.closed.trim hls (List.append_subset.mp hwords).1

end Separated

theorem inherited_separated : Inherited Separated where
  append hs ht h := hs.append ht h
  braced hs := hs.braced
  trim hs := hs.trim
  plain c hc := by
    have hne : c ≠ '\\' := by
      rintro rfl
      cases hc
    have hlexemes : lexemes? (String.singleton c).toList = some [.plain c] := by
      rw [String.toList_singleton]
      exact lexemes?_of_ne (by simpa using hne)
    exact .of_lexemes (inherited_closed.plain c hc) hlexemes (List.nil_subset _)
  fixed texts htexts s hs := by
    refine ⟨inherited_closed.fixed texts htexts s hs, fun ls hls w hw => ?_⟩
    refine List.mem_flatMap.mpr ⟨s, List.mem_flatten.mpr ⟨texts, htexts, hs⟩, ?_⟩
    rwa [hls, Option.map_some, Option.getD_some]

end Latex
end OfficeMath
