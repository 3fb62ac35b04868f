import OfficeMath.Proofs.Latex.ControlWord

/-! The levels of LaTeX. A group is one level below the text around it, and so is an environment. A text that is nested
    ends every group and every environment that it begins, so it can be put anywhere without a change to the levels of
    its surroundings, and what it writes at its own level is all that it adds to theirs. -/

namespace OfficeMath
namespace Latex

/-! ### Levels of lexemes -/

/-- The level after a control word, which begins an environment, or ends one, or is neither. -/
def enter? (level : Nat) (word : List Char) : Option Nat :=
  if word = "begin".toList then some (level + 1)
  else if word = "end".toList then if level = 0 then none else some (level - 1)
  else some level

/-- The level after a lexeme, by what comes after it if it begins a control word. -/
def Lexeme.next? (level : Nat) (ls : List Lexeme) : Lexeme → Option Nat
  | plain c =>
    if c = '{' then some (level + 1)
    else if c = '}' then if level = 0 then none else some (level - 1)
    else some level
  | escaped c => if c.isAlpha then enter? level (c :: leadingLetters ls) else some level

/-- The lexemes that are read outside all groups and environments. There are none if a group or an environment is ended
    that has not begun, or is not ended. -/
def outer? : Nat → List Lexeme → Option (List Lexeme)
  | level, [] => if level = 0 then some [] else none
  | level, l :: ls => do
    let outer ← outer? (← l.next? level ls) ls
    return if level = 0 then l :: outer else outer

variable {level next : Nat} {l : Lexeme} {ls ls' outer outer' : List Lexeme}

theorem outer?_cons (hnext : l.next? level ls = some next) (h : outer? next ls = some outer) :
    outer? level (l :: ls) = some (if level = 0 then l :: outer else outer) := by
  rw [outer?, hnext]
  dsimp only [bind, Option.bind_some]
  rw [h]
  rfl

theorem Lexeme.next?_append (hstart : leadingLetters ls' = []) (l : Lexeme) :
    l.next? level (ls ++ ls') = l.next? level ls := by
  cases l with
  | plain c => rfl
  | escaped c => rw [next?, next?, leadingLetters_append fun _ _ _ => hstart]

/-- Lexemes that end what they begin are followed at the level at which they have started. -/
theorem outer?_append (h : outer? level ls = some outer) (hstart : leadingLetters ls' = [])
    (h' : outer? 0 ls' = some outer') : outer? level (ls ++ ls') = some (outer ++ outer') := by
  induction ls generalizing level outer with
  | nil =>
    rw [outer?] at h
    split at h
    · next hlevel =>
      cases h
      rw [hlevel, List.nil_append, h', List.nil_append]
    · cases h
  | cons l ls ih =>
    obtain ⟨next, hnext, h⟩ := Option.bind_eq_some_iff.mp h
    obtain ⟨rest, hrest, h⟩ := Option.bind_eq_some_iff.mp h
    obtain rfl := Option.some.inj h
    rw [List.cons_append, outer?_cons ((Lexeme.next?_append hstart l).trans hnext) (ih hrest)]
    split <;> rfl

/-- No cells or rows are parted by the lexemes. -/
def Unparted (ls : List Lexeme) : Prop := .plain '&' ∉ ls ∧ .escaped '\\' ∉ ls

theorem Unparted.append (h : Unparted ls) (h' : Unparted ls') : Unparted (ls ++ ls') := by
  simp only [Unparted, List.mem_append, not_or] at h h' ⊢
  exact ⟨⟨h.1, h'.1⟩, h.2, h'.2⟩

/-! ### Scanning -/

/-- Letters with which one of the control words starts that begin and end environments. -/
def beginsKeyword (letters : List Char) : Bool :=
  letters.isPrefixOf "begin".toList || letters.isPrefixOf "end".toList

theorem enter?_append (h : beginsKeyword letters = false) (level : Nat) (rest : List Char) :
    enter? level (letters ++ rest) = some level := by
  simp only [beginsKeyword, Bool.or_eq_false_iff] at h
  have hne {word : List Char} (hword : letters.isPrefixOf word = false) : letters ++ rest ≠ word := by
    rintro rfl
    exact Bool.eq_false_iff.mp hword (List.isPrefixOf_iff_prefix.mpr (List.prefix_append letters rest))
  rw [enter?, if_neg (hne h.1), if_neg (hne h.2)]

/-- Where a scanner stands: in the text, behind a backslash, or behind one and letters that begin a keyword. -/
inductive Mode where
  | text
  | escaping
  | word (letters : List Char)
  deriving DecidableEq

/-- What a scanner keeps in mind: the level, and where it stands. -/
structure Scanner where
  level : Nat
  mode : Mode
  deriving DecidableEq

namespace Scanner

/-- Reads a character. If it is not permitted to part rows and cells at the level zero, they can only be parted below.
    A backslash before a blank character is refused: the blank might be trimmed. -/
def step (permits : Bool) (r : Scanner) (c : Char) : Option Scanner :=
  match r.mode with
  | .text =>
    if c = '\\' then some ⟨r.level, .escaping⟩
    else if c = '&' ∧ permits = false ∧ r.level = 0 then none
    else ((Lexeme.plain c).next? r.level []).map (⟨·, .text⟩)
  | .escaping =>
    if Text.isBlank c ∨ c = '\\' ∧ permits = false ∧ r.level = 0 then none
    else some ⟨r.level, if beginsKeyword [c] then .word [c] else .text⟩
  | .word letters =>
    if c.isAlpha then some ⟨r.level, if beginsKeyword (letters ++ [c]) then .word (letters ++ [c]) else .text⟩
    else if c = '{' then (enter? r.level letters).map fun next => ⟨next + 1, .text⟩
    else none

def read (permits : Bool) (r : Scanner) (cs : List Char) : Option Scanner := cs.foldlM (step permits) r

variable {permits permits' : Bool} {r r' : Scanner} {c : Char} {cs ds : List Char}

theorem read_cons : r.read permits (c :: cs) = (r.step permits c).bind (read permits · cs) := rfl

theorem read_append : r.read permits (cs ++ ds) = (r.read permits cs).bind (read permits · ds) := List.foldlM_append

theorem read_append_of_eq (h : r.read permits cs = some r') : r.read permits (cs ++ ds) = r'.read permits ds := by
  rw [read_append, h]
  rfl

theorem next?_plain_add {level next : Nat} (k : Nat) (h : (Lexeme.plain c).next? level [] = some next) :
    (Lexeme.plain c).next? (level + k) [] = some (next + k) := by
  unfold Lexeme.next? at h ⊢
  dsimp only at h ⊢
  split_ifs at h ⊢ <;> cases h
  · rw [Nat.add_right_comm]
  · omega
  · rw [Nat.sub_add_comm (by omega)]
  · rfl

theorem enter?_add {level next : Nat} {letters : List Char} (k : Nat) (h : enter? level letters = some next) :
    enter? (level + k) letters = some (next + k) := by
  unfold enter? at h ⊢
  split_ifs at h ⊢ <;> cases h
  · rw [Nat.add_right_comm]
  · omega
  · rw [Nat.sub_add_comm (by omega)]
  · rfl

theorem refused_of_add {k level : Nat} (hpermits : permits = true → permits' = true ∨ k ≠ 0)
    (h : permits' = false ∧ level + k = 0) : permits = false ∧ level = 0 := by
  obtain ⟨rfl, hlevel⟩ := h
  have hk : k = 0 := by omega
  exact ⟨by simpa [hk] using hpermits, by omega⟩

/-- Levels around a text do not matter to a scanner that ends nothing from outside. Below the level zero rows and cells
    can be parted in any case. -/
theorem step_add {k : Nat} (hpermits : permits = true → permits' = true ∨ k ≠ 0) (h : r.step permits c = some r') :
    step permits' ⟨r.level + k, r.mode⟩ c = some ⟨r'.level + k, r'.mode⟩ := by
  obtain ⟨level, mode⟩ := r
  cases mode with
  | text =>
    unfold step at h ⊢
    dsimp only at h ⊢
    split at h
    · next hc =>
      cases h
      rw [if_pos hc]
    · next hc =>
      split at h
      · cases h
      · next hrefused =>
        obtain ⟨next, hnext, rfl⟩ := Option.map_eq_some_iff.mp h
        rw [if_neg hc, if_neg fun hr => hrefused ⟨hr.1, refused_of_add hpermits hr.2⟩, next?_plain_add k hnext]
        rfl
  | escaping =>
    unfold step at h ⊢
    dsimp only at h ⊢
    split at h
    · cases h
    · next hrefused =>
      cases h
      rw [if_neg fun hr => hrefused (hr.imp_right fun hr => ⟨hr.1, refused_of_add hpermits hr.2⟩)]
  | word letters =>
    unfold step at h ⊢
    dsimp only at h ⊢
    split at h
    · next hc =>
      cases h
      rw [if_pos hc]
    · next hc =>
      split at h
      · next hopen =>
        obtain ⟨next, hnext, rfl⟩ := Option.map_eq_some_iff.mp h
        rw [if_neg hc, if_pos hopen, enter?_add k hnext, Option.map_some, Nat.add_right_comm]
      · cases h

theorem read_add {k : Nat} (hpermits : permits = true → permits' = true ∨ k ≠ 0)
    (h : r.read permits cs = some r') :
    read permits' ⟨r.level + k, r.mode⟩ cs = some ⟨r'.level + k, r'.mode⟩ := by
  induction cs generalizing r with
  | nil =>
    cases h
    rfl
  | cons c cs ih =>
    rw [read_cons] at h ⊢
    obtain ⟨s, hs, h⟩ := Option.bind_eq_some_iff.mp h
    rw [step_add hpermits hs]
    exact ih h

theorem step_text (hspecial : c ∉ Reader.special) (hcell : c ≠ '&') (level : Nat) :
    step permits ⟨level, .text⟩ c = some ⟨level, .text⟩ := by
  simp only [Reader.special, List.mem_cons, not_or] at hspecial
  simp [step, Lexeme.next?, hspecial, hcell]

-- a backslash and a keyword that wait do not take a blank, and nothing else changes at one
theorem step_blank (hc : Text.isBlank c = true) (h : r.step permits c = some r') : r' = r := by
  obtain ⟨level, mode⟩ := r
  have hspecial : c ∉ Reader.special := fun hmem => by simp [Reader.isBlank_of_special hmem] at hc
  cases mode with
  | text =>
    have hcell : c ≠ '&' := by
      rintro rfl
      exact absurd hc (by decide)
    rw [step_text hspecial hcell] at h
    exact (Option.some.inj h).symm
  | escaping => simp [step, hc] at h
  | word letters =>
    have hopen : c ≠ '{' := by
      rintro rfl
      exact absurd hc (by decide)
    simp [step, Text.isAlpha_of_isBlank hc, hopen] at h

theorem read_blank (hblank : ∀ c ∈ cs, Text.isBlank c = true) (h : r.read permits cs = some r') : r' = r := by
  induction cs generalizing r with
  | nil => exact (Option.some.inj h).symm
  | cons c cs ih =>
    rw [read_cons] at h
    obtain ⟨s, hs, h⟩ := Option.bind_eq_some_iff.mp h
    rw [step_blank (hblank c (List.mem_cons_self ..)) hs] at h
    exact ih (fun d hd => hblank d (List.mem_cons_of_mem _ hd)) h

end Scanner

/-! ### Nested texts -/

/-- A scanner comes out of the text as it went in. If it is not permitted to, the text parts no rows or cells at its own
    level. -/
def Nested (permits : Bool) (latex : String) : Prop :=
  ∀ level, Scanner.read permits ⟨level, .text⟩ latex.toList = some ⟨level, .text⟩

namespace Nested

variable {permits permits' : Bool} {s t : String}

theorem of_read (h : Scanner.read permits ⟨0, .text⟩ s.toList = some ⟨0, .text⟩) : Nested permits s := fun level => by
  simpa using @Scanner.read_add permits permits _ _ _ level .inl h

instance : DecidablePred (Nested permits) := fun s =>
  decidable_of_iff (Scanner.read permits ⟨0, .text⟩ s.toList = some ⟨0, .text⟩) ⟨of_read, fun h => h 0⟩

theorem permit (h : Nested permits s) : Nested true s :=
  of_read (Scanner.read_add (k := 0) (fun _ => .inl rfl) (h 0))

theorem of_unparted (h : Nested false s) : Nested permits s :=
  of_read (@Scanner.read_add false permits _ _ _ 0 nofun (h 0))

theorem append (hs : Nested permits s) (ht : Nested permits t) : Nested permits (s ++ t) := fun level => by
  rw [String.toList_append, Scanner.read_append_of_eq (hs level)]
  exact ht level

theorem below (h : Nested true s) (level : Nat) :
    Scanner.read permits ⟨level + 1, .text⟩ s.toList = some ⟨level + 1, .text⟩ :=
  Scanner.read_add (k := 1) (fun _ => .inr Nat.one_ne_zero) (h level)

theorem braced (h : Nested true s) : Nested permits (braced s) := fun level => by
  rw [toList_braced, Scanner.read_cons]
  show Scanner.read permits ⟨level + 1, .text⟩ (s.toList ++ ['}']) = some ⟨level, .text⟩
  rw [Scanner.read_append_of_eq (h.below level)]
  rfl

theorem singleton {c : Char} (hspecial : c ∉ Reader.special) (hcell : c ≠ '&') :
    Nested permits (String.singleton c) := fun level => by
  rw [String.toList_singleton, Scanner.read_cons, Scanner.step_text hspecial hcell]
  rfl

/-- Blank characters do not matter, and no backslash takes one with it, so they can be left out at the ends. -/
theorem trim (h : Nested permits s) : Nested permits (Text.trim s) := fun level => by
  obtain ⟨before, after, hsplit, hbefore, hafter⟩ := Text.exists_eq_append_trimChars s.toList
  have h := h level
  rw [hsplit, Scanner.read_append] at h
  obtain ⟨r, hr, h⟩ := Option.bind_eq_some_iff.mp h
  rw [Scanner.read_blank hbefore hr, Scanner.read_append] at h
  obtain ⟨r', hr', h⟩ := Option.bind_eq_some_iff.mp h
  rw [Text.toList_trim, hr', Scanner.read_blank hafter h]

end Nested

theorem nested_fixedTexts : ∀ texts ∈ fixedTexts, ∀ s ∈ texts, s ∉ arrayTexts → Nested false s := by decide +kernel

/-- What is put together from nested texts is nested; in braces rows and cells may be parted. -/
theorem kept_nested (permits : Bool) : Kept (Nested true) (Nested permits) where
  weaken hs := hs.permit
  append hs ht _ := hs.append ht
  braced hs := hs.braced
  trim hs := hs.trim
  plain c hc := by
    refine .singleton (fun hspecial => escapeOf?_ne_none_of_special hspecial hc) ?_
    rintro rfl
    cases hc
  fixed texts htexts s hs harray := .of_unparted (nested_fixedTexts texts htexts s hs harray)

theorem nested_cellSeparator : Nested true cellSeparator := by decide

theorem nested_lineBreak : Nested true "\\\\" := by decide

/-- An environment is nested if its rows are, and it parts them one level below. -/
theorem encloses_nested (permits : Bool) : Encloses (Nested true) (Nested permits) := by
  intro name hname rows hrows level
  have hbegin : ∀ name ∈ environmentNames, ∀ permits : Bool,
      Scanner.read permits ⟨0, .text⟩ (command "\\begin" name ++ "\n").toList = some ⟨1, .text⟩ := by decide +kernel
  have hend : ∀ name ∈ environmentNames, ∀ permits : Bool,
      Scanner.read permits ⟨1, .text⟩ ("\n" ++ command "\\end" name).toList = some ⟨0, .text⟩ := by decide +kernel
  have hbegin : Scanner.read permits ⟨level, .text⟩ (command "\\begin" name ++ "\n").toList =
      some ⟨level + 1, .text⟩ := by
    simpa [Nat.add_comm] using @Scanner.read_add permits permits _ _ _ level .inl (hbegin name hname permits)
  have hend : Scanner.read permits ⟨level + 1, .text⟩ ("\n" ++ command "\\end" name).toList =
      some ⟨level, .text⟩ := by
    simpa [Nat.add_comm] using @Scanner.read_add permits permits _ _ _ level .inl (hend name hname permits)
  have hbody : Nested true (rowSeparator.intercalate rows) :=
    (kept_nested true).intercalate (by decide) rfl rfl hrows
  have hsplit : (environment name rows).toList = (command "\\begin" name ++ "\n").toList ++
      ((rowSeparator.intercalate rows).toList ++ ("\n" ++ command "\\end" name).toList) := by
    simp only [environment, String.toList_append, List.append_assoc]
  rw [hsplit, Scanner.read_append_of_eq hbegin, Scanner.read_append_of_eq (hbody.below level), hend]

/-! ### Scanning against lexemes -/

namespace Scanner

/-- What the lexemes are that a scanner has yet to read, by where it stands, and that it has an end to its level. If it is
    not permitted to, it parts no rows and cells at the level zero. -/
def Ahead (permits : Bool) (r : Scanner) (cs : List Char) : Prop :=
  match r.mode with
  | .text => ∃ ls outer, lexemes? cs = some ls ∧ outer? r.level ls = some outer ∧ (permits = false → Unparted outer)
  | .escaping => ∃ ls outer, lexemes? ('\\' :: cs) = some ls ∧ outer? r.level ls = some outer ∧
      (permits = false → Unparted outer)
  | .word letters => ∃ ls next outer, lexemes? cs = some ls ∧
      enter? r.level (letters ++ leadingLetters ls) = some next ∧ outer? next ls = some outer ∧
      (permits = false → Unparted outer)

variable {permits : Bool} {r r' : Scanner} {c : Char} {cs : List Char} {l : Lexeme} {ls outer : List Lexeme}
  {level next : Nat}

theorem exists_outer_cons (hnext : l.next? level ls = some next) (h : outer? next ls = some outer)
    (houter : permits = false → Unparted outer)
    (hl : permits = false → level = 0 → l ≠ .plain '&' ∧ l ≠ .escaped '\\') :
    ∃ outer', outer? level (l :: ls) = some outer' ∧ (permits = false → Unparted outer') := by
  refine ⟨_, outer?_cons hnext h, fun hpermits => ?_⟩
  split
  · next hlevel =>
    obtain ⟨hcell, hbreak⟩ := hl hpermits hlevel
    have hcons : Unparted [l] := by simpa [Unparted, eq_comm] using ⟨hcell, hbreak⟩
    exact hcons.append (houter hpermits)
  · exact houter hpermits

/-- Letters that do not begin a keyword are those of a control word that leaves the level as it is. -/
theorem ahead_word {letters : List Char}
    (h : Ahead permits ⟨level, if beginsKeyword letters then .word letters else .text⟩ cs) :
    Ahead permits ⟨level, .word letters⟩ cs := by
  split at h
  · exact h
  · next hletters =>
    obtain ⟨ls, outer, hls, houter, hparted⟩ := h
    exact ⟨ls, level, outer, hls, enter?_append (Bool.eq_false_iff.mpr hletters) level _, houter, hparted⟩

theorem ahead_text (hstep : step permits ⟨level, .text⟩ c = some r') (h : r'.Ahead permits cs) :
    Ahead permits ⟨level, .text⟩ (c :: cs) := by
  unfold step at hstep
  dsimp only at hstep
  split at hstep
  · next hc =>
    cases hstep
    rw [hc]
    exact h
  · next hc =>
    split at hstep
    · cases hstep
    · next hrefused =>
      obtain ⟨next, hnext, rfl⟩ := Option.map_eq_some_iff.mp hstep
      obtain ⟨ls, outer, hls, houter, hparted⟩ := h
      obtain ⟨outer', houter', hparted'⟩ : ∃ outer', outer? level (.plain c :: ls) = some outer' ∧
          (permits = false → Unparted outer') := by
        refine exists_outer_cons hnext houter hparted fun hpermits hlevel => ⟨?_, by simp⟩
        rintro ⟨⟩
        exact hrefused ⟨rfl, hpermits, hlevel⟩
      exact ⟨.plain c :: ls, outer', by rw [lexemes?_cons_of_ne hc, hls]; rfl, houter', hparted'⟩

theorem ahead_escaping (hstep : step permits ⟨level, .escaping⟩ c = some r') (h : r'.Ahead permits cs) :
    Ahead permits ⟨level, .escaping⟩ (c :: cs) := by
  unfold step at hstep
  dsimp only at hstep
  split at hstep
  · cases hstep
  · next hrefused =>
    rw [not_or] at hrefused
    cases hstep
    obtain ⟨ls, next, outer, hls, henter, houter, hparted⟩ := ahead_word h
    have hnext : (Lexeme.escaped c).next? level ls = some next := by
      rw [Lexeme.next?]
      split
      · exact henter
      · next hletter =>
        have hkeyword : beginsKeyword [c] = false := by
          refine Bool.eq_false_iff.mpr fun hkeyword => hletter ?_
          have hc : c = 'b' ∨ c = 'e' := by simpa [beginsKeyword, List.isPrefixOf] using hkeyword
          rcases hc with rfl | rfl <;> rfl
        exact (enter?_append hkeyword level _).symm.trans henter
    obtain ⟨outer', houter', hparted'⟩ : ∃ outer', outer? level (.escaped c :: ls) = some outer' ∧
        (permits = false → Unparted outer') := by
      refine exists_outer_cons hnext houter hparted fun hpermits hlevel => ⟨by simp, ?_⟩
      rintro ⟨⟩
      exact hrefused.2 ⟨rfl, hpermits, hlevel⟩
    exact ⟨.escaped c :: ls, outer', by rw [lexemes?, if_pos rfl, hls]; rfl, houter', hparted'⟩

theorem ahead_letters {letters : List Char} (hstep : step permits ⟨level, .word letters⟩ c = some r')
    (h : r'.Ahead permits cs) : Ahead permits ⟨level, .word letters⟩ (c :: cs) := by
  unfold step at hstep
  dsimp only at hstep
  split at hstep
  · next hc =>
    cases hstep
    obtain ⟨ls, next, outer, hls, henter, houter, hparted⟩ := ahead_word h
    obtain ⟨hescape, hopen, hclose, hcell⟩ : c ≠ '\\' ∧ c ≠ '{' ∧ c ≠ '}' ∧ c ≠ '&' := by
      refine ⟨?_, ?_, ?_, ?_⟩ <;> rintro rfl <;> exact absurd hc (by decide)
    have hnext : (Lexeme.plain c).next? next ls = some next := by
      rw [Lexeme.next?, if_neg hopen, if_neg hclose]
    have hl : Lexeme.plain c ≠ .plain '&' ∧ Lexeme.plain c ≠ .escaped '\\' := by simpa using hcell
    obtain ⟨outer', houter', hparted'⟩ := exists_outer_cons hnext houter hparted fun _ _ => hl
    refine ⟨.plain c :: ls, next, outer', ?_, ?_, houter', hparted'⟩
    · rw [lexemes?_cons_of_ne hescape, hls]
      rfl
    · rw [leadingLetters, if_pos hc, List.append_cons]
      exact henter
  · next hc =>
    split at hstep
    · next hopen =>
      obtain ⟨next, hnext, rfl⟩ := Option.map_eq_some_iff.mp hstep
      obtain ⟨ls, outer, hls, houter, hparted⟩ := h
      have hl : Lexeme.plain c ≠ .plain '&' ∧ Lexeme.plain c ≠ .escaped '\\' := by
        rw [hopen]
        decide
      have hbelow : (Lexeme.plain c).next? next ls = some (next + 1) := if_pos hopen
      obtain ⟨outer', houter', hparted'⟩ := exists_outer_cons hbelow houter hparted fun _ _ => hl
      refine ⟨.plain c :: ls, next, outer', ?_, ?_, houter', hparted'⟩
      · rw [lexemes?_cons_of_ne (hopen ▸ by decide), hls]
        rfl
      · rw [leadingLetters, if_neg hc, List.append_nil]
        exact hnext
    · cases hstep

theorem ahead_cons (hstep : r.step permits c = some r') (h : r'.Ahead permits cs) : r.Ahead permits (c :: cs) := by
  obtain ⟨level, mode⟩ := r
  cases mode with
  | text => exact ahead_text hstep h
  | escaping => exact ahead_escaping hstep h
  | word letters => exact ahead_letters hstep h

theorem ahead_of_read (h : r.read permits cs = some ⟨0, .text⟩) : r.Ahead permits cs := by
  induction cs generalizing r with
  | nil =>
    cases h
    exact ⟨[], [], rfl, rfl, fun _ => ⟨List.not_mem_nil, List.not_mem_nil⟩⟩
  | cons c cs ih =>
    rw [read_cons] at h
    obtain ⟨s, hs, h⟩ := Option.bind_eq_some_iff.mp h
    exact ahead_cons hs (ih h)

end Scanner

/-- A nested text has lexemes that end all that they begin. If it is not permitted to, it parts no rows and cells outside
    its groups and environments. -/
theorem Nested.exists_outer {permits : Bool} {s : String} (h : Nested permits s) :
    ∃ ls outer, lexemes? s.toList = some ls ∧ outer? 0 ls = some outer ∧ (permits = false → Unparted outer) :=
  Scanner.ahead_of_read (h 0)

end Latex
end OfficeMath
