import OfficeMath.Proofs.Latex.Token
import OfficeMath.Typeset.Array

/-! Fences that grow. The command before such a fence takes one token for the delimiter, so that the fence must be
    written as one token and must not run into the command. The bracket of most characters is such a token; that of a
    letter, of a blank and of some markup is not, and neither is that of more than one character. -/

namespace OfficeMath
namespace Latex

variable {cs : List Char} {c : Char} {fence : String} {t : Token}

/-! ### One token -/

theorem tokens_eq_nil_iff : tokens cs = [] ↔ cs = [] := by
  constructor
  · intro h
    cases cs using tokens.induct <;> simp_all [tokens]
  · rintro rfl
    rw [tokens]

/-- The text is one token: a character by itself, or a backslash with the letters or the one other character that it
    takes. -/
def isOneToken : List Char → Bool
  | [] => false
  | [_] => true
  | c :: d :: cs => c == '\\' && if d.isAlpha then cs.all Char.isAlpha else cs.isEmpty

theorem isOneToken_iff : isOneToken cs = true ↔ ∃ t, tokens cs = [t] := by
  rcases cs with _ | ⟨c, _ | ⟨d, cs⟩⟩
  · simp [isOneToken, tokens]
  · simp [isOneToken, tokens]
  · by_cases hc : c = '\\'
    · subst hc
      cases hd : d.isAlpha with
      | true => simp [isOneToken, tokens_word hd, hd, tokens_eq_nil_iff, List.dropWhile_eq_nil_iff]
      | false => simp [isOneToken, tokens_symbol (Bool.eq_false_iff.mp hd), hd, tokens_eq_nil_iff]
    · simp [isOneToken, tokens_character hc, hc, tokens_eq_nil_iff]

/-- A token that is a character by itself is the character that is there. -/
theorem head?_of_tokens {ts : List Token} (h : tokens cs = .character c :: ts) : cs.head? = some c := by
  rcases cs with _ | ⟨d, _ | ⟨e, cs⟩⟩
  · simp [tokens] at h
  · simp_all [tokens]
  · by_cases hd : d = '\\'
    · subst hd
      cases he : e.isAlpha with
      | true => simp [tokens_word he] at h
      | false => simp [tokens_symbol (Bool.eq_false_iff.mp he)] at h
    · rw [tokens_character hd] at h
      cases h
      rfl

/-- An escaped text has the tokens of its characters, each as it is escaped. -/
theorem tokens_escape (text : String) :
    tokens (escape text).toList = text.toList.flatMap fun c => tokens (escapeChar c).toList := by
  rw [escape_eq_escapeEach, toList_escapeEach]
  induction text.toList with
  | nil => simp [tokens]
  | cons c cs ih =>
    have hclosed : Closed (escapeChar c) := inherited_closed.kept.escapeChar fun _ => inherited_closed.lineBreak
    obtain ⟨ls, hls⟩ := hclosed.exists_lexemes
    rw [List.flatMap_cons, List.flatMap_cons, ← ih]
    refine tokens_append hls fun hend => ?_
    have hset : runsOn (escapeChar c) "a" = false := runsOn_escapeChar c
    rw [runsOn, hend] at hset
    cases hset

/-! ### Fences -/

/-- The characters whose escapes are a word and an empty group. -/
def wordEscaped : List Char := ['~', '^', '\\']

/-- The fence is written as one token after a command: there is none, or it is one character that is no letter, is not
    blank and is not escaped by a word. -/
def isSimpleFence (fence : String) : Bool :=
  match fence.toList with
  | [] => true
  | [c] => !c.isAlpha && !Text.isBlank c && !wordEscaped.contains c
  | _ => false

theorem startsWithLetter_escapeChar (c : Char) : startsWithLetter (escapeChar c) = c.isAlpha := by
  unfold escapeChar
  cases hescape : escapeOf? c with
  | none => simp [startsWithLetter]
  | some s =>
    have hescapes : ∀ p ∈ escapes, startsWithLetter p.2 = p.1.isAlpha := by decide
    exact hescapes _ (escapeOf?_eq_some_mem hescape)

theorem isOneToken_escapeChar (c : Char) : isOneToken (escapeChar c).toList = !wordEscaped.contains c := by
  unfold escapeChar
  cases hescape : escapeOf? c with
  | none =>
    have hword : wordEscaped.contains c = false := by
      have hescapes : (wordEscaped.all fun d => (escapeOf? d).isSome) = true := by decide
      refine Bool.eq_false_iff.mpr fun hmem => ?_
      have hsome := List.all_eq_true.mp hescapes c (List.contains_iff_mem.mp hmem)
      rw [hescape] at hsome
      cases hsome
    rw [Option.getD_none, String.toList_singleton, isOneToken, hword]
    rfl
  | some s =>
    have hescapes : ∀ p ∈ escapes, isOneToken p.2.toList = !wordEscaped.contains p.1 := by decide +kernel
    exact hescapes _ (escapeOf?_eq_some_mem hescape)

/-- A fence of more than one character is not one token. -/
theorem isOneToken_escape_of_cons_cons {d : Char} (h : fence.toList = c :: d :: cs) :
    isOneToken (escape fence).toList = false := by
  have hne (c : Char) : tokens (escapeChar c).toList ≠ [] := by
    rw [Ne, tokens_eq_nil_iff, String.toList_eq_nil_iff]
    exact escapeChar_ne_empty c
  rw [← Bool.not_eq_true, isOneToken_iff]
  rintro ⟨t, ht⟩
  rw [tokens_escape, h, List.flatMap_cons, List.flatMap_cons] at ht
  have hlength := congrArg List.length ht
  have hfirst := List.length_pos_of_ne_nil (hne c)
  have hsecond := List.length_pos_of_ne_nil (hne d)
  simp only [List.length_append, List.length_singleton] at hlength
  omega

/-- The simple fences are those that are not there, and those that are not blank and have one token for a bracket,
    which does not start with a letter. -/
theorem isSimpleFence_iff : isSimpleFence fence = true ↔ fence = "" ∨ Text.isBlankText fence = false ∧
    startsWithLetter (bracket fence) = false ∧ isOneToken (bracket fence).toList = true := by
  unfold bracket
  cases hfence : brackets.lookup fence with
  | some latex =>
    have hbrackets : ∀ p ∈ brackets, isSimpleFence p.1 = true ∧ Text.isBlankText p.1 = false ∧
        startsWithLetter p.2 = false ∧ isOneToken p.2.toList = true := by decide
    obtain ⟨hsimple, hbracket⟩ := hbrackets _ (Text.mem_of_lookup hfence)
    exact iff_of_true hsimple (.inr hbracket)
  | none =>
    rw [Option.getD_none, isSimpleFence, Text.isBlankText]
    rcases hchars : fence.toList with _ | ⟨c, _ | ⟨d, cs⟩⟩
    · exact iff_of_true rfl (.inl (String.toList_eq_nil_iff.mp hchars))
    · have hne : fence ≠ "" := by
        rintro rfl
        cases hchars
      have hescape : escape fence = escapeChar c := by
        rw [escape_eq_escapeEach, escapeEach, hchars]
        simp
      rw [hescape, startsWithLetter_escapeChar, isOneToken_escapeChar]
      simp only [hne, false_or, List.all_cons, List.all_nil, Bool.and_true, Bool.and_eq_true, Bool.not_eq_true',
        and_assoc]
      exact and_left_comm
    · have hne : fence ≠ "" := by
        rintro rfl
        cases hchars
      simp [hne, isOneToken_escape_of_cons_cons hchars]

/-- A simple fence is written without a blank. -/
theorem not_isBlank_of_mem_bracket (hsimple : isSimpleFence fence = true) (hc : c ∈ (bracket fence).toList) :
    Text.isBlank c = false := by
  unfold bracket at hc
  cases hfence : brackets.lookup fence with
  | some latex =>
    have hbrackets : ∀ p ∈ brackets, (p.2.toList.all fun d => !Text.isBlank d) = true := by decide +kernel
    rw [hfence] at hc
    simpa using List.all_eq_true.mp (hbrackets _ (Text.mem_of_lookup hfence)) c hc
  | none =>
    rw [hfence, Option.getD_none, escape_eq_escapeEach, toList_escapeEach] at hc
    obtain ⟨d, hd, hc⟩ := List.mem_flatMap.mp hc
    unfold escapeChar at hc
    cases hescape : escapeOf? d with
    | some s =>
      have hescapes : ∀ p ∈ escapes, (p.2.toList.all fun d => !Text.isBlank d) = true := by decide +kernel
      rw [hescape] at hc
      simpa using List.all_eq_true.mp (hescapes _ (escapeOf?_eq_some_mem hescape)) c hc
    | none =>
      rw [hescape, Option.getD_none, String.toList_singleton, List.mem_singleton] at hc
      subst hc
      unfold isSimpleFence at hsimple
      rcases hchars : fence.toList with _ | ⟨e, _ | ⟨f, cs⟩⟩
      · simp [hchars] at hd
      · simp_all
      · simp [hchars] at hsimple

/-- The bracket of a blank fence does not start with a point. -/
theorem head?_bracket_ne_point (hblank : Text.isBlankText fence = true) : (bracket fence).toList.head? ≠ some '.' := by
  unfold bracket
  cases hfence : brackets.lookup fence with
  | some latex =>
    have hbrackets : ∀ p ∈ brackets, p.2.toList.head? ≠ some '.' := by decide
    exact hbrackets _ (Text.mem_of_lookup hfence)
  | none =>
    rw [Option.getD_none, escape_eq_escapeEach, toList_escapeEach]
    unfold Text.isBlankText at hblank
    cases hchars : fence.toList with
    | nil => simp
    | cons c cs =>
      rw [hchars, List.all_cons, Bool.and_eq_true] at hblank
      unfold escapeChar
      rw [List.flatMap_cons]
      cases hescape : escapeOf? c with
      | some s =>
        have hescapes : ∀ p ∈ escapes, p.2 ≠ "" ∧ p.2.toList.head? ≠ some '.' := by decide
        obtain ⟨hne, hhead⟩ := hescapes _ (escapeOf?_eq_some_mem hescape)
        obtain ⟨d, ds, hs⟩ := List.exists_cons_of_ne_nil (mt String.toList_eq_nil_iff.mp hne)
        rw [hs] at hhead
        simpa [hs] using hhead
      | none =>
        have hpoint : c ≠ '.' := by
          rintro rfl
          exact absurd hblank.1 (by decide)
        simpa using hpoint

/-! ### Commands before fences -/

/-- The token shows: it is a command or a character that is not blank. -/
def Token.isVisible : Token → Bool
  | .word _ | .symbol _ => true
  | .character c => !Text.isBlank c

/-- The token stands for the whole fence: a point for one that is empty or blank, and for any other the only token of
    its bracket. -/
def Token.StandsFor (t : Token) (fence : String) : Prop :=
  t.isVisible = true ∧ if Text.isBlankText fence then t = .character '.' else tokens (bracket fence).toList = [t]

/-- A command takes in the letters that come after it. -/
theorem tokens_command {name : String} (hname : isWord name = true) (cs : List Char) :
    tokens ('\\' :: (name.toList ++ cs)) =
      .word (String.ofList (name.toList ++ cs.takeWhile Char.isAlpha)) :: tokens (cs.dropWhile Char.isAlpha) := by
  obtain ⟨hne, hletters⟩ := Bool.and_eq_true_iff.mp hname
  cases hchars : name.toList with
  | nil => simp [hchars] at hne
  | cons c ns =>
    rw [hchars, List.all_cons, Bool.and_eq_true, List.all_eq_true] at hletters
    obtain ⟨hc, hletters⟩ := hletters
    rw [List.cons_append, tokens_word hc, List.takeWhile_append_of_pos hletters,
      List.dropWhile_append_of_pos hletters, List.cons_append]

section Growing

variable {command name : String} (hcommand : command.toList = '\\' :: name.toList) (hname : isWord name = true)

include hcommand hname

/-- A text that starts with no letter is not taken in by the command before it. -/
theorem tokens_command_append {s : String} (hs : startsWithLetter s = false) :
    tokens (command ++ s).toList = .word name :: tokens s.toList := by
  have hstart := takeWhile_of_startsWithLetter hs
  have hrest : s.toList.dropWhile Char.isAlpha = s.toList := by
    have hsplit := List.takeWhile_append_dropWhile (p := Char.isAlpha) (l := s.toList)
    rwa [hstart, List.nil_append] at hsplit
  rw [String.toList_append, hcommand, List.cons_append, tokens_command hname, hstart, hrest, List.append_nil,
    String.ofList_toList]

theorem tokens_growingFence (h : isSimpleFence fence = true) :
    ∃ t, tokens (Typeset.growingFence command (bracket fence)).toList = [.word name, t] ∧ t.StandsFor fence := by
  rw [Typeset.growingFence]
  rcases isSimpleFence_iff.mp h with rfl | ⟨hblank, hstart, hone⟩
  · refine ⟨.character '.', ?_, rfl, rfl⟩
    have hpoint : (if (bracket "").isEmpty = true then "." else bracket "") = "." := by decide +kernel
    rw [hpoint, tokens_command_append hcommand hname rfl, show ".".toList = ['.'] from rfl, tokens]
  · obtain ⟨t, ht⟩ := isOneToken_iff.mp hone
    have hne : (bracket fence).isEmpty = false := by
      refine Bool.eq_false_iff.mpr fun hempty => ?_
      rw [String.isEmpty_iff.mp hempty] at hone
      cases hone
    refine ⟨t, ?_, ?_, ?_⟩
    · rw [hne, if_neg Bool.false_ne_true, tokens_command_append hcommand hname hstart, ht]
    · cases t with
      | word | symbol => rfl
      | character c =>
        have hc := List.mem_of_head? (head?_of_tokens ht)
        rw [Token.isVisible, not_isBlank_of_mem_bracket h hc]
        rfl
    · rw [hblank]
      exact ht

theorem isSimpleFence_of_tokens {ts ts' : List Token}
    (h : tokens (Typeset.growingFence command (bracket fence)).toList ++ ts = .word name :: t :: ts')
    (ht : t.StandsFor fence) : isSimpleFence fence = true := by
  by_cases hfence : fence = ""
  · rw [hfence]
    rfl
  have hne := bracket_ne_empty hfence
  have hempty : (bracket fence).isEmpty = false := by simpa using hne
  rw [Typeset.growingFence, hempty, if_neg Bool.false_ne_true, String.toList_append, hcommand, List.cons_append,
    tokens_command hname, List.cons_append] at h
  injection h with hword hrest
  -- the fence adds no letter to the name of the command
  have hletters : (bracket fence).toList.takeWhile Char.isAlpha = [] := by
    have hchars := congrArg String.toList (Token.word.inj hword)
    simpa using hchars
  have hsplit := List.takeWhile_append_dropWhile (p := Char.isAlpha) (l := (bracket fence).toList)
  rw [hletters, List.nil_append] at hsplit
  rw [hsplit] at hrest
  obtain ⟨-, ht⟩ := ht
  cases hblank : Text.isBlankText fence with
  | true =>
    rw [if_pos hblank] at ht
    obtain ⟨u, us, hus⟩ := List.exists_cons_of_ne_nil (mt tokens_eq_nil_iff.mp (mt String.toList_eq_nil_iff.mp hne))
    rw [hus, List.cons_append] at hrest
    injection hrest with hu
    rw [hu, ht] at hus
    exact absurd (head?_of_tokens hus) (head?_bracket_ne_point hblank)
  | false =>
    rw [hblank, if_neg Bool.false_ne_true] at ht
    refine isSimpleFence_iff.mpr (.inr ⟨hblank, ?_, isOneToken_iff.mpr ⟨t, ht⟩⟩)
    unfold startsWithLetter
    cases hchars : (bracket fence).toList with
    | nil => rfl
    | cons c cs =>
      rw [hchars, List.takeWhile_eq_nil_iff] at hletters
      simpa using hletters

end Growing

end Latex
end OfficeMath
