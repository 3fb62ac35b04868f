import OfficeMath.Proofs.Latex.ControlWord
import OfficeMath.Proofs.Latex.Fragments

/-! Tokens. LaTeX is read token by token: a control word takes in every letter up to the first other character, so that
    what is read of a text depends on where it stands. Fragments that are joined keep their tokens all the same, and no
    more comes in than spaces. -/

namespace OfficeMath
namespace Latex

/-- What LaTeX is read as: a control word with its name, a backslash with the one character that it takes, or a
    character by itself. -/
inductive Token where
  | word (name : String)
  | symbol (c : Char)
  | character (c : Char)
  deriving DecidableEq, Repr

/-- The tokens of a text from left to right. A backslash begins a control word with the longest run of letters after
    it, and takes one character if this is no letter. -/
def tokens : List Char → List Token
  | [] => []
  | [c] => [.character c]
  | c :: d :: cs =>
    if c ≠ '\\' then .character c :: tokens (d :: cs)
    else if d.isAlpha then .word (String.ofList (d :: cs.takeWhile Char.isAlpha)) :: tokens (cs.dropWhile Char.isAlpha)
    else .symbol d :: tokens cs
termination_by cs => cs.length
decreasing_by
  · simp
  · have := List.length_dropWhile_le Char.isAlpha cs
    simp only [List.length_cons]
    omega
  · simp only [List.length_cons]
    omega

/-- The tokens of a text without the spaces, which do not show in a formula. -/
def visibleTokens (latex : String) : List Token := (tokens latex.toList).filter (· ≠ .character ' ')

/-! ### A text that goes on -/

variable {c d : Char} {cs ds : List Char} {ls : List Lexeme} {s t : String} {fragments : List String}

theorem takeWhile_append_of_stop {p : Char → Bool} (h : cs.dropWhile p = [] → ds.takeWhile p = []) :
    (cs ++ ds).takeWhile p = cs.takeWhile p := by
  rw [List.takeWhile_append]
  split
  · next hlength =>
    have hcs : cs.takeWhile p = cs := (List.takeWhile_prefix p).eq_of_length hlength
    rw [hcs, h (List.dropWhile_eq_nil_iff.mpr (List.takeWhile_eq_self_iff.mp hcs)), List.append_nil]
  · rfl

theorem dropWhile_append_of_stop {p : Char → Bool} (h : cs.dropWhile p = [] → ds.takeWhile p = []) :
    (cs ++ ds).dropWhile p = cs.dropWhile p ++ ds := by
  refine (List.append_right_inj (cs.takeWhile p)).mp ?_
  rw [← List.append_assoc, List.takeWhile_append_dropWhile, ← takeWhile_append_of_stop h,
    List.takeWhile_append_dropWhile]

theorem exists_lexemes_dropWhile (h : lexemes? cs = some ls) :
    ∃ ls', lexemes? (cs.dropWhile Char.isAlpha) = some ls' := by
  induction cs generalizing ls with
  | nil => exact ⟨ls, h⟩
  | cons c cs ih =>
    cases hc : c.isAlpha with
    | false => exact ⟨ls, by rwa [List.dropWhile_cons_of_neg (by simp [hc])]⟩
    | true =>
      have hne : c ≠ '\\' := by
        rintro rfl
        cases hc
      rw [lexemes?_cons_of_ne hne] at h
      obtain ⟨ls, hls, -⟩ := Option.map_eq_some_iff.mp h
      rw [List.dropWhile_cons_of_pos hc]
      exact ih hls

/-- A text that ends in a control word still does when more stands before it. -/
theorem endsInControlWord_of_suffix (cs : List Char) (h : endsInControlWord ds.reverse = true) :
    endsInControlWord (cs ++ ds).reverse = true := by
  rw [List.reverse_append]
  generalize ds.reverse = es at h ⊢
  rw [endsInControlWord_append, h]
  · rintro rfl
    cases h
  · intro hletters
    cases es with
    | nil => cases h
    | cons e es =>
      rw [List.all_cons, Bool.and_eq_true, List.all_eq_true] at hletters
      rw [endsInControlWord, List.dropWhile_eq_nil_iff.mpr hletters.2] at h
      simp at h

theorem endsInControlWord_of_word (hd : d.isAlpha = true) (hcs : cs.dropWhile Char.isAlpha = []) :
    endsInControlWord ('\\' :: d :: cs).reverse = true := by
  have hletters := List.dropWhile_eq_nil_iff.mp hcs
  have hplain : lexemes? cs = some (cs.map .plain) := by
    refine lexemes?_of_ne fun c hc => ?_
    rintro rfl
    cases hletters _ hc
  have hlexemes : lexemes? ('\\' :: d :: cs) = some (.escaped d :: cs.map .plain) := by
    rw [lexemes?, if_pos rfl, hplain, Option.map_some]
  exact endsInControlWord_of_endsInWord hlexemes ⟨[], d, cs, rfl, List.forall_mem_cons.mpr ⟨hd, hletters⟩⟩

/-! ### Tokens one after the other -/

theorem tokens_character (hc : c ≠ '\\') (cs : List Char) : tokens (c :: cs) = .character c :: tokens cs := by
  cases cs with
  | nil => simp [tokens]
  | cons d cs => rw [tokens, if_pos hc]

theorem tokens_word (hd : d.isAlpha = true) (cs : List Char) : tokens ('\\' :: d :: cs) =
    .word (String.ofList (d :: cs.takeWhile Char.isAlpha)) :: tokens (cs.dropWhile Char.isAlpha) := by
  rw [tokens, if_neg (not_not_intro rfl), if_pos hd]

theorem tokens_symbol (hd : ¬d.isAlpha = true) (cs : List Char) :
    tokens ('\\' :: d :: cs) = .symbol d :: tokens cs := by
  rw [tokens, if_neg (not_not_intro rfl), if_neg hd]

/-- Two texts one after the other have the tokens of the first and then those of the second, unless a control word at
    the end of the first takes in letters of the second. That a control word ends the text is seen from its end,
    whereas tokens are read from its start, so the induction is on how they are read. -/
theorem tokens_append (hcs : lexemes? cs = some ls)
    (h : endsInControlWord cs.reverse = true → ds.takeWhile Char.isAlpha = []) :
    tokens (cs ++ ds) = tokens cs ++ tokens ds := by
  induction cs using tokens.induct generalizing ls with
  | case1 => simp [tokens]
  | case2 c =>
    have hc : c ≠ '\\' := by
      rintro rfl
      cases hcs
    rw [List.singleton_append, tokens_character hc, tokens]
    rfl
  | case3 c d cs hc ih =>
    rw [lexemes?_cons_of_ne hc] at hcs
    obtain ⟨ls, hls, -⟩ := Option.map_eq_some_iff.mp hcs
    rw [List.cons_append, tokens_character hc, tokens_character hc, ih hls, List.cons_append]
    exact fun hend => h (endsInControlWord_of_suffix [c] hend)
  | case4 c d cs hc hd ih =>
    obtain rfl := not_not.mp hc
    obtain ⟨ls, hls, -⟩ := Option.map_eq_some_iff.mp (hcs : (lexemes? cs).map _ = _)
    obtain ⟨ls, hls⟩ := exists_lexemes_dropWhile hls
    have hstop (hrest : cs.dropWhile Char.isAlpha = []) := h (endsInControlWord_of_word hd hrest)
    have hsplit : ('\\' :: d :: cs.takeWhile Char.isAlpha) ++ cs.dropWhile Char.isAlpha = '\\' :: d :: cs := by
      rw [List.cons_append, List.cons_append, List.takeWhile_append_dropWhile]
    rw [List.cons_append, List.cons_append, tokens_word hd, tokens_word hd, takeWhile_append_of_stop hstop,
      dropWhile_append_of_stop hstop, ih hls, List.cons_append]
    exact fun hend => h (hsplit ▸ endsInControlWord_of_suffix _ hend)
  | case5 c d cs hc hd ih =>
    obtain rfl := not_not.mp hc
    obtain ⟨ls, hls, -⟩ := Option.map_eq_some_iff.mp (hcs : (lexemes? cs).map _ = _)
    rw [List.cons_append, List.cons_append, tokens_symbol hd, tokens_symbol hd, ih hls, List.cons_append]
    exact fun hend => h (endsInControlWord_of_suffix ['\\', d] hend)

theorem takeWhile_of_startsWithLetter (h : startsWithLetter s = false) : s.toList.takeWhile Char.isAlpha = [] := by
  unfold startsWithLetter at h
  split at h
  · next hs => rw [hs, List.takeWhile_nil]
  · next c cs hs => rw [hs, List.takeWhile_cons_of_neg (by simp [h])]

/-! ### Tokens of fragments -/

/-- A fragment that is pushed has the tokens that it has after the gap. -/
theorem tokens_pushFragment (hs : Closed s) (t : String) :
    tokens (pushFragment s t).toList = tokens s.toList ++ tokens (gap s t ++ t).toList := by
  obtain ⟨ls, hls⟩ := hs.exists_lexemes
  rw [pushFragment_eq_gap, String.append_assoc, String.toList_append]
  refine tokens_append hls fun hend => ?_
  unfold gap
  split
  · rw [String.toList_append]
    rfl
  · next hgap =>
    rw [runsOn, hend, Bool.and_true, Bool.not_eq_true] at hgap
    rw [String.empty_append]
    exact takeWhile_of_startsWithLetter hgap

/-- A fragment that is set off by a space brings in no token but the space. -/
theorem visibleTokens_pushFragment (hs : Closed s) (t : String) :
    visibleTokens (pushFragment s t) = visibleTokens s ++ visibleTokens t := by
  have hgap : visibleTokens (gap s t ++ t) = visibleTokens t := by
    rcases gap_eq s t with hgap | hgap
    · rw [hgap, String.empty_append]
    · have hspace : (" " ++ t).toList = ' ' :: t.toList := String.toList_append
      rw [hgap, visibleTokens, hspace, tokens_character (by decide), List.filter_cons_of_neg (by simp)]
      rfl
  rw [visibleTokens, tokens_pushFragment hs, List.filter_append]
  exact congrArg (visibleTokens s ++ ·) hgap

theorem visibleTokens_foldl_pushFragment (hs : Closed s) (h : ∀ t ∈ fragments, Closed t) :
    visibleTokens (fragments.foldl pushFragment s) = visibleTokens s ++ fragments.flatMap visibleTokens := by
  induction fragments generalizing s with
  | nil => rw [List.foldl_nil, List.flatMap_nil, List.append_nil]
  | cons t fragments ih =>
    obtain ⟨ht, h⟩ := List.forall_mem_cons.mp h
    rw [List.foldl_cons, ih (inherited_closed.kept.pushFragment hs ht) h, visibleTokens_pushFragment hs,
      List.flatMap_cons, List.append_assoc]

/-- Closed fragments that are joined keep their tokens, one fragment after the other. -/
theorem visibleTokens_joinFragments (h : ∀ t ∈ fragments, Closed t) :
    visibleTokens (joinFragments fragments) = fragments.flatMap visibleTokens := by
  rw [joinFragments_eq, visibleTokens_foldl_pushFragment inherited_closed.kept.empty h]
  simp [visibleTokens, tokens]

/-- A text has the tokens of its characters, each as it is written for itself: no command takes in a letter of what
    comes after it, and nothing is lost, doubled or moved. -/
theorem visibleTokens_convertText (text : String) :
    visibleTokens (convertText text) = text.toList.flatMap fun c => visibleTokens (translate c) := by
  rw [convertText, visibleTokens_joinFragments, List.flatMap_map]
  intro t ht
  obtain ⟨c, -, rfl⟩ := List.mem_map.mp ht
  exact inherited_closed.kept.translate fun _ => inherited_closed.lineBreak

example : visibleTokens (convertText "2αx\u2009y") =
    [.character '2', .word "alpha", .character 'x', .symbol ',', .character 'y'] := by cbv

end Latex
end OfficeMath
