import OfficeMath.Xml.Token

/-! The extent of tokens. A token is read from its own characters, whatever comes after them, except that a piece of
    text goes on as long as it can. What has been read of a text is thus the same in every text that begins alike. -/

namespace OfficeMath
namespace Xml

/-! ### Cuts -/

theorem isPrefixOf_append_of_length_le {mark cs : List Char} (h : mark.length ≤ cs.length) (rest : List Char) :
    mark.isPrefixOf (cs ++ rest) = mark.isPrefixOf cs := by
  rw [Bool.eq_iff_iff, List.isPrefixOf_iff_prefix, List.isPrefixOf_iff_prefix]
  exact ⟨fun hp => List.prefix_of_prefix_length_le hp (List.prefix_append cs rest) h,
    fun hp => hp.trans (List.prefix_append cs rest)⟩

/-- A cut at a mark does not depend on what comes after the mark. -/
theorem cutAt_of_cutAt {mark before after : List Char} (hmark : mark ≠ []) {cs : List Char}
    (h : cutAt mark cs = some (before, after)) (rest : List Char) :
    cutAt mark (before ++ mark ++ rest) = some (before, rest) := by
  induction cs generalizing before with
  | nil => cases h
  | cons c cs ih =>
    have hcs := eq_append_of_cutAt h
    unfold cutAt at h
    split at h
    · cases h
      obtain ⟨d, mark, rfl⟩ := List.exists_cons_of_ne_nil hmark
      have hprefix : (d :: mark).isPrefixOf (d :: (mark ++ rest)) = true :=
        List.isPrefixOf_iff_prefix.mpr (List.prefix_append (d :: mark) rest)
      rw [List.nil_append, List.cons_append, cutAt, hprefix, if_pos rfl]
      simp
    · next hnot =>
      obtain ⟨⟨before', after'⟩, hcut, heq⟩ := Option.map_eq_some_iff.mp h
      cases heq
      -- at each place before the mark, the test looks at no more than the mark and what stands before it
      have hlength : mark.length ≤ (c :: before' ++ mark).length := by
        rw [List.length_append]
        omega
      rw [hcs, isPrefixOf_append_of_length_le hlength, ← isPrefixOf_append_of_length_le hlength rest] at hnot
      rw [List.cons_append, List.cons_append] at hnot ⊢
      rw [cutAt, if_neg hnot, ih hcut]
      rfl

namespace Doctype

theorem eq_of_step_eq_none {d : Doctype} {c : Char} (h : d.step c = none) : c = '>' := by
  unfold step at h
  split at h
  · rfl
  · cases h
  · cases h
  · cases h
  · cases h
  · cases h
  · rfl
  · cases h
  · cases h
  · cases h
  · split at h
    · next hc => exact eq_of_beq hc
    · cases h

theorem exists_own_of_skip {d : Doctype} {cs rest : List Char} (h : d.skip cs = some rest) :
    ∃ own, cs = own ++ '>' :: rest ∧ ∀ rest', d.skip (own ++ '>' :: rest') = some rest' := by
  induction cs generalizing d with
  | nil => cases h
  | cons c cs ih =>
    unfold skip at h
    split at h
    · next hstep =>
      cases h
      obtain rfl := eq_of_step_eq_none hstep
      exact ⟨[], rfl, fun rest' => by rw [List.nil_append, skip, hstep]⟩
    · next d' hstep =>
      obtain ⟨own, rfl, hown⟩ := ih h
      exact ⟨c :: own, rfl, fun rest' => by rw [List.cons_append, skip, hstep]; exact hown rest'⟩

end Doctype

theorem exists_own_of_skipDoctype? {cs rest : List Char} (h : skipDoctype? cs = some rest) :
    ∃ own, cs = own ++ '>' :: rest ∧ ∀ rest', skipDoctype? (own ++ '>' :: rest') = some rest' := by
  unfold skipDoctype? at h
  split at h
  · next hkeyword =>
    obtain ⟨own, hdrop, hown⟩ := Doctype.exists_own_of_skip h
    have hlength : (cs.take 7).length = 7 := by
      have hword := congrArg List.length (eq_of_beq (Bool.and_eq_true_iff.mp hkeyword).1)
      simpa using hword
    have hhead (r : List Char) : ((own ++ '>' :: r).dropWhile isSpace).head? =
        ((own.dropWhile isSpace).head?).or (some '>') := by
      rw [List.dropWhile_append]
      cases own.dropWhile isSpace <;> rfl
    refine ⟨cs.take 7 ++ own, ?_, fun rest' => ?_⟩
    · rw [List.append_assoc, ← hdrop, List.take_append_drop]
    · have htake : (cs.take 7 ++ (own ++ '>' :: rest')).take 7 = cs.take 7 := by
        rw [List.take_append_of_le_length (by omega), List.take_take, Nat.min_self]
      have hdrop' : (cs.take 7 ++ (own ++ '>' :: rest')).drop 7 = own ++ '>' :: rest' := by
        have hdrop := @List.drop_left _ (cs.take 7) (own ++ '>' :: rest')
        rwa [hlength] at hdrop
      rw [hdrop, hhead rest, ← hhead rest'] at hkeyword
      rw [List.append_assoc, skipDoctype?, htake, hdrop', if_pos hkeyword, hown]
  · cases h

namespace Token

/-! ### Tags -/

theorem exists_own_of_cutTag {quote : Option Char} {cs body rest : List Char}
    (h : cutTag quote cs = some (body, rest)) :
    cs = body ++ '>' :: rest ∧ ∀ rest', cutTag quote (body ++ '>' :: rest') = some (body, rest') := by
  induction cs generalizing quote body with
  | nil => cases h
  | cons c cs ih =>
    unfold cutTag at h
    split at h
    · next hend =>
      cases h
      obtain ⟨-, hc⟩ := Bool.and_eq_true_iff.mp hend
      obtain rfl := eq_of_beq hc
      exact ⟨rfl, fun rest' => by rw [List.nil_append, cutTag, if_pos hend]⟩
    · next hend =>
      obtain ⟨⟨body', rest'⟩, hcut, heq⟩ := Option.map_eq_some_iff.mp h
      cases heq
      obtain ⟨rfl, hown⟩ := ih hcut
      exact ⟨rfl, fun rest' => by rw [List.cons_append, cutTag, if_neg hend, hown]; rfl⟩

theorem exists_own_of_readTag {token : List Char → Token} {t : Token} {cs rest : List Char}
    (h : readTag token cs = .ok (t, rest)) :
    ∃ own, own ≠ [] ∧ cs = own ++ rest ∧ ∀ rest', readTag token (own ++ rest') = .ok (t, rest') := by
  unfold readTag at h
  split at h
  · next body rest hcut =>
    cases h
    obtain ⟨rfl, hown⟩ := exists_own_of_cutTag hcut
    refine ⟨body ++ ['>'], by simp, by simp, fun rest' => ?_⟩
    rw [List.append_assoc, List.singleton_append, readTag, hown]
  · cases h

/-! ### All other tokens -/

theorem exists_own_of_readInstruction {t : Token} {cs rest : List Char} (h : readInstruction cs = .ok (t, rest)) :
    ∃ own, cs = own ++ rest ∧ ∀ rest', readInstruction (own ++ rest') = .ok (t, rest') := by
  unfold readInstruction at h
  split at h
  · cases h
  · next hhead =>
    split at h
    · next chars rest hcut =>
      cases h
      have hcs := eq_append_of_cutAt hcut
      have hhead' (r : List Char) : (chars ++ ['?', '>'] ++ r).head? = chars.head?.or (some '?') := by
        cases chars <;> rfl
      rw [hcs, hhead'] at hhead
      refine ⟨chars ++ ['?', '>'], hcs, fun rest' => ?_⟩
      rw [readInstruction, hhead', if_neg hhead, cutAt_of_cutAt (by simp) hcut]
    · cases h

theorem exists_own_of_readDeclaration {t : Token} {cs rest : List Char} (h : readDeclaration cs = .ok (t, rest)) :
    ∃ own, cs = own ++ rest ∧ ∀ rest', readDeclaration (own ++ rest') = .ok (t, rest') := by
  unfold readDeclaration at h
  split at h
  · split at h
    · next chars rest hcut =>
      cases h
      refine ⟨['-', '-'] ++ chars ++ ['-', '-', '>'], by rw [eq_append_of_cutAt hcut]; simp, fun rest' => ?_⟩
      rw [List.append_assoc ['-', '-'], List.append_assoc]
      show readDeclaration ('-' :: '-' :: (chars ++ ['-', '-', '>'] ++ rest')) = _
      rw [readDeclaration, cutAt_of_cutAt (by simp) hcut]
    · cases h
  · split at h
    · next chars rest hcut =>
      cases h
      refine ⟨"[CDATA[".toList ++ chars ++ [']', ']', '>'], by rw [eq_append_of_cutAt hcut]; simp, fun rest' => ?_⟩
      rw [List.append_assoc "[CDATA[".toList, List.append_assoc]
      show readDeclaration ('[' :: 'C' :: 'D' :: 'A' :: 'T' :: 'A' :: '[' :: (chars ++ [']', ']', '>'] ++ rest')) = _
      rw [readDeclaration, cutAt_of_cutAt (by simp) hcut]
    · cases h
  · next c cs' _ _ =>
    split at h
    · next hc =>
      split at h
      · next rest hskip =>
        cases h
        obtain ⟨own, hcs, hown⟩ := exists_own_of_skipDoctype? hskip
        have hkeyword (rest' : List Char) : ∃ cs, own ++ '>' :: rest' = c :: cs := by
          cases own with
          | nil =>
            cases hcs
            cases hc
          | cons d own =>
            cases hcs
            exact ⟨own ++ '>' :: rest', rfl⟩
        refine ⟨own ++ ['>'], by rw [hcs, List.append_assoc]; rfl, fun rest' => ?_⟩
        rw [List.append_assoc, List.singleton_append]
        specialize hown rest'
        obtain ⟨cs, heq⟩ := hkeyword rest'
        rw [heq] at hown ⊢
        have hletter : c = 'D' ∨ c = 'd' := by simpa using hc
        rcases hletter with rfl | rfl <;> simp [readDeclaration, hown]
      · cases h
    · cases h
  · cases h

/-- The character after the bracket that opens a start tag, or the tag of an empty element. -/
def startsTag (c : Char) : Bool := c != '!' && c != '?' && c != '/'

theorem startsTag_of_ne {c : Char} {cs : List Char} (hdeclaration : ∀ rest, c :: cs = '!' :: rest → False)
    (hinstruction : ∀ rest, c :: cs = '?' :: rest → False) (hend : ∀ rest, c :: cs = '/' :: rest → False) :
    startsTag c = true := by
  have hne (d : Char) (h : ∀ rest, c :: cs = d :: rest → False) : c ≠ d := by
    rintro rfl
    exact h cs rfl
  simp [startsTag, hne '!' hdeclaration, hne '?' hinstruction, hne '/' hend]

theorem read_markup (cs : List Char) : read '<' cs = readMarkup cs := rfl

theorem readMarkup_of_startsTag {c : Char} (h : startsTag c = true) (cs : List Char) :
    readMarkup (c :: cs) = readTag ofTagBody (c :: cs) := by
  unfold readMarkup
  split
  · next heq => cases heq
  · next heq =>
    cases heq
    cases h
  · next heq =>
    cases heq
    cases h
  · next heq =>
    cases heq
    cases h
  · rfl

theorem exists_own_of_readMarkup {t : Token} {cs rest : List Char} (h : readMarkup cs = .ok (t, rest)) :
    ∃ own, cs = own ++ rest ∧ ∀ rest', readMarkup (own ++ rest') = .ok (t, rest') := by
  unfold readMarkup at h
  split at h
  · cases h
  · obtain ⟨own, rfl, hown⟩ := exists_own_of_readDeclaration h
    exact ⟨'!' :: own, rfl, hown⟩
  · obtain ⟨own, rfl, hown⟩ := exists_own_of_readInstruction h
    exact ⟨'?' :: own, rfl, hown⟩
  · obtain ⟨own, -, rfl, hown⟩ := exists_own_of_readTag h
    exact ⟨'/' :: own, rfl, hown⟩
  · next hdeclaration hinstruction hend =>
    obtain ⟨own, hne, rfl, hown⟩ := exists_own_of_readTag h
    obtain ⟨d, ds, rfl⟩ := List.exists_cons_of_ne_nil hne
    have hstarts : startsTag d = true := startsTag_of_ne hdeclaration hinstruction hend
    exact ⟨d :: ds, rfl, fun rest' => (readMarkup_of_startsTag hstarts (ds ++ rest')).trans (hown rest')⟩

theorem exists_own_of_readReference {t : Token} {cs rest : List Char} (h : readReference cs = .ok (t, rest)) :
    ∃ own, cs = own ++ rest ∧ ∀ rest', readReference (own ++ rest') = .ok (t, rest') := by
  unfold readReference at h
  split at h
  · next rest hdrop =>
    cases h
    have hcs : cs = cs.takeWhile inReference ++ ';' :: rest := by
      rw [← hdrop, List.takeWhile_append_dropWhile]
    have hall : ∀ c ∈ cs.takeWhile inReference, inReference c = true := fun c hc =>
      List.all_eq_true.mp List.all_takeWhile c hc
    generalize cs.takeWhile inReference = name at hcs hall
    refine ⟨name ++ [';'], by rw [hcs, List.append_assoc]; rfl, fun rest' => ?_⟩
    rw [List.append_assoc]
    unfold readReference
    rw [List.dropWhile_append_of_pos hall, List.takeWhile_append_of_pos hall]
    simp [inReference]
  · cases h

/-- A token that begins with the character ends before the rest: a piece of text only if the rest does not go on
    it. -/
def endsBefore (c : Char) (rest : List Char) : Bool := !inText c || rest.head?.all fun d => !inText d

theorem endsBefore_append {c : Char} {rest : List Char} (h : endsBefore c rest = true) (hrest : rest ≠ [])
    (rest' : List Char) : endsBefore c (rest ++ rest') = true := by
  obtain ⟨d, rest, rfl⟩ := List.exists_cons_of_ne_nil hrest
  exact h

theorem endsBefore_markup (c : Char) (rest : List Char) : endsBefore c ('<' :: rest) = true := Bool.or_true _

/-- A token is read from its own characters, in every text in which it ends after them. -/
theorem exists_own_of_read {c : Char} {cs rest : List Char} {t : Token} (h : read c cs = .ok (t, rest)) :
    endsBefore c rest = true ∧
      ∃ own, cs = own ++ rest ∧ ∀ rest', endsBefore c rest' = true → read c (own ++ rest') = .ok (t, rest') := by
  unfold read at h
  split at h
  · next hc =>
    obtain ⟨own, rfl, hown⟩ := exists_own_of_readMarkup h
    have hends (r : List Char) : endsBefore c r = true := by
      rw [endsBefore, inText, bne, hc]
      rfl
    exact ⟨hends rest, own, rfl, fun rest' _ => by rw [read, if_pos hc, hown]⟩
  · next hc =>
    split at h
    · next hc' =>
      obtain ⟨own, rfl, hown⟩ := exists_own_of_readReference h
      have hends (r : List Char) : endsBefore c r = true := by
        rw [endsBefore, inText, bne, bne, hc', Bool.not_true, Bool.and_false]
        rfl
      exact ⟨hends rest, own, rfl, fun rest' _ => by rw [read, if_neg hc, if_pos hc', hown]⟩
    · next hc' =>
      cases h
      have hinText : inText c = true := by simpa [inText] using And.intro hc hc'
      have hall : ∀ d ∈ cs.takeWhile inText, inText d = true := fun d hd => List.all_eq_true.mp List.all_takeWhile d hd
      have hhead := List.head?_dropWhile_not inText cs
      refine ⟨?_, cs.takeWhile inText, List.takeWhile_append_dropWhile.symm, fun rest' hends => ?_⟩
      · rw [endsBefore, hinText]
        cases hrest : cs.dropWhile inText with
        | nil => rfl
        | cons d rest => simpa [hrest] using hhead
      · have hstop : rest'.takeWhile inText = [] ∧ rest'.dropWhile inText = rest' := by
          rw [endsBefore, hinText] at hends
          cases rest' with
          | nil => exact ⟨rfl, rfl⟩
          | cons d rest' =>
            have hd : inText d = false := by simpa using hends
            simp [hd]
        rw [read, if_neg hc, if_neg hc', List.takeWhile_append_of_pos hall, List.dropWhile_append_of_pos hall,
          hstop.1, hstop.2, List.append_nil]

end Token

end Xml
end OfficeMath
