import Mathlib
import OfficeMath.Proofs.Latex.Inherited

/-! Fragments one after the other. Joining goes by groups: fragments can be joined first within groups and the groups
    then with each other. A fragment that ends in a backslash would stand in the way, since with the letters after it
    it looks like a control word from its end, but not from theirs. -/

namespace OfficeMath
namespace Latex

variable {s t u : String} {fragments : List String}

/-- The text ends in a backslash. -/
def endsInBackslash (s : String) : Bool := s.toList.getLast? == some '\\'

/-- What stands between two fragments: a space where a control word would run on. -/
def gap (s t : String) : String := if runsOn s t then " " else ""

theorem gap_eq (s t : String) : gap s t = "" ∨ gap s t = " " := by
  unfold gap
  split
  · exact .inr rfl
  · exact .inl rfl

theorem pushFragment_eq_gap (s t : String) : pushFragment s t = s ++ gap s t ++ t := by
  rw [pushFragment_eq, gap, runsOn]
  split <;> simp

theorem pushFragment_empty (s : String) : pushFragment s "" = s := by
  rw [pushFragment_eq, show startsWithLetter "" = false from rfl, Bool.false_and, if_neg Bool.false_ne_true,
    String.append_empty]

theorem empty_pushFragment (s : String) : pushFragment "" s = s := by
  rw [pushFragment_eq, show endsInControlWord "".toList.reverse = false from rfl, Bool.and_false,
    if_neg Bool.false_ne_true, String.empty_append]

theorem joinFragments_insert_empty (fragments fragments' : List String) :
    joinFragments (fragments ++ "" :: fragments') = joinFragments (fragments ++ fragments') := by
  rw [joinFragments_eq, joinFragments_eq, List.foldl_append, List.foldl_append, List.foldl_cons, pushFragment_empty]

/-! ### The end of a text -/

/-- What stands before a text does not make it end in a control word, unless the text is all letters and a backslash
    stands before these. Both are given last character first. -/
theorem endsInControlWord_append {cs ds : List Char} (hcs : cs ≠ [])
    (hds : cs.all Char.isAlpha = true → (ds.dropWhile Char.isAlpha).head? ≠ some '\\') :
    endsInControlWord (cs ++ ds) = endsInControlWord cs := by
  cases cs with
  | nil => exact absurd rfl hcs
  | cons c cs =>
    rw [List.cons_append, endsInControlWord, endsInControlWord]
    cases hc : c.isAlpha with
    | false => rfl
    | true =>
      rw [Bool.true_and, Bool.true_and, List.dropWhile_append]
      by_cases hletters : cs.dropWhile Char.isAlpha = []
      · have hall : (c :: cs).all Char.isAlpha = true := by
          rw [List.all_cons, hc, Bool.true_and, List.all_eq_true]
          exact List.dropWhile_eq_nil_iff.mp hletters
        simpa [hletters] using hds hall
      · obtain ⟨d, rest, hd⟩ := List.exists_cons_of_ne_nil hletters
        simp [hd]

/-- Before a fragment that starts with a letter, no backslash is left that the letters would seem to go with. -/
theorem head?_dropWhile_gap (hs : endsInBackslash s = false) (ht : startsWithLetter t = true) :
    ((s ++ gap s t).toList.reverse.dropWhile Char.isAlpha).head? ≠ some '\\' := by
  unfold gap runsOn
  rw [ht, Bool.true_and]
  split
  · simp [show (' ' : Char).isAlpha = false from rfl]
  · next hword =>
    rw [endsInBackslash, ← List.head?_reverse] at hs
    rw [String.append_empty]
    cases hc : s.toList.reverse with
    | nil => simp
    | cons c cs =>
      rw [hc] at hs hword
      rw [endsInControlWord] at hword
      cases hletter : c.isAlpha <;> simp_all

theorem runsOn_pushFragment (hs : endsInBackslash s = false) (ht : t ≠ "") :
    runsOn (pushFragment s t) u = runsOn t u := by
  have hreverse : (pushFragment s t).toList.reverse = t.toList.reverse ++ (s ++ gap s t).toList.reverse := by
    rw [pushFragment_eq_gap, String.toList_append, List.reverse_append]
  rw [runsOn, runsOn, hreverse, endsInControlWord_append]
  · simpa using ht
  · intro hletters
    refine head?_dropWhile_gap hs ?_
    rw [List.all_reverse] at hletters
    unfold startsWithLetter
    cases hc : t.toList with
    | nil => exact absurd (String.toList_eq_nil_iff.mp hc) ht
    | cons c cs =>
      rw [hc, List.all_cons, Bool.and_eq_true] at hletters
      exact hletters.1

/-! ### Groups -/

/-- Three fragments can be joined from either side. -/
theorem pushFragment_assoc (hs : endsInBackslash s = false) :
    pushFragment (pushFragment s t) u = pushFragment s (pushFragment t u) := by
  by_cases ht : t = ""
  · rw [ht, pushFragment_empty, empty_pushFragment]
  · have hright : gap (pushFragment s t) u = gap t u := by rw [gap, runsOn_pushFragment hs ht, gap]
    have hleft : gap s (pushFragment t u) = gap s t := by
      rw [gap, gap, runsOn, runsOn, pushFragment_eq_gap, String.append_assoc, startsWithLetter_append ht]
    rw [pushFragment_eq_gap (pushFragment s t), pushFragment_eq_gap s (pushFragment t u), hright, hleft,
      pushFragment_eq_gap s t, pushFragment_eq_gap t u]
    simp only [String.append_assoc]

theorem endsInBackslash_pushFragment (hs : endsInBackslash s = false) (ht : endsInBackslash t = false) :
    endsInBackslash (pushFragment s t) = false := by
  by_cases hempty : t = ""
  · rwa [hempty, pushFragment_empty]
  · have hne : t.toList ≠ [] := by simpa using hempty
    obtain ⟨cs, c, hc⟩ := List.eq_nil_or_concat t.toList |>.resolve_left hne
    rw [endsInBackslash, hc] at ht
    rw [pushFragment_eq_gap, endsInBackslash, String.toList_append, hc]
    simpa using ht

/-- Fragments that are pushed one after the other onto a text are pushed onto it as one. -/
theorem foldl_pushFragment (hs : endsInBackslash s = false) (fragments : List String) :
    fragments.foldl pushFragment s = pushFragment s (joinFragments fragments) := by
  -- from the last fragment on, so that only the text that they are pushed onto must not end in a backslash
  induction fragments using List.reverseRecOn with
  | nil => exact (pushFragment_empty s).symm
  | append_singleton fragments t ih =>
    rw [joinFragments_eq, List.foldl_append, List.foldl_append, ih, ← joinFragments_eq]
    exact pushFragment_assoc hs

theorem endsInBackslash_joinFragments (h : ∀ t ∈ fragments, endsInBackslash t = false) :
    endsInBackslash (joinFragments fragments) = false := by
  induction fragments with
  | nil => rfl
  | cons t fragments ih =>
    obtain ⟨ht, hfragments⟩ := List.forall_mem_cons.mp h
    rw [joinFragments_eq, List.foldl_cons, empty_pushFragment, foldl_pushFragment ht]
    exact endsInBackslash_pushFragment ht (ih hfragments)

theorem joinFragments_append (h : ∀ t ∈ fragments, endsInBackslash t = false) (fragments' : List String) :
    joinFragments (fragments ++ fragments') = pushFragment (joinFragments fragments) (joinFragments fragments') := by
  rw [joinFragments_eq, List.foldl_append, ← joinFragments_eq,
    foldl_pushFragment (endsInBackslash_joinFragments h)]

theorem joinFragments_cons (hs : endsInBackslash s = false) (fragments : List String) :
    joinFragments (s :: fragments) = pushFragment s (joinFragments fragments) := by
  rw [joinFragments_eq, List.foldl_cons, empty_pushFragment, foldl_pushFragment hs]

/-- After a backslash the letters of a fragment look like a control word, which they are not in a group by
    themselves. -/
example : pushFragment (pushFragment "\\\\" "a") "b" = "\\\\a b" ∧
    pushFragment "\\\\" (pushFragment "a" "b") = "\\\\ab" := by decide

/-! ### Text -/

/-- Nothing but a line feed is written with a backslash at its end. -/
theorem endsInBackslash_translate {c : Char} (h : c ≠ '\n') : endsInBackslash (translate c) = false := by
  unfold translate
  split
  · next s hs =>
    have hsymbols : ∀ p ∈ symbols, endsInBackslash p.2 = false := by decide +kernel
    exact hsymbols _ (symbolOf?_eq_some_mem hs)
  · split
    · next letter hletter =>
      have hne : letter ≠ '\\' := by
        rintro rfl
        cases isAlpha_of_plainLetter? hletter
      simpa [endsInBackslash] using hne
    · unfold escapeChar
      cases hescape : escapeOf? c with
      | none =>
        have hne : c ≠ '\\' := by
          rintro rfl
          cases hescape
        simpa [endsInBackslash] using hne
      | some s =>
        have hescapes : ∀ p ∈ escapes, p.1 ≠ '\n' → endsInBackslash p.2 = false := by decide
        exact hescapes _ (escapeOf?_eq_some_mem hescape) h

/-- A text can be converted in two pieces, unless a line feed stands in the first one: its escape ends in a
    backslash. -/
theorem convertText_append {text : String} (h : '\n' ∉ text.toList) (text' : String) :
    convertText (text ++ text') = pushFragment (convertText text) (convertText text') := by
  rw [convertText, String.toList_append, List.map_append]
  refine joinFragments_append (fun s hs => ?_) _
  obtain ⟨c, hc, rfl⟩ := List.mem_map.mp hs
  exact endsInBackslash_translate fun hfeed => h (hfeed ▸ hc)

end Latex
end OfficeMath
