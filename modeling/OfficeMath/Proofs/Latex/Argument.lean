import OfficeMath.Proofs.Latex.Closed

/-! How LaTeX takes in arguments. An argument between braces ends at the brace that closes it. An optional argument ends
    at the first closing bracket outside braces, so that a closed text is taken in whole from between brackets if and
    only if it has no closing bracket outside its own braces. -/

namespace OfficeMath
namespace Latex

/-- What is read before anything has been read. -/
def Reader.start : Reader := ⟨0, false⟩

namespace Reader

variable {stop : Char} {r r' : Reader} {cs : List Char}

/-- The reader comes upon the character where no group is open and no backslash waits. -/
def meets (stop : Char) (r : Reader) : List Char → Bool
  | [] => false
  | c :: cs => (r == start && c == stop) || (r.step c).any fun r => meets stop r cs

/-- The text up to where the reader first comes upon the character, and what is after the character. -/
def upTo? (stop : Char) (r : Reader) : List Char → Option (List Char × List Char)
  | [] => none
  | c :: cs =>
    if r = start ∧ c = stop then some ([], cs)
    else (r.step c).bind fun r => (upTo? stop r cs).map fun part => (c :: part.1, part.2)

theorem upTo?_stop (stop : Char) (cs : List Char) : upTo? stop start (stop :: cs) = some ([], cs) := by
  rw [upTo?, if_pos ⟨rfl, rfl⟩]

/-- A reader that does not come upon the character reads on to where it stands next. -/
theorem upTo?_append (hread : r.read cs = some start) (hmeets : meets stop r cs = false) (ds : List Char) :
    upTo? stop r (cs ++ stop :: ds) = some (cs, ds) := by
  induction cs generalizing r with
  | nil =>
    cases hread
    exact upTo?_stop stop ds
  | cons c cs ih =>
    obtain ⟨s, hs, hread⟩ := Option.bind_eq_some_iff.mp hread
    simp only [meets, hs, Option.any_some, Bool.or_eq_false_iff, Bool.and_eq_false_iff, beq_eq_false_iff_ne] at hmeets
    have hgo : ¬(r = start ∧ c = stop) := fun ⟨hr, hc⟩ => hmeets.1.elim (· hr) (· hc)
    rw [List.cons_append, upTo?, if_neg hgo, hs, Option.bind_some, ih hread hmeets.2, Option.map_some]

/-- A reader that comes upon the character takes in less. -/
theorem exists_upTo?_append (hmeets : meets stop r cs = true) :
    ∃ first rest, cs = first ++ stop :: rest ∧ ∀ ds, upTo? stop r (cs ++ ds) = some (first, rest ++ ds) := by
  induction cs generalizing r with
  | nil => cases hmeets
  | cons c cs ih =>
    by_cases hstop : r = start ∧ c = stop
    · obtain ⟨rfl, rfl⟩ := hstop
      exact ⟨[], cs, rfl, fun ds => upTo?_stop c (cs ++ ds)⟩
    · have hgo : (r == start && c == stop) = false := by simpa [beq_eq_false_iff_ne] using hstop
      rw [meets, hgo, Bool.false_or] at hmeets
      obtain ⟨s, hs, hmeets⟩ := (Option.any_eq_true ..).mp hmeets
      obtain ⟨first, rest, rfl, hrest⟩ := ih hmeets
      refine ⟨c :: first, rest, rfl, fun ds => ?_⟩
      rw [List.cons_append, upTo?, if_neg hstop, hs, Option.bind_some, hrest, Option.map_some]

/-- At the end of a group from outside a reader is refused, so it does not come upon one in what it reads. -/
theorem meets_brace (hread : r.read cs = some r') : meets '}' r cs = false := by
  induction cs generalizing r with
  | nil => rfl
  | cons c cs ih =>
    obtain ⟨s, hs, hread⟩ := Option.bind_eq_some_iff.mp hread
    have hgo : (r == start && c == '}') = false := by
      rw [Bool.and_eq_false_iff, beq_eq_false_iff_ne, beq_eq_false_iff_ne, ← not_and_or]
      rintro ⟨rfl, rfl⟩
      cases hs
    rw [meets, hgo, hs, Bool.false_or]
    exact ih hread

/-- What a text does not hold is not come upon. -/
theorem meets_of_not_mem (h : stop ∉ cs) : meets stop r cs = false := by
  induction cs generalizing r with
  | nil => rfl
  | cons c cs ih =>
    rw [List.mem_cons, not_or] at h
    have hne : (c == stop) = false := beq_eq_false_iff_ne.mpr (Ne.symm h.1)
    rw [meets, hne, Bool.and_false, Bool.false_or]
    cases hs : r.step c with
    | none => rfl
    | some s => exact ih h.2

end Reader

/-! ### Arguments -/

/-- The text has a closing bracket outside braces. -/
def hasBareBracket (latex : String) : Bool := Reader.meets ']' .start latex.toList

/-- The optional argument that LaTeX takes in after an opening bracket, and what is left. -/
def optionalArgument? (latex : String) : Option (String × String) :=
  (Reader.upTo? ']' .start latex.toList).map fun part => (String.ofList part.1, String.ofList part.2)

/-- The argument between braces that LaTeX takes in, and what is left. -/
def bracedArgument? (latex : String) : Option (String × String) :=
  match latex.toList with
  | '{' :: cs => (Reader.upTo? '}' .start cs).map fun part => (String.ofList part.1, String.ofList part.2)
  | _ => none

variable {latex : String}

theorem Closed.read_start (h : Closed latex) : Reader.read .start latex.toList = some .start := h 0

theorem hasBareBracket_of_not_mem (h : ']' ∉ latex.toList) : hasBareBracket latex = false := Reader.meets_of_not_mem h

theorem bracedArgument?_braced (h : Closed latex) (after : String) :
    bracedArgument? (braced latex ++ after) = some (latex, after) := by
  have htext : (braced latex ++ after).toList = '{' :: (latex.toList ++ '}' :: after.toList) := by simp
  have hread := Reader.upTo?_append h.read_start (Reader.meets_brace h.read_start) after.toList
  simp [bracedArgument?, htext, hread]

theorem optionalArgument?_append (h : Closed latex) (hbare : hasBareBracket latex = false) (after : String) :
    optionalArgument? (latex ++ "]" ++ after) = some (latex, after) := by
  have htext : (latex ++ "]" ++ after).toList = latex.toList ++ ']' :: after.toList := by simp
  have hread := Reader.upTo?_append h.read_start hbare after.toList
  simp [optionalArgument?, htext, hread]

theorem exists_optionalArgument?_append (hbare : hasBareBracket latex = true) :
    ∃ first rest, latex = first ++ "]" ++ rest ∧
      ∀ after, optionalArgument? (latex ++ "]" ++ after) = some (first, rest ++ "]" ++ after) := by
  obtain ⟨first, rest, hlatex, hread⟩ := Reader.exists_upTo?_append hbare
  refine ⟨String.ofList first, String.ofList rest, ?_, fun after => ?_⟩
  · rw [← String.toList_inj, hlatex]
    simp
  · rw [optionalArgument?, String.append_assoc, String.toList_append, hread]
    simp [← String.toList_inj]

/-- A closed text is taken in whole from between brackets if and only if it has no bare closing bracket. -/
theorem optionalArgument?_eq_some_iff (h : Closed latex) (after : String) :
    optionalArgument? (latex ++ "]" ++ after) = some (latex, after) ↔ hasBareBracket latex = false := by
  constructor
  · intro hread
    rw [Bool.eq_false_iff]
    intro hbare
    obtain ⟨first, rest, hlatex, hless⟩ := exists_optionalArgument?_append hbare
    rw [hless] at hread
    have hfirst : first = latex := congrArg Prod.fst (Option.some.inj hread)
    have hlength := congrArg String.length hlatex
    rw [hfirst, String.length_append, String.length_append, show "]".length = 1 from rfl] at hlength
    omega
  · exact fun hbare => optionalArgument?_append h hbare after

end Latex
end OfficeMath
