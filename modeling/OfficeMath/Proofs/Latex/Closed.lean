import Mathlib
import OfficeMath.Proofs.Latex.Inherited

/-! LaTeX that is closed: every group is ended where it is begun, no backslash waits for its character, and no
    character stands by itself that comments out, leaves the formula or names a parameter. A text that is closed
    can be put anywhere without a change to how its surroundings are read. -/

namespace OfficeMath
namespace Latex

/-! ### Lexemes -/

/-- A lexeme of LaTeX: a character by itself, or a character with the backslash before it. -/
inductive Lexeme where
  | plain (c : Char)
  | escaped (c : Char)
  deriving DecidableEq, Repr

/-- The lexemes of a text from left to right. There are none if the last backslash has no character after it. -/
def lexemes? : List Char → Option (List Lexeme)
  | [] => some []
  | [c] => if c = '\\' then none else some [.plain c]
  | c :: d :: cs =>
    if c = '\\' then (lexemes? cs).map (.escaped d :: ·) else (lexemes? (d :: cs)).map (.plain c :: ·)

/-- By how much a lexeme changes the number of open groups. -/
def Lexeme.weight : Lexeme → Int
  | .plain '{' => 1
  | .plain '}' => -1
  | _ => 0

/-- The number of groups that the lexemes begin and do not end. -/
def depth (ls : List Lexeme) : Int := (ls.map Lexeme.weight).sum

/-- The characters that must not stand by themselves: they start a comment, end the formula or name a
    parameter. -/
def markup : List Char := ['%', '$', '#']

/-- The text is closed: it ends no group that it has not begun and leaves none open, it has no markup, and every
    backslash has the character that it escapes. -/
def LexicallyClosed (latex : String) : Prop :=
  ∃ ls, lexemes? latex.toList = some ls ∧ depth ls = 0 ∧ (∀ n, 0 ≤ depth (ls.take n)) ∧
    ∀ c ∈ markup, Lexeme.plain c ∉ ls

/-! ### Reading -/

/-- What a reader of LaTeX keeps in mind: the number of open groups, and whether a backslash waits. -/
structure Reader where
  depth : Nat
  escaping : Bool
  deriving DecidableEq, Repr

namespace Reader

/-- Reads a character. A backslash before a blank character is refused as well: the blank might be trimmed. -/
def step (r : Reader) (c : Char) : Option Reader :=
  if r.escaping then if Text.isBlank c then none else some ⟨r.depth, false⟩
  else if c = '\\' then some ⟨r.depth, true⟩
  else if c = '{' then some ⟨r.depth + 1, false⟩
  else if c = '}' then if r.depth = 0 then none else some ⟨r.depth - 1, false⟩
  else if c ∈ markup then none
  else some r

def read (r : Reader) (cs : List Char) : Option Reader := cs.foldlM step r

/-- The characters that a reader does not pass over. -/
def special : List Char := '\\' :: '{' :: '}' :: markup

variable {r r' : Reader} {c : Char} {cs ds : List Char}

theorem isBlank_of_special (h : c ∈ special) : Text.isBlank c = false := by
  have hall : (special.all fun c => !Text.isBlank c) = true := by decide
  simpa using List.all_eq_true.mp hall c h

theorem step_plain {d : Nat} (h : c ∉ special) : step ⟨d, false⟩ c = some ⟨d, false⟩ := by
  simp only [special, List.mem_cons, not_or] at h
  simp [step, h]

@[simp] theorem read_nil : r.read [] = some r := rfl

theorem read_cons : r.read (c :: cs) = (r.step c).bind (read · cs) := rfl

theorem read_append : r.read (cs ++ ds) = (r.read cs).bind (read · ds) := List.foldlM_append

theorem read_append_of_eq (h : r.read cs = some r') : r.read (cs ++ ds) = r'.read ds := by
  rw [read_append, h]
  rfl

/-- Groups around a text do not matter to a reader that ends no group from outside. -/
theorem step_add (k : Nat) (h : r.step c = some r') :
    step ⟨r.depth + k, r.escaping⟩ c = some ⟨r'.depth + k, r'.escaping⟩ := by
  obtain ⟨d, e⟩ := r
  unfold step at h ⊢
  dsimp only at h ⊢
  split_ifs at h ⊢ <;> cases h
  · rfl
  · rfl
  · rw [Nat.add_right_comm]
  · omega
  · rw [Nat.sub_add_comm (by omega)]
  · rfl

theorem read_add (k : Nat) (h : r.read cs = some r') :
    read ⟨r.depth + k, r.escaping⟩ cs = some ⟨r'.depth + k, r'.escaping⟩ := by
  induction cs generalizing r with
  | nil =>
    cases h
    rfl
  | cons c cs ih =>
    rw [read_cons] at h ⊢
    obtain ⟨s, hs, h⟩ := Option.bind_eq_some_iff.mp h
    rw [step_add k hs]
    exact ih h

-- a backslash that waits does not take a blank, and nothing else changes at one
theorem step_blank (hc : Text.isBlank c = true) (h : r.step c = some r') : r' = r := by
  obtain ⟨d, e⟩ := r
  cases e with
  | true => simp [step, hc] at h
  | false =>
    have hspecial : c ∉ special := fun hmem => by simp [isBlank_of_special hmem] at hc
    rw [step_plain hspecial] at h
    exact (Option.some.inj h).symm

theorem read_blank (hblank : ∀ c ∈ cs, Text.isBlank c = true) (h : r.read cs = some r') : r' = r := by
  induction cs generalizing r with
  | nil => exact (Option.some.inj h).symm
  | cons c cs ih =>
    rw [read_cons] at h
    obtain ⟨s, hs, h⟩ := Option.bind_eq_some_iff.mp h
    rw [step_blank (hblank c (List.mem_cons_self ..)) hs] at h
    exact ih (fun d hd => hblank d (List.mem_cons_of_mem _ hd)) h

end Reader

/-! ### Closed texts -/

/-- A reader comes out of the text as it went in. -/
def Closed (latex : String) : Prop := ∀ d, Reader.read ⟨d, false⟩ latex.toList = some ⟨d, false⟩

namespace Closed
variable {s t : String}

theorem of_read (h : Reader.read ⟨0, false⟩ s.toList = some ⟨0, false⟩) : Closed s := fun d => by
  simpa using Reader.read_add d h

instance : DecidablePred Closed := fun s =>
  decidable_of_iff (Reader.read ⟨0, false⟩ s.toList = some ⟨0, false⟩) ⟨of_read, fun h => h 0⟩

theorem append (hs : Closed s) (ht : Closed t) : Closed (s ++ t) := fun d => by
  rw [String.toList_append, Reader.read_append_of_eq (hs d)]
  exact ht d

theorem braced (hs : Closed s) : Closed (braced s) := fun d => by
  rw [toList_braced, Reader.read_cons]
  show Reader.read ⟨d + 1, false⟩ (s.toList ++ ['}']) = some ⟨d, false⟩
  rw [Reader.read_append_of_eq (hs (d + 1))]
  rfl

theorem singleton {c : Char} (h : c ∉ Reader.special) : Closed (String.singleton c) := fun d => by
  rw [String.toList_singleton, Reader.read_cons, Reader.step_plain h]
  rfl

/-- Blank characters do not matter, and no backslash takes one with it, so they can be left out at the ends. -/
theorem trim (hs : Closed s) : Closed (Text.trim s) := fun d => by
  obtain ⟨before, after, hsplit, hbefore, hafter⟩ := Text.exists_eq_append_trimChars s.toList
  have h := hs d
  rw [hsplit, Reader.read_append] at h
  obtain ⟨r, hr, h⟩ := Option.bind_eq_some_iff.mp h
  rw [Reader.read_blank hbefore hr, Reader.read_append] at h
  obtain ⟨r', hr', h⟩ := Option.bind_eq_some_iff.mp h
  rw [Text.toList_trim, hr', Reader.read_blank hafter h]

end Closed

/-! ### Reading against lexemes -/

/-- The lexemes lead from one depth to the other, never below zero, and have no markup. -/
structure Lexeme.Leads (d d' : Nat) (ls : List Lexeme) : Prop where
  depth_eq : (d : Int) + depth ls = d'
  nonneg : ∀ n, 0 ≤ (d : Int) + depth (ls.take n)
  noMarkup : ∀ c ∈ markup, Lexeme.plain c ∉ ls

theorem Lexeme.Leads.nil (d : Nat) : Leads d d [] where
  depth_eq := by simp [depth]
  nonneg n := by simp [depth]
  noMarkup := by simp

theorem Lexeme.Leads.cons {d e d' : Nat} {l : Lexeme} {ls : List Lexeme} (hweight : (d : Int) + l.weight = e)
    (hl : ∀ c ∈ markup, plain c ≠ l) (h : Leads e d' ls) : Leads d d' (l :: ls) where
  depth_eq := by
    have := h.depth_eq
    simp only [depth, List.map_cons, List.sum_cons] at this ⊢
    omega
  nonneg n := by
    cases n with
    | zero => simp [depth]
    | succ n =>
      have := h.nonneg n
      simp only [depth, List.take_succ_cons, List.map_cons, List.sum_cons] at this ⊢
      omega
  noMarkup c hc hmem := (List.mem_cons.mp hmem).elim (hl c hc) (h.noMarkup c hc)

theorem Reader.step_escaped {d : Nat} {c : Char} {r : Reader} (h : step ⟨d, true⟩ c = some r) : r = ⟨d, false⟩ := by
  unfold step at h
  simp only [ite_true] at h
  split at h
  · cases h
  · exact (Option.some.inj h).symm

theorem Reader.step_of_ne {d : Nat} {c : Char} {r : Reader} (hc : c ≠ '\\') (h : step ⟨d, false⟩ c = some r) :
    ∃ e, r = ⟨e, false⟩ ∧ (d : Int) + (Lexeme.plain c).weight = e ∧ c ∉ markup := by
  unfold step at h
  simp only [Bool.false_eq_true, ite_false, hc] at h
  split_ifs at h with hopen hclose hzero hmarkup
  all_goals cases h
  · exact ⟨d + 1, rfl, by simp [hopen, Lexeme.weight], by simp [hopen, markup]⟩
  · exact ⟨d - 1, rfl, by simp [hclose, Lexeme.weight]; omega, by simp [hclose, markup]⟩
  · refine ⟨d, rfl, ?_, hmarkup⟩
    unfold Lexeme.weight
    split
    · next heq => exact absurd (Lexeme.plain.inj heq) hopen
    · next heq => exact absurd (Lexeme.plain.inj heq) hclose
    · omega

theorem Reader.exists_lexemes {d d' : Nat} {cs : List Char} (h : read ⟨d, false⟩ cs = some ⟨d', false⟩) :
    ∃ ls, lexemes? cs = some ls ∧ Lexeme.Leads d d' ls := by
  induction cs using lexemes?.induct generalizing d with
  | case1 =>
    cases h
    exact ⟨[], rfl, .nil _⟩
  | case2 => cases h
  | case3 c hc =>
    rw [read_cons] at h
    obtain ⟨r, hr, h⟩ := Option.bind_eq_some_iff.mp h
    obtain ⟨e, rfl, hweight, hmarkup⟩ := step_of_ne hc hr
    cases h
    refine ⟨[.plain c], by simp [lexemes?, hc], .cons hweight ?_ (.nil _)⟩
    rintro d hd ⟨⟩
    exact hmarkup hd
  | case4 c cs ih =>
    rw [read_cons] at h
    obtain ⟨r, hr, h⟩ := Option.bind_eq_some_iff.mp h
    cases hr
    rw [read_cons] at h
    obtain ⟨r, hr, h⟩ := Option.bind_eq_some_iff.mp h
    obtain rfl := step_escaped hr
    obtain ⟨ls, hls, hleads⟩ := ih h
    refine ⟨.escaped c :: ls, by simp [lexemes?, hls], .cons (by simp [Lexeme.weight]) ?_ hleads⟩
    rintro d - ⟨⟩
  | case5 c b cs hc ih =>
    rw [read_cons] at h
    obtain ⟨r, hr, h⟩ := Option.bind_eq_some_iff.mp h
    obtain ⟨e, rfl, hweight, hmarkup⟩ := step_of_ne hc hr
    obtain ⟨ls, hls, hleads⟩ := ih h
    refine ⟨.plain c :: ls, by simp [lexemes?, hc, hls], .cons hweight ?_ hleads⟩
    rintro d hd ⟨⟩
    exact hmarkup hd

theorem Closed.lexicallyClosed {s : String} (h : Closed s) : LexicallyClosed s := by
  obtain ⟨ls, hls, hleads⟩ := Reader.exists_lexemes (h 0)
  exact ⟨ls, hls, by simpa using hleads.depth_eq, by simpa using hleads.nonneg, hleads.noMarkup⟩

/-! ### Putting closed texts together -/

theorem escapeOf?_ne_none_of_special {c : Char} (h : c ∈ Reader.special) : escapeOf? c ≠ none := by
  have hall : (Reader.special.all fun c => (escapeOf? c).isSome) = true := by decide
  exact Option.isSome_iff_ne_none.mp (List.all_eq_true.mp hall c h)

/-- Closed texts can be joined anywhere, and what is put together from them is closed. -/
theorem inherited_closed : Inherited Closed where
  append hs ht _ := hs.append ht
  braced hs := hs.braced
  trim hs := hs.trim
  plain _ hc := .singleton fun hspecial => escapeOf?_ne_none_of_special hspecial hc
  fixed := by decide +kernel

theorem Closed.joinFragments {fragments : List String} (h : ∀ f ∈ fragments, Closed f) :
    Closed (joinFragments fragments) :=
  inherited_closed.kept.joinFragments h

end Latex
end OfficeMath
