import OfficeMath.Latex.AccentMark
import OfficeMath.Latex.Bracket
import OfficeMath.Latex.Command
import OfficeMath.Latex.FunctionName
import OfficeMath.Latex.Symbol
import OfficeMath.Proofs.Latex.Escape

/-! Properties that LaTeX takes over from what it is put together from. Such a property holds of every text that is
    written as it stands and of every text that is escaped, and it is kept by the ways in which texts are joined, as
    long as no control word runs into a letter. A property that only looks at what stands outside braces and
    environments asks less of what is put into them. -/

namespace OfficeMath
namespace Latex

variable {s t u : String}

/-! ### Where texts meet -/

/-- A control word at the end of the first text takes in the letter with which the second one starts. -/
def runsOn (s t : String) : Bool := startsWithLetter t && endsInControlWord s.toList.reverse

/-- The text ends in a character that is no letter, so that what comes after it is set off from what is before. -/
def setsOff (s : String) : Bool := s.toList.getLast?.any fun c => !c.isAlpha

theorem runsOn_of_start (h : startsWithLetter t = false) : runsOn s t = false := by
  rw [runsOn, h, Bool.false_and]

theorem setsOff_iff : setsOff s = true ↔ ∃ cs c, s.toList = cs ++ [c] ∧ c.isAlpha = false := by
  constructor
  · intro h
    unfold setsOff at h
    cases hc : s.toList.getLast? with
    | none => rw [hc] at h; cases h
    | some c =>
      rw [hc, Option.any_some, Bool.not_eq_true'] at h
      obtain ⟨cs, hcs⟩ := List.getLast?_eq_some_iff.mp hc
      exact ⟨cs, c, hcs, h⟩
  · rintro ⟨cs, c, hcs, hc⟩
    simp [setsOff, hcs, hc]

theorem setsOff_append (h : setsOff t = true) : setsOff (s ++ t) = true := by
  obtain ⟨cs, c, hcs, hc⟩ := setsOff_iff.mp h
  exact setsOff_iff.mpr ⟨s.toList ++ cs, c, by simp [hcs], hc⟩

theorem runsOn_of_end (h : setsOff s = true) : runsOn s t = false := by
  obtain ⟨cs, c, hcs, hc⟩ := setsOff_iff.mp h
  have hend : endsInControlWord s.toList.reverse = false := by
    simp [hcs, endsInControlWord, hc]
  rw [runsOn, hend, Bool.and_false]

/-- No escape is a control word to its end, and a letter by itself is none. -/
theorem runsOn_escapeChar (c : Char) : runsOn (escapeChar c) t = false := by
  cases h : escapeOf? c with
  | none =>
    rw [escapeChar_of_none h, runsOn, String.toList_singleton]
    simp [endsInControlWord]
  | some s =>
    have hall : ∀ p ∈ escapes, setsOff p.2 = true := by decide
    have hs : escapeChar c = s := by rw [escapeChar, h, Option.getD_some]
    rw [hs]
    exact runsOn_of_end (hall (c, s) (escapeOf?_eq_some_mem h))

theorem startsWithLetter_append (h : s ≠ "") : startsWithLetter (s ++ t) = startsWithLetter s := by
  unfold startsWithLetter
  rw [String.toList_append]
  cases hs : s.toList with
  | nil => exact absurd (String.toList_eq_nil_iff.mp hs) h
  | cons c cs => rfl

@[simp] theorem startsWithLetter_braced : startsWithLetter (braced s) = false := by
  rw [startsWithLetter, toList_braced]
  rfl

theorem startsWithLetter_command {name : String} (h : name ≠ "") :
    startsWithLetter (command name s) = startsWithLetter name :=
  startsWithLetter_append h

/-! ### Letters -/

/-- No letter needs an escape. -/
theorem escapeOf?_of_isAlpha {c : Char} (h : c.isAlpha = true) : escapeOf? c = none := by
  have hall : ∀ p ∈ escapes, p.1.isAlpha = false := by decide
  refine Option.eq_none_iff_forall_ne_some.mpr fun latex hlatex => ?_
  exact Bool.false_ne_true ((hall _ (escapeOf?_eq_some_mem hlatex)).symm.trans h)

theorem isAlpha_of_plainLetter? {c letter : Char} (h : plainLetter? c = some letter) : letter.isAlpha = true := by
  have hcapital : ∀ k < 26, (Char.ofNat (k + 0x41)).isAlpha = true := by decide
  have hsmall : ∀ k < 26, (Char.ofNat (k + 0x61)).isAlpha = true := by decide
  unfold plainLetter? at h
  simp only [Bool.and_eq_true, decide_eq_true_eq] at h
  split at h
  · next hrange =>
    rw [← Option.some.inj h]
    exact hcapital (c.toNat - 0x1D434) (by omega)
  · split at h
    · next hrange =>
      rw [← Option.some.inj h]
      exact hsmall (c.toNat - 0x1D44E) (by omega)
    · cases h

/-! ### Texts that are written as they stand -/

/-- The commands of the constructs, and the signs that they write around and between their parts. -/
def constructTexts : List String := [
  "", " ", "\n", ",", ", ", ".", "/", "(", ")", "]", "_", "^", " & ", " \\\\\n", "ERROR: ", "Accent?",
  "\\mathscr", "\\mathfrak", "\\mathbb", "\\mathsf", "\\mathtt", "\\mathbf", "\\textit", "\\mathrm",
  "\\frac", "\\binom", " \\over ", "\\sqrt", "\\sqrt[", "\\sum", "\\limits", "\\nolimits",
  "\\text", "\\overline", "\\underline", "\\boxed", "\\overbrace", "\\underbrace", "\\phantom",
  "\\left", "\\right", "\\begin", "\\end", "\\operatorname", "\\lim_"]

/-- The names of environments. -/
def environmentNames : List String :=
  ["matrix", "pmatrix", "bmatrix", "Bmatrix", "vmatrix", "Vmatrix", "cases", "aligned", "align", "gathered"]

/-- What is wrong with a construct that is not complete. -/
def complaints : List String := [
  "Incomplete Fraction", "Incomplete Radical", "LimUpp incomplete", "LimLow incomplete",
  "N-ary operator missing base element", "Accent missing base or char", "Bar missing base element",
  "Box missing base element", "GroupChar missing base or char", "Phantom missing base element",
  "Missing function name", "Missing function name; args: "]

/-- All texts that are written as they stand, list by list: the entries of the tables, and what constructs write
    themselves. -/
def fixedTexts : List (List String) := [
  symbols.map Prod.snd, escapes.map Prod.snd, brackets.map Prod.snd, functionCommands.map Prod.snd,
  combiningAccents.map Prod.snd, spacingAccents.map Prod.snd, constructTexts, environmentNames, complaints]

/-- The texts that begin and end an environment, and those that part its rows and cells. A line feed is escaped by a
    row break. -/
def arrayTexts : List String := ["\\begin", "\\end", cellSeparator, rowSeparator, "\\\\"]

/-! ### Properties that are kept -/

/-- A property `P` of LaTeX that is kept by joining texts; of what is put into braces only the weaker property `Q` is
    asked. The texts of environments need not have it. -/
structure Kept (Q P : String → Prop) : Prop where
  weaken {s : String} : P s → Q s
  append {s t : String} : P s → P t → runsOn s t = false → P (s ++ t)
  braced {s : String} : Q s → P (braced s)
  trim {s : String} : P s → P (Text.trim s)
  plain (c : Char) : escapeOf? c = none → P (String.singleton c)
  fixed (texts : List String) : texts ∈ fixedTexts → ∀ s ∈ texts, s ∉ arrayTexts → P s

/-- Rows with the property `Q` make an environment with the property `P`. -/
def Encloses (Q P : String → Prop) : Prop :=
  ∀ name ∈ environmentNames, ∀ rows : List String, (∀ r ∈ rows, Q r) → P (environment name rows)

namespace Kept

variable {Q P : String → Prop} (hP : Kept Q P)

include hP

theorem construct (h : s ∈ constructTexts.filter (· ∉ arrayTexts)) : P s := by
  obtain ⟨hmem, hs⟩ := List.mem_filter.mp h
  exact hP.fixed constructTexts (by simp [fixedTexts]) s hmem (of_decide_eq_true hs)

theorem complaint (h : s ∈ complaints) : P s := by
  have hcomplaints : ∀ s ∈ complaints, s ∉ arrayTexts := by decide
  exact hP.fixed complaints (by simp [fixedTexts]) s h (hcomplaints s h)

theorem empty : P "" := hP.construct (by decide)

/-! ### Joining -/

theorem append_of_start (hs : P s) (ht : P t) (h : startsWithLetter t = false) : P (s ++ t) :=
  hP.append hs ht (runsOn_of_start h)

theorem append_of_end (hs : P s) (ht : P t) (h : setsOff s = true) : P (s ++ t) := hP.append hs ht (runsOn_of_end h)

/-- A sign that neither starts nor ends with a letter can stand between any two texts. -/
theorem between (hs : P s) (hu : P u) (ht : P t) (hstart : startsWithLetter u = false) (hend : setsOff u = true) :
    P (s ++ u ++ t) :=
  hP.append_of_end (hP.append_of_start hs hu hstart) ht (setsOff_append hend)

theorem command {name : String} (hname : P name) (hs : Q s) : P (command name s) :=
  hP.append_of_start hname (hP.braced hs) startsWithLetter_braced

theorem pushFragment (hs : P s) (ht : P t) : P (pushFragment s t) := by
  rw [pushFragment_eq]
  split
  · exact hP.between hs (hP.construct (by decide)) ht rfl rfl
  · next h => exact hP.append hs ht (Bool.eq_false_iff.mpr h)

theorem joinFragments {fragments : List String} (h : ∀ f ∈ fragments, P f) : P (joinFragments fragments) := by
  rw [joinFragments_eq]
  suffices hfold : ∀ buffer, P buffer → P (fragments.foldl Latex.pushFragment buffer) from hfold "" hP.empty
  induction fragments with
  | nil => exact fun _ hbuffer => hbuffer
  | cons f fs ih =>
    intro buffer hbuffer
    exact ih (fun g hg => h g (List.mem_cons_of_mem _ hg)) _ (hP.pushFragment hbuffer (h f (List.mem_cons_self ..)))

theorem intercalate {separator : String} (hseparator : P separator) (hstart : startsWithLetter separator = false)
    (hend : setsOff separator = true) {fragments : List String} (h : ∀ f ∈ fragments, P f) :
    P (separator.intercalate fragments) := by
  induction fragments with
  | nil => exact hP.empty
  | cons f fs ih =>
    have hf : P f := h f (List.mem_cons_self ..)
    cases fs with
    | nil => simpa using hf
    | cons g gs =>
      rw [String.intercalate_cons_cons]
      exact hP.between hf hseparator (ih fun t ht => h t (List.mem_cons_of_mem _ ht)) hstart hend

theorem row (hseparator : P cellSeparator) {cells : List String} (h : ∀ cell ∈ cells, P cell) : P (row cells) :=
  hP.intercalate hseparator rfl rfl h

/-! ### Texts from outside -/

theorem escapeChar {c : Char} (h : c = '\n' → P "\\\\") : P (escapeChar c) := by
  by_cases hc : c = '\n'
  · subst hc
    exact h rfl
  cases hescape : escapeOf? c with
  | none => exact escapeChar_of_none hescape ▸ hP.plain c hescape
  | some s =>
    have hs : Latex.escapeChar c = s := by rw [Latex.escapeChar, hescape, Option.getD_some]
    have hmem := escapeOf?_eq_some_mem hescape
    have hescapes : ∀ p ∈ escapes, p.1 ≠ '\n' → p.2 ∉ arrayTexts := by decide
    rw [hs]
    exact hP.fixed (escapes.map Prod.snd) (by simp [fixedTexts]) s (List.mem_map_of_mem hmem) (hescapes (c, s) hmem hc)

theorem escape {text : String} (h : '\n' ∈ text.toList → P "\\\\") : P (escape text) := by
  rw [escape_eq_escapeEach, escapeEach]
  generalize text.toList = cs at h ⊢
  induction cs with
  | nil => exact hP.empty
  | cons c cs ih =>
    have hc : c = '\n' → P "\\\\" := fun hc => h (hc ▸ List.mem_cons_self)
    rw [List.map_cons, String.join_cons]
    exact hP.append (hP.escapeChar hc) (ih fun hcs => h (List.mem_cons_of_mem c hcs)) (runsOn_escapeChar c)

/-- A text that needs no escape is one that has been escaped. -/
theorem of_plain (h : ∀ c ∈ s.toList, escapeOf? c = none) : P s := by
  have hescape : Latex.escape s = s := by rw [escape_eq_escapeEach, escapeEach_of_none h]
  refine hescape ▸ hP.escape fun hmem => ?_
  cases h _ hmem

theorem symbol {c : Char} (h : symbolOf? c = some s) : P s := by
  have hsymbols : ∀ p ∈ symbols, p.2 ∉ arrayTexts := by decide +kernel
  have hmem := symbolOf?_eq_some_mem h
  exact hP.fixed (symbols.map Prod.snd) (by simp [fixedTexts]) s (List.mem_map_of_mem hmem) (hsymbols (c, s) hmem)

theorem plainLetter {c letter : Char} (h : plainLetter? c = some letter) : P (String.singleton letter) :=
  hP.plain letter (escapeOf?_of_isAlpha (isAlpha_of_plainLetter? h))

theorem translate {c : Char} (h : c = '\n' → P "\\\\") : P (translate c) := by
  unfold Latex.translate
  split
  · next s hs => exact hP.symbol hs
  · split
    · next letter hletter => exact hP.plainLetter hletter
    · exact hP.escapeChar h

theorem convertText {text : String} (h : '\n' ∈ text.toList → P "\\\\") : P (convertText text) := by
  refine hP.joinFragments fun s hs => ?_
  obtain ⟨c, hc, rfl⟩ := List.mem_map.mp hs
  exact hP.translate fun hfeed => h (hfeed ▸ hc)

/-! ### Tables -/

theorem bracket {fence : String} (h : '\n' ∈ fence.toList → P "\\\\") : P (bracket fence) := by
  unfold Latex.bracket
  cases hfence : brackets.lookup fence with
  | none => exact hP.escape h
  | some s =>
    have hbrackets : ∀ p ∈ brackets, p.2 ∉ arrayTexts := by decide
    have hmem := Text.mem_of_lookup hfence
    exact hP.fixed (brackets.map Prod.snd) (by simp [fixedTexts]) s (List.mem_map_of_mem hmem) (hbrackets _ hmem)

theorem functionCommand {name : String} (h : functionCommand? name = some s) : P s := by
  have hcommands : ∀ p ∈ functionCommands, p.2 ∉ arrayTexts := by decide +kernel
  have hmem := functionCommand?_eq_some_mem h
  exact hP.fixed (functionCommands.map Prod.snd) (by simp [fixedTexts]) s (List.mem_map_of_mem hmem)
    (hcommands _ hmem)

theorem accentCommand {accent : String} (h : accentCommand? accent = some s) : P s := by
  have hcombining {c : Char} (h : combiningAccents.lookup c = some s) : P s := by
    have haccents : ∀ p ∈ combiningAccents, p.2 ∉ arrayTexts := by decide +kernel
    have hmem := Text.mem_of_lookup h
    exact hP.fixed (combiningAccents.map Prod.snd) (by simp [fixedTexts]) s (List.mem_map_of_mem hmem) (haccents _ hmem)
  have hspacing (h : spacingAccents.lookup accent = some s) : P s := by
    have haccents : ∀ p ∈ spacingAccents, p.2 ∉ arrayTexts := by decide +kernel
    have hmem := Text.mem_of_lookup h
    exact hP.fixed (spacingAccents.map Prod.snd) (by simp [fixedTexts]) s (List.mem_map_of_mem hmem) (haccents _ hmem)
  unfold accentCommand? at h
  split at h
  · rcases Option.or_eq_some_iff.mp h with h | ⟨-, h⟩
    · exact hcombining h
    · exact hspacing h
  · split at h
    · exact hcombining h
    · exact hspacing h

theorem of_isWord (h : isWord s = true) : P s := by
  simp only [isWord, Bool.and_eq_true, List.all_eq_true] at h
  exact hP.of_plain fun c hc => escapeOf?_of_isAlpha (h.2 c hc)

theorem operatorName (hs : P s) : P (operatorName s) := hP.command (hP.construct (by decide)) (hP.weaken hs)

theorem plainOperator {name : String} (h : plainOperator? name = some s) : P s := by
  unfold plainOperator? at h
  split at h
  · next latex hlatex =>
    cases h
    exact hP.functionCommand hlatex
  · split at h
    · next hword =>
      cases h
      exact hP.operatorName (hP.of_isWord hword)
    · cases h

end Kept

/-! ### Inherited properties -/

/-- A property of LaTeX that is inherited from the pieces to the whole. -/
structure Inherited (P : String → Prop) : Prop where
  append {s t : String} : P s → P t → runsOn s t = false → P (s ++ t)
  braced {s : String} : P s → P (braced s)
  trim {s : String} : P s → P (Text.trim s)
  plain (c : Char) : escapeOf? c = none → P (String.singleton c)
  fixed (texts : List String) : texts ∈ fixedTexts → ∀ s ∈ texts, P s

namespace Inherited

variable {P : String → Prop} (hP : Inherited P)

include hP

theorem kept : Kept P P where
  weaken := id
  append := hP.append
  braced := hP.braced
  trim := hP.trim
  plain := hP.plain
  fixed texts htexts s hs _ := hP.fixed texts htexts s hs

theorem construct (h : s ∈ constructTexts) : P s := hP.fixed constructTexts (by simp [fixedTexts]) s h

theorem lineBreak : P "\\\\" := hP.fixed (escapes.map Prod.snd) (by simp [fixedTexts]) _ (by decide)

theorem environment : Encloses P P := by
  intro name hname rows hrows
  have hname : P name := hP.fixed environmentNames (by simp [fixedTexts]) name hname
  have hline : P "\n" := hP.construct (by decide)
  have hbegin : P (Latex.command "\\begin" name) := hP.kept.command (hP.construct (by decide)) hname
  have hend : P (Latex.command "\\end" name) := hP.kept.command (hP.construct (by decide)) hname
  have hbody : P (rowSeparator.intercalate rows) := hP.kept.intercalate (hP.construct (by decide)) rfl rfl hrows
  have hopened := hP.kept.append_of_start (hP.kept.between hbegin hline hbody rfl rfl) hline rfl
  exact hP.kept.append_of_start hopened hend (startsWithLetter_command (by decide))

end Inherited

end Latex
end OfficeMath
