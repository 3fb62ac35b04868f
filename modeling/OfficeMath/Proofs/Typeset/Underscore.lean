import OfficeMath.Proofs.Equation.Annotation
import OfficeMath.Proofs.Latex.Fragments
import OfficeMath.Proofs.Typeset.Lookup

/-! Underscores in LaTeX that comes from text. Neither a symbol nor the command of a style or of a function has one, and
    the escape keeps it, so the LaTeX of a text has an underscore if and only if the text has. It is the same with every
    character that only stands for itself in LaTeX, such as a closing bracket. -/

namespace OfficeMath

theorem Text.mem_toList_trim {c : Char} (hc : isBlank c = false) (s : String) :
    c ∈ (trim s).toList ↔ c ∈ s.toList := by
  obtain ⟨before, after, heq, hbefore, hafter⟩ := exists_eq_append_trimChars s.toList
  have hout {cs : List Char} (hcs : ∀ d ∈ cs, isBlank d = true) : c ∉ cs := fun hmem => by
    rw [hcs c hmem] at hc
    cases hc
  rw [toList_trim]
  constructor
  · intro hmem
    rw [heq]
    simp [hmem]
  · intro hmem
    rw [heq] at hmem
    simpa [hout hbefore, hout hafter] using hmem

namespace Latex

variable {c : Char} {latex name text : String}

/-! ### Joined fragments -/

/-- Between two fragments nothing is written but a space. -/
theorem mem_toList_pushFragment (hc : c ≠ ' ') (s t : String) :
    c ∈ (pushFragment s t).toList ↔ c ∈ s.toList ∨ c ∈ t.toList := by
  rw [pushFragment_eq]
  split <;> simp [hc]

theorem mem_toList_joinFragments (hc : c ≠ ' ') (fragments : List String) :
    c ∈ (joinFragments fragments).toList ↔ ∃ s ∈ fragments, c ∈ s.toList := by
  rw [joinFragments_eq]
  induction fragments using List.reverseRecOn with
  | nil => simp
  | append_singleton fragments t ih =>
    rw [List.foldl_append, List.foldl_cons, List.foldl_nil, mem_toList_pushFragment hc, ih]
    simp [or_and_right, exists_or]

/-! ### Text -/

/-- The signs that symbols are made of besides letters. -/
def symbolSigns : List Char := ['\\', '{', '}', '^', '\x27', '-', ',', ':', '~']

/-- In LaTeX that comes from text the character only stands for itself: it is no letter, no blank and no sign in a
    symbol, and no other character is escaped with it. -/
structure Literal (c : Char) : Prop where
  letter : c.isAlpha = false
  blank : Text.isBlank c = false
  sign : c ∉ symbolSigns
  escaped : ∀ p ∈ escapes, c ∈ p.2.toList → p.1 = c
  self : c ∈ (translate c).toList

theorem literal_underscore : Literal '_' := ⟨by decide, by decide, by decide, by decide, by decide +kernel⟩

theorem literal_closingBracket : Literal ']' := ⟨by decide, by decide, by decide, by decide, by decide +kernel⟩

namespace Literal

variable {d : Char} (hc : Literal c)

include hc

theorem markup : c ∉ ['\\', '{', '}'] := by
  have hsigns : ['\\', '{', '}'] ⊆ symbolSigns := by decide
  exact fun hmem => hc.sign (hsigns hmem)

theorem not_mem_of_symbolOf? (h : symbolOf? d = some latex) : c ∉ latex.toList := by
  have hsymbols : ∀ p ∈ symbols, p.2.toList.all (fun d => d.isAlpha || d ∈ symbolSigns) = true := by decide +kernel
  intro hmem
  have hletter := List.all_eq_true.mp (hsymbols _ (symbolOf?_eq_some_mem h)) c hmem
  simp [hc.letter, hc.sign] at hletter

theorem ne_space : c ≠ ' ' := by
  rintro rfl
  exact absurd hc.blank (by decide)

theorem eq_of_mem_escapeChar (hmem : c ∈ (escapeChar d).toList) : d = c := by
  unfold escapeChar at hmem
  cases hescape : escapeOf? d with
  | none => simpa [hescape, eq_comm] using hmem
  | some s =>
    rw [hescape] at hmem
    exact hc.escaped _ (escapeOf?_eq_some_mem hescape) hmem

theorem mem_of_mem_escape (hmem : c ∈ (Latex.escape text).toList) : c ∈ text.toList := by
  rw [escape_eq_escapeEach, toList_escapeEach] at hmem
  obtain ⟨d, hd, hmem⟩ := List.mem_flatMap.mp hmem
  exact hc.eq_of_mem_escapeChar hmem ▸ hd

/-- The character is written for itself, and no other character is written with it. -/
theorem mem_translate : c ∈ (translate d).toList ↔ d = c := by
  constructor
  · intro hmem
    unfold translate at hmem
    split at hmem
    · next s hs => exact absurd hmem (hc.not_mem_of_symbolOf? hs)
    · split at hmem
      · next letter hletter =>
        rw [String.toList_singleton, List.mem_singleton] at hmem
        subst hmem
        exact absurd (isAlpha_of_plainLetter? hletter) (Bool.eq_false_iff.mp hc.letter)
      · exact hc.eq_of_mem_escapeChar hmem
  · rintro rfl
    exact hc.self

theorem mem_convertText : c ∈ (convertText text).toList ↔ c ∈ text.toList := by
  rw [convertText, mem_toList_joinFragments hc.ne_space]
  simp [hc.mem_translate]

/-- The character is not in a command, nor in a name of words. -/
theorem not_mem_of_letters {cs : List Char} (h : cs.all (fun d => d ∈ ['\\', ' '] || d.isAlpha) = true) : c ∉ cs := by
  intro hmem
  have hletter := List.all_eq_true.mp h c hmem
  have hslash : c ≠ '\\' := fun heq => hc.markup (by simp [heq])
  simp [hslash, hc.letter, hc.ne_space] at hletter

/-- Neither the name of a function that has a command nor the command has the character. -/
theorem not_mem_of_functionCommand? (h : functionCommand? name = some latex) : c ∉ name.toList ∧ c ∉ latex.toList := by
  have hcommands : ∀ p ∈ functionCommands, p.1.toList.all (fun d => d ∈ ['\\', ' '] || d.isAlpha) = true ∧
      p.2.toList.all (fun d => d ∈ ['\\', ' '] || d.isAlpha) = true := by decide
  obtain ⟨hname, hlatex⟩ := hcommands _ (functionCommand?_eq_some_mem h)
  refine ⟨fun hmem => ?_, hc.not_mem_of_letters hlatex⟩
  exact hc.not_mem_of_letters hname ((Text.mem_toList_trim hc.blank name).mpr hmem)

theorem mem_operatorName : c ∈ (operatorName name).toList ↔ c ∈ name.toList := by
  have hmarkup := hc.markup
  have hcommand : c ∉ "\\operatorname".toList := hc.not_mem_of_letters (by decide)
  rw [operatorName, toList_command]
  simp_all

theorem not_mem_of_plainOperator? (h : plainOperator? name = some latex) : c ∉ name.toList ∧ c ∉ latex.toList := by
  unfold plainOperator? at h
  split at h
  · next s hs =>
    cases h
    exact hc.not_mem_of_functionCommand? hs
  · split at h
    · next hword =>
      cases h
      have htrim : c ∉ (Text.trim name).toList := fun hmem => by
        have hletter := List.all_eq_true.mp (Bool.and_eq_true_iff.mp hword).2 c hmem
        exact Bool.false_ne_true (hc.letter.symm.trans hletter)
      refine ⟨fun hmem => htrim ((Text.mem_toList_trim hc.blank name).mpr hmem), ?_⟩
      rwa [hc.mem_operatorName]
    · cases h

end Literal

end Latex

namespace Typeset

open Latex

variable {latex : String}

theorem mem_toList_commandIf {c : Char} (hc : Literal c) {name : String} (hname : c ∉ name.toList) (condition : Bool)
    (text : String) : c ∈ (commandIf condition name text).toList ↔ c ∈ text.toList := by
  have hmarkup := hc.markup
  unfold commandIf
  split
  · simp_all
  · rfl

theorem mem_toList_styled {c : Char} (hc : Literal c) (style : RunStyle) :
    c ∈ (styled style latex).toList ↔ c ∈ latex.toList := by
  unfold styled
  split
  · next hempty => simp [String.isEmpty_iff.mp hempty]
  · cases style.alphabet with
    | some alphabet =>
      have hmarkup := hc.markup
      have hname : c ∉ (alphabetCommand alphabet).toList := hc.not_mem_of_letters (by cases alphabet <;> decide)
      simp_all
    | none =>
      rw [mem_toList_commandIf hc (hc.not_mem_of_letters (by decide)),
        mem_toList_commandIf hc (hc.not_mem_of_letters (by decide)),
        mem_toList_commandIf hc (hc.not_mem_of_letters (by decide))]

theorem mem_toList_run {c : Char} (hc : Literal c) (r : Run) : c ∈ (run r).toList ↔ c ∈ r.source.toList := by
  rw [run, mem_toList_styled hc, Run.latex, hc.mem_convertText]

theorem underscore_mem_renderedName : '_' ∈ (renderedName latex).toList ↔ '_' ∈ latex.toList := by
  have htrim : '_' ∈ (Text.trim latex).toList ↔ '_' ∈ latex.toList := Text.mem_toList_trim (by decide) latex
  unfold renderedName
  dsimp only
  split
  · next name hname =>
    obtain ⟨hlatex, hcommand⟩ := literal_underscore.not_mem_of_functionCommand? hname
    rw [htrim] at hlatex
    exact iff_of_false hcommand hlatex
  · split
    · exact htrim
    · rw [literal_underscore.mem_operatorName, htrim]

/-- A script above is written without an underscore of its own, as one below is not. -/
theorem underscore_mem_scripts (sup : Option String) :
    '_' ∈ (scripts none sup).toList ↔ ∃ s ∈ sup, '_' ∈ s.toList := by
  cases sup <;> simp [scripts]

theorem underscore_mem_script (base : String) (sup : Option String) :
    '_' ∈ (script (some base) none sup).toList ↔ '_' ∈ base.toList ∨ ∃ s ∈ sup, '_' ∈ s.toList := by
  cases sup <;> simp [script, scripts]

end Typeset

/-! ### Nodes that are set -/

namespace Node

open Latex

variable {α : Type} {choice : ArrayEnvironment} {enclosure : Enclosure α} {n c base : Node α} {sup : Option (Node α)}
  {text : String}

theorem note_typeset_of_script (h : c.kind = .script (some base) none sup) : (c.typeset choice enclosure).note =
    Typeset.script (some (base.typeset choice (enclosure.inside c)).note) none
      (sup.map fun d => (d.typeset choice (enclosure.inside c)).note) := by
  obtain ⟨m, hhead, hchildren, hnote⟩ := exists_latexOf_typeset choice enclosure c
  rw [hnote, latexOf, kind_of_children hchildren hhead, h]
  cases sup <;> rfl

/-- Runs show an underscore if and only if one is typed in them. -/
theorem underscore_mem_runs {cs : List (Node α)} {rs : List Run} (h : cs.mapM run? = some rs) :
    (∃ c ∈ cs, '_' ∈ (c.typeset choice enclosure).note.toList) ↔ ∃ r ∈ rs, '_' ∈ r.source.toList := by
  induction cs generalizing rs with
  | nil =>
    cases h
    simp
  | cons c cs ih =>
    rw [List.mapM_cons] at h
    obtain ⟨r, hr, h⟩ := Option.bind_eq_some_iff.mp h
    obtain ⟨rs', hrs, h⟩ := Option.bind_eq_some_iff.mp h
    cases h
    simp only [List.exists_mem_cons_iff, note_typeset_of_run? hr, Typeset.mem_toList_run literal_underscore, ih hrs]

theorem mapM_run?_of_plainText? (hform : n.form = .generic) (htext : n.plainText? = some text) :
    ∃ rs, n.contentChildren.mapM run? = some rs ∧ text = String.join (rs.map Run.source) := by
  have hrun : n.run? = none := by rw [run?, hform]
  unfold plainText? at htext
  rw [hrun] at htext
  cases hcontent : n.contentChildren with
  | nil =>
    rw [hcontent] at htext
    cases htext
  | cons c cs =>
    rw [hcontent] at htext
    obtain ⟨rs, hrs, rfl⟩ := Option.map_eq_some_iff.mp htext
    exact ⟨rs, hrs, rfl⟩

/-- Plain text in a container shows an underscore if and only if one is typed in it. -/
theorem underscore_mem_note_of_plainText? (hform : n.form = .generic) (htext : n.plainText? = some text) :
    '_' ∈ (n.typeset choice enclosure).note.toList ↔ '_' ∈ text.toList := by
  obtain ⟨rs, hrs, rfl⟩ := mapM_run?_of_plainText? hform htext
  have hruns := @underscore_mem_runs α choice (enclosure.inside n) _ _ hrs
  rw [note_typeset_of_generic hform, mem_toList_joinFragments (by decide)]
  simpa using hruns

/-- What is in a container with plain text is a run. -/
theorem exists_run_of_plainText? (hform : n.form = .generic) (htext : n.plainText? = some text)
    (hc : c ∈ n.contentChildren) : ∃ r, c.kind = .run r := by
  cases hrun : c.run? with
  | some r => exact ⟨r, kind_of_run? hrun⟩
  | none =>
    rw [plainText?_of_not_run (by rw [run?, hform]) hc hrun] at htext
    cases htext

/-! ### The name of a function -/

theorem underscore_mem_functionName_of_runs (hform : n.form = .generic) (htext : n.plainText? = some text) :
    '_' ∈ (Typeset.functionName (n.typeset choice enclosure)).toList ↔ '_' ∈ text.toList := by
  have hplain : Typeset.plainName? (n.typeset choice enclosure) = plainOperator? text := by
    rw [Typeset.plainName?, plainText?_typeset, htext, Option.bind_some]
  have hscripted : Typeset.scriptedName? (n.typeset choice enclosure) = none := by
    rw [Typeset.scriptedName?, onlyContentChild?_of_children (children_typeset enclosure n)]
    cases honly : n.onlyContentChild? with
    | none => rfl
    | some c =>
      obtain ⟨r, hr⟩ := exists_run_of_plainText? hform htext (mem_contentChildren_of_onlyContentChild? honly)
      rw [Option.map_some, Option.bind_some, kind_of_children (children_typeset _ c) (head_typeset _ c), hr]
      rfl
  rw [Typeset.functionName, hplain, hscripted]
  cases hoperator : plainOperator? text with
  | some name =>
    obtain ⟨hname, hlatex⟩ := literal_underscore.not_mem_of_plainOperator? hoperator
    exact iff_of_false hlatex hname
  | none =>
    dsimp only [Option.getD_none]
    rw [Typeset.underscore_mem_renderedName, underscore_mem_note_of_plainText? hform htext]

theorem underscore_mem_functionName_of_superscript (hform : n.form = .generic) (honly : n.onlyContentChild? = some c)
    (hkind : c.kind = .script (some base) none sup) (hbase : base.form = .generic)
    (htext : base.plainText? = some text) :
    '_' ∈ (Typeset.functionName (n.typeset choice enclosure)).toList ↔ '_' ∈ text.toList ∨
      ∃ d ∈ sup, '_' ∈ (d.typeset choice ((enclosure.inside n).inside c)).note.toList := by
  have hplain : Typeset.plainName? (n.typeset choice enclosure) = none := by
    rw [Typeset.plainName?, plainText?_typeset, Option.bind_eq_none_iff]
    intro text' htext'
    obtain ⟨r, hr⟩ := exists_run_of_plainText? hform htext' (mem_contentChildren_of_onlyContentChild? honly)
    rw [hkind] at hr
    cases hr
  have hscripted : Typeset.scriptedName? (n.typeset choice enclosure) = (plainOperator? text).map fun name =>
      name ++ Typeset.scripts none ((sup.map (typeset choice ((enclosure.inside n).inside c))).map note) := by
    rw [Typeset.scriptedName?, onlyContentChild?_of_children (children_typeset enclosure n), honly, Option.map_some,
      Option.bind_some, kind_of_children (children_typeset _ c) (head_typeset _ c), hkind]
    dsimp only [Kind.map, Option.map_some, Option.map_none]
    rw [Typeset.plainName?, plainText?_typeset, htext, Option.bind_some]
  rw [Typeset.functionName, hplain, hscripted]
  cases hoperator : plainOperator? text with
  | some name =>
    obtain ⟨hname, hlatex⟩ := literal_underscore.not_mem_of_plainOperator? hoperator
    simp [hname, hlatex, Typeset.underscore_mem_scripts]
  | none =>
    have hcontent : n.contentChildren = [c] := by
      unfold onlyContentChild? at honly
      split at honly <;> cases honly
      assumption
    dsimp only [Option.map_none, Option.getD_none]
    rw [Typeset.underscore_mem_renderedName, note_typeset_of_generic hform, hcontent, List.map_singleton,
      joinFragments_singleton, note_typeset_of_script hkind, Typeset.underscore_mem_script,
      underscore_mem_note_of_plainText? hbase htext]
    simp

end Node

end OfficeMath
