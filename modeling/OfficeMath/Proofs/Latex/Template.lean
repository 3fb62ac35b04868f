import OfficeMath.Latex.Command
import OfficeMath.Proofs.Typeset.Underscore
import OfficeMath.Typeset.Application
import OfficeMath.Typeset.Script

/-! LaTeX in which the names of some environments are left open. It is made of characters and of the marks that begin
    and end such an environment, and the name that is chosen is filled in at the marks. Every mark starts with a
    backslash and ends with a brace, so whatever is asked of the LaTeX while more is put together from it, the answer
    is the same for all names. -/

namespace OfficeMath
namespace Latex

/-! ### Pieces -/

/-- The commands between which an environment stands. -/
inductive Mark where
  | begins | ends
  deriving DecidableEq, Repr

/-- The command for an environment of the given name. -/
def Mark.latex (name : String) : Mark → String
  | begins => command "\\begin" name
  | ends => command "\\end" name

/-- A piece of LaTeX: a character, or a mark of an environment whose name is left open. -/
inductive Piece where
  | char (c : Char)
  | mark (m : Mark)
  deriving DecidableEq, Repr

/-- The characters of the piece, with the name of the environment that is chosen. -/
def Piece.chars (choice : ArrayEnvironment) : Piece → List Char
  | char c => [c]
  | mark m => (m.latex choice.name).toList

/-- The characters of the pieces, with the name of the environment that is chosen. -/
def fill (choice : ArrayEnvironment) (ps : List Piece) : List Char := ps.flatMap (Piece.chars choice)

variable {choice choice' : ArrayEnvironment} {ps : List Piece} {word : List Char}

theorem fill_char (c : Char) : fill choice (.char c :: ps) = c :: fill choice ps := rfl

theorem fill_mark (m : Mark) : fill choice (.mark m :: ps) = (m.latex choice.name).toList ++ fill choice ps := rfl

@[simp] theorem fill_append (ps qs : List Piece) : fill choice (ps ++ qs) = fill choice ps ++ fill choice qs :=
  List.flatMap_append

theorem fill_chars (cs : List Char) : fill choice (cs.map .char) = cs := by
  rw [fill, List.flatMap_map]
  exact List.flatMap_singleton' cs

theorem exists_toList_mark (choice : ArrayEnvironment) (m : Mark) :
    ∃ cs, (m.latex choice.name).toList = '\\' :: (cs ++ ['}']) := by
  cases m
  · exact ⟨"begin".toList ++ '{' :: choice.name.toList, by simp [Mark.latex]⟩
  · exact ⟨"end".toList ++ '{' :: choice.name.toList, by simp [Mark.latex]⟩

/-! ### From the start -/

theorem head?_fill (choice choice' : ArrayEnvironment) (ps : List Piece) :
    (fill choice ps).head? = (fill choice' ps).head? := by
  cases ps with
  | nil => rfl
  | cons p ps =>
    cases p with
    | char c => rw [fill_char, fill_char, List.head?_cons, List.head?_cons]
    | mark m =>
      obtain ⟨cs, hcs⟩ := exists_toList_mark choice m
      obtain ⟨cs', hcs'⟩ := exists_toList_mark choice' m
      rw [fill_mark, fill_mark, hcs, hcs', List.cons_append, List.cons_append, List.head?_cons, List.head?_cons]

theorem isPrefixOf_fill (choice choice' : ArrayEnvironment) (hword : '\\' ∉ word) (ps : List Piece) :
    word.isPrefixOf (fill choice ps) = word.isPrefixOf (fill choice' ps) := by
  induction ps generalizing word with
  | nil => rfl
  | cons p ps ih =>
    cases word with
    | nil => rw [List.isPrefixOf_nil_left, List.isPrefixOf_nil_left]
    | cons d word =>
      rw [List.mem_cons, not_or] at hword
      cases p with
      | char c => rw [fill_char, fill_char, List.isPrefixOf_cons_cons, List.isPrefixOf_cons_cons, ih hword.2]
      | mark m =>
        obtain ⟨cs, hcs⟩ := exists_toList_mark choice m
        obtain ⟨cs', hcs'⟩ := exists_toList_mark choice' m
        have hne : (d == '\\') = false := beq_eq_false_iff_ne.mpr (Ne.symm hword.1)
        rw [fill_mark, fill_mark, hcs, hcs', List.cons_append, List.cons_append, List.isPrefixOf_cons_cons,
          List.isPrefixOf_cons_cons, hne, Bool.false_and, Bool.false_and]

/-- A word does not start in characters among which its first one is not. -/
theorem occursIn_append {d : Char} {cs : List Char} (hd : d ∉ cs) (rest : List Char) :
    Typeset.occursIn (d :: word) (cs ++ rest) = Typeset.occursIn (d :: word) rest := by
  induction cs with
  | nil => rfl
  | cons c cs ih =>
    rw [List.mem_cons, not_or] at hd
    have hne : (d == c) = false := beq_eq_false_iff_ne.mpr hd.1
    rw [List.cons_append, Typeset.occursIn, List.isPrefixOf_cons_cons, hne, Bool.false_and, Bool.false_or, ih hd.2]

theorem occursIn_operatorname_fill (choice choice' : ArrayEnvironment) (ps : List Piece) :
    Typeset.occursIn "operatorname".toList (fill choice ps) =
      Typeset.occursIn "operatorname".toList (fill choice' ps) := by
  have hword : '\\' ∉ "operatorname".toList := by decide
  have hcons : "operatorname".toList = 'o' :: "peratorname".toList := by decide
  rw [hcons] at hword ⊢
  induction ps with
  | nil => rfl
  | cons p ps ih =>
    cases p with
    | char c =>
      have hprefix := isPrefixOf_fill choice choice' hword (.char c :: ps)
      rw [fill_char, fill_char] at hprefix
      rw [fill_char, fill_char, Typeset.occursIn, Typeset.occursIn, hprefix, ih]
    | mark m =>
      have hletter (choice : ArrayEnvironment) : 'o' ∉ (m.latex choice.name).toList := by
        cases m <;> cases choice <;> decide
      rw [fill_mark, fill_mark, occursIn_append (hletter choice), occursIn_append (hletter choice'), ih]

/-! ### From the end -/

/-- The characters of the pieces from the last one on. -/
def fillBack (choice : ArrayEnvironment) (ps : List Piece) : List Char :=
  ps.flatMap fun p => (p.chars choice).reverse

theorem reverse_fill (choice : ArrayEnvironment) (ps : List Piece) :
    (fill choice ps).reverse = fillBack choice ps.reverse := by
  rw [fill, fillBack, List.reverse_flatMap]
  rfl

theorem fillBack_char (c : Char) : fillBack choice (.char c :: ps) = c :: fillBack choice ps := rfl

theorem exists_fillBack_mark (choice : ArrayEnvironment) (m : Mark) (ps : List Piece) :
    ∃ cs, fillBack choice (.mark m :: ps) = '}' :: cs := by
  obtain ⟨cs, hcs⟩ := exists_toList_mark choice m
  refine ⟨cs.reverse ++ ['\\'] ++ fillBack choice ps, ?_⟩
  rw [fillBack, List.flatMap_cons, Piece.chars, hcs]
  simp [fillBack]

theorem head?_dropWhile_fillBack (choice choice' : ArrayEnvironment) (ps : List Piece) :
    ((fillBack choice ps).dropWhile Char.isAlpha).head? = ((fillBack choice' ps).dropWhile Char.isAlpha).head? := by
  have hbrace : ¬ Char.isAlpha '}' = true := by decide
  induction ps with
  | nil => rfl
  | cons p ps ih =>
    cases p with
    | char c =>
      rw [fillBack_char, fillBack_char, List.dropWhile_cons, List.dropWhile_cons]
      split
      · exact ih
      · rw [List.head?_cons, List.head?_cons]
    | mark m =>
      obtain ⟨cs, hcs⟩ := exists_fillBack_mark choice m ps
      obtain ⟨cs', hcs'⟩ := exists_fillBack_mark choice' m ps
      rw [hcs, hcs', List.dropWhile_cons_of_neg hbrace, List.dropWhile_cons_of_neg hbrace, List.head?_cons,
        List.head?_cons]

theorem endsInControlWord_fill (choice choice' : ArrayEnvironment) (ps : List Piece) :
    endsInControlWord (fill choice ps).reverse = endsInControlWord (fill choice' ps).reverse := by
  have hbrace : Char.isAlpha '}' = false := by decide
  rw [reverse_fill, reverse_fill]
  cases ps.reverse with
  | nil => rfl
  | cons p ps =>
    cases p with
    | char c =>
      rw [fillBack_char, fillBack_char, endsInControlWord, endsInControlWord,
        head?_dropWhile_fillBack choice choice']
    | mark m =>
      obtain ⟨cs, hcs⟩ := exists_fillBack_mark choice m ps
      obtain ⟨cs', hcs'⟩ := exists_fillBack_mark choice' m ps
      rw [hcs, hcs', endsInControlWord, endsInControlWord, hbrace, Bool.false_and, Bool.false_and]

/-! ### Trimming -/

/-- The piece is a blank character. -/
def Piece.isBlank : Piece → Bool
  | char c => Text.isBlank c
  | mark _ => false

theorem dropWhile_fill (choice : ArrayEnvironment) (ps : List Piece) :
    (fill choice ps).dropWhile Text.isBlank = fill choice (ps.dropWhile Piece.isBlank) := by
  induction ps with
  | nil => rfl
  | cons p ps ih =>
    cases p with
    | char c =>
      rw [fill_char, List.dropWhile_cons, List.dropWhile_cons]
      show (if Text.isBlank c then _ else _) = fill choice (if Text.isBlank c then _ else _)
      split
      · exact ih
      · rfl
    | mark m =>
      obtain ⟨cs, hcs⟩ := exists_toList_mark choice m
      rw [fill_mark, hcs, List.cons_append, List.dropWhile_cons_of_neg (by decide),
        List.dropWhile_cons_of_neg Bool.false_ne_true, fill_mark, hcs, List.cons_append]

theorem dropWhile_fillBack (choice : ArrayEnvironment) (ps : List Piece) :
    (fillBack choice ps).dropWhile Text.isBlank = fillBack choice (ps.dropWhile Piece.isBlank) := by
  induction ps with
  | nil => rfl
  | cons p ps ih =>
    cases p with
    | char c =>
      rw [fillBack_char, List.dropWhile_cons, List.dropWhile_cons]
      show (if Text.isBlank c then _ else _) = fillBack choice (if Text.isBlank c then _ else _)
      split
      · exact ih
      · rfl
    | mark m =>
      obtain ⟨cs, hcs⟩ := exists_fillBack_mark choice m ps
      rw [hcs, List.dropWhile_cons_of_neg (by decide), List.dropWhile_cons_of_neg Bool.false_ne_true, hcs]

/-- Blank characters at the ends of the pieces are the same for all names, since no mark starts or ends in one. -/
theorem exists_trimChars_fill (ps : List Piece) :
    ∃ qs, qs ⊆ ps ∧ ∀ choice, Text.trimChars (fill choice ps) = fill choice qs := by
  let qs := ps.dropWhile Piece.isBlank
  refine ⟨(qs.reverse.dropWhile Piece.isBlank).reverse, fun p hp => ?_, fun choice => ?_⟩
  · have hp := (List.dropWhile_suffix _).subset (List.mem_reverse.mp hp)
    exact (List.dropWhile_suffix _).subset (List.mem_reverse.mp hp)
  · rw [Text.trimChars, Text.trimEndChars, dropWhile_fill, reverse_fill, dropWhile_fillBack, ← List.reverse_inj,
      List.reverse_reverse, reverse_fill, List.reverse_reverse]

/-! ### Texts for every choice -/

/-- A text for every choice is made of the same pieces for all of them, and all the pieces are permitted. -/
def Templated (permits : Piece → Prop) (s : ArrayEnvironment → String) : Prop :=
  ∃ ps : List Piece, (∀ p ∈ ps, permits p) ∧ ∀ choice, (s choice).toList = fill choice ps

namespace Templated

variable {permits : Piece → Prop} {s t : ArrayEnvironment → String} {text : String}

/-! #### What is asked -/

theorem startsWithLetter_eq (h : Templated permits s) (choice choice' : ArrayEnvironment) :
    startsWithLetter (s choice) = startsWithLetter (s choice') := by
  obtain ⟨ps, -, hps⟩ := h
  have hhead := head?_fill choice choice' ps
  rw [← hps, ← hps] at hhead
  unfold startsWithLetter
  cases hs : (s choice).toList <;> cases hs' : (s choice').toList <;> simp_all

theorem runsOn_eq (hs : Templated permits s) (ht : Templated permits t) (choice choice' : ArrayEnvironment) :
    runsOn (s choice) (t choice) = runsOn (s choice') (t choice') := by
  obtain ⟨ps, -, hps⟩ := hs
  rw [runsOn, runsOn, ht.startsWithLetter_eq choice choice', hps, hps, endsInControlWord_fill choice choice']

theorem head?_eq (h : Templated permits s) (choice choice' : ArrayEnvironment) :
    (s choice).toList.head? = (s choice').toList.head? := by
  obtain ⟨ps, -, hps⟩ := h
  rw [hps, hps, head?_fill]

theorem occursIn_operatorname_eq (h : Templated permits s) (choice choice' : ArrayEnvironment) :
    Typeset.occursIn "operatorname".toList (s choice).toList =
      Typeset.occursIn "operatorname".toList (s choice').toList := by
  obtain ⟨ps, -, hps⟩ := h
  rw [hps, hps, occursIn_operatorname_fill]

theorem underscore_mem_iff (h : Templated permits s) (choice choice' : ArrayEnvironment) :
    '_' ∈ (s choice).toList ↔ '_' ∈ (s choice').toList := by
  obtain ⟨ps, -, hps⟩ := h
  have hmem (choice : ArrayEnvironment) : '_' ∈ fill choice ps ↔ Piece.char '_' ∈ ps := by
    have hmark (m : Mark) : '_' ∉ (m.latex choice.name).toList := by cases m <;> cases choice <;> decide
    rw [fill, List.mem_flatMap]
    constructor
    · rintro ⟨p, hp, hc⟩
      cases p with
      | char c => rwa [List.mem_singleton.mp hc]
      | mark m => exact absurd hc (hmark m)
    · exact fun hp => ⟨_, hp, List.mem_singleton_self _⟩
  rw [hps, hps, hmem, hmem]

/-- The text is the same for all choices, or it holds a brace for all of them. -/
theorem eq_or_brace_mem (h : Templated permits s) :
    (∀ choice choice', s choice = s choice') ∨ ∀ choice, '{' ∈ (s choice).toList := by
  obtain ⟨ps, -, hps⟩ := h
  by_cases hmark : ∃ m, Piece.mark m ∈ ps
  · obtain ⟨m, hm⟩ := hmark
    refine .inr fun choice => ?_
    have hbrace : '{' ∈ (m.latex choice.name).toList := by cases m <;> simp [Mark.latex]
    rw [hps, fill, List.mem_flatMap]
    exact ⟨_, hm, hbrace⟩
  · refine .inl fun choice choice' => ?_
    have hchars : ∀ p ∈ ps, p.chars choice = p.chars choice' := fun p hp => by
      cases p with
      | char c => rfl
      | mark m => exact absurd ⟨m, hp⟩ hmark
    rw [← String.toList_inj, hps, hps, fill, fill, List.flatMap_def, List.flatMap_def, List.map_congr_left hchars]

/-- What has one answer for all texts with a brace has one for all choices. -/
theorem apply_eq {β : Type} {f : String → β} {b : β} (hf : ∀ text, '{' ∈ text.toList → f text = b)
    (h : Templated permits s) (choice choice' : ArrayEnvironment) : f (s choice) = f (s choice') := by
  rcases h.eq_or_brace_mem with heq | hbrace
  · rw [heq choice choice']
  · rw [hf _ (hbrace choice), hf _ (hbrace choice')]

theorem functionCommand?_eq (h : Templated permits s) (choice choice' : ArrayEnvironment) :
    functionCommand? (s choice) = functionCommand? (s choice') := by
  refine h.apply_eq (b := none) (fun text hbrace => ?_) choice choice'
  have hnames : ∀ entry ∈ functionCommands, '{' ∉ entry.1.toList := by decide
  refine Option.eq_none_iff_forall_ne_some.mpr fun latex hlatex => ?_
  exact hnames _ (functionCommand?_eq_some_mem hlatex) ((Text.mem_toList_trim (by decide) text).mpr hbrace)

theorem isShownDegree_eq (h : Templated permits s) (choice choice' : ArrayEnvironment) :
    Typeset.isShownDegree (s choice) = Typeset.isShownDegree (s choice') := by
  refine h.apply_eq (b := true) (fun text hbrace => ?_) choice choice'
  have hmem := (Text.mem_toList_trim (by decide) text).mpr hbrace
  rw [Typeset.isShownDegree, Bool.and_eq_true, bne_iff_ne, bne_iff_ne]
  constructor <;> intro htrim <;> rw [htrim] at hmem <;> revert hmem <;> decide

theorem eq_lim_iff (h : Templated permits s) (choice choice' : ArrayEnvironment) :
    s choice = "\\lim" ↔ s choice' = "\\lim" := by
  refine iff_of_eq ?_
  refine h.apply_eq (f := (· = "\\lim")) (b := False) (fun text hbrace => eq_false fun heq => ?_) choice choice'
  rw [heq] at hbrace
  revert hbrace
  decide

/-! #### Putting together -/

theorem congr (h : ∀ choice, s choice = t choice) (ht : Templated permits t) : Templated permits s := by
  rwa [show s = t from funext h]

theorem const (h : ∀ c ∈ text.toList, permits (.char c)) : Templated permits fun _ => text := by
  refine ⟨text.toList.map .char, fun p hp => ?_, fun choice => (fill_chars _).symm⟩
  obtain ⟨c, hc, rfl⟩ := List.mem_map.mp hp
  exact h c hc

theorem append (hs : Templated permits s) (ht : Templated permits t) :
    Templated permits fun choice => s choice ++ t choice := by
  obtain ⟨ps, hps, hs⟩ := hs
  obtain ⟨qs, hqs, ht⟩ := ht
  refine ⟨ps ++ qs, fun p hp => (List.mem_append.mp hp).elim (hps p) (hqs p), fun choice => ?_⟩
  rw [String.toList_append, hs, ht, fill_append]

theorem trim (h : Templated permits s) : Templated permits fun choice => Text.trim (s choice) := by
  obtain ⟨ps, hps, hs⟩ := h
  obtain ⟨qs, hsubset, hqs⟩ := exists_trimChars_fill ps
  exact ⟨qs, fun p hp => hps p (hsubset hp), fun choice => by rw [Text.toList_trim, hs, hqs]⟩

end Templated

/-! ### Templates -/

/-- LaTeX in which the names of some environments are left open: a text, and a mark and a text in turns after it. -/
structure Template where
  first : String
  rest : List (Mark × String)
  deriving DecidableEq, Repr

namespace Template

/-- The LaTeX with the name at its marks. -/
def latex (name : String) (t : Template) : String :=
  t.first ++ String.join (t.rest.map fun part => part.1.latex name ++ part.2)

/-- The template that is made of the pieces: the characters between two marks are one text. -/
def ofPieces : List Piece → Template
  | [] => ⟨"", []⟩
  | .char c :: ps => ⟨String.singleton c ++ (ofPieces ps).first, (ofPieces ps).rest⟩
  | .mark m :: ps => ⟨"", (m, (ofPieces ps).first) :: (ofPieces ps).rest⟩

theorem toList_latex_ofPieces (choice : ArrayEnvironment) (ps : List Piece) :
    ((ofPieces ps).latex choice.name).toList = fill choice ps := by
  induction ps with
  | nil => rfl
  | cons p ps ih =>
    cases p with
    | char c =>
      rw [fill_char, ← ih]
      simp [ofPieces, latex]
    | mark m =>
      rw [fill_mark, ← ih]
      simp [ofPieces, latex]

theorem rest_ofPieces_eq_nil {ps : List Piece} (h : ∀ m, Piece.mark m ∉ ps) : (ofPieces ps).rest = [] := by
  induction ps with
  | nil => rfl
  | cons p ps ih =>
    cases p with
    | char c => exact ih fun m hm => h m (List.mem_cons_of_mem _ hm)
    | mark m => exact absurd List.mem_cons_self (h m)

theorem latex_of_rest_eq_nil {t : Template} (h : t.rest = []) (name : String) : t.latex name = t.first := by
  simp [latex, h]

end Template

/-- What is made of the same pieces for all choices is one template, without marks if none are permitted. -/
theorem Templated.exists_template {permits : Piece → Prop} {s : ArrayEnvironment → String} (h : Templated permits s) :
    ∃ t : Template, (∀ choice, s choice = t.latex choice.name) ∧ ((∀ m, ¬ permits (.mark m)) → t.rest = []) := by
  obtain ⟨ps, hpermits, hs⟩ := h
  refine ⟨.ofPieces ps, fun choice => ?_, fun hmarks => ?_⟩
  · rw [← String.toList_inj, hs, Template.toList_latex_ofPieces]
  · exact Template.rest_ofPieces_eq_nil fun m hm => hmarks m (hpermits _ hm)

end Latex
end OfficeMath
