import OfficeMath.Proofs.Xml.ReadOn
import OfficeMath.Proofs.Xml.Spelling

/-! Pieces of text as they are read. Every piece adds the text that it stands for to the element that is open
    around it, and texts that are added one after the other become one. -/

namespace OfficeMath
namespace Xml

/-! ### Cutting at a mark -/

/-- A mark that ends in another character than it begins with is first met where it is written, unless it occurs
    before. -/
theorem cutAt_append {a b : Char} (hab : a ≠ b) {cs : List Char} (h : ¬ [a, a, b] <:+: cs) (rest : List Char) :
    cutAt [a, a, b] (cs ++ [a, a, b] ++ rest) = some (cs, rest) := by
  induction cs with
  | nil => simp [cutAt]
  | cons c cs ih =>
    have hprefix : ([a, a, b].isPrefixOf (c :: (cs ++ [a, a, b] ++ rest))) = false := by
      rw [Bool.eq_false_iff]
      intro hp
      -- an occurrence that starts here and reaches into the mark has to end in its first character
      rcases cs with _ | ⟨d, _ | ⟨e, cs⟩⟩
      · simp [hab.symm] at hp
      · simp [hab.symm] at hp
      · simp only [List.cons_append, List.isPrefixOf, Bool.and_eq_true, beq_iff_eq] at hp
        obtain ⟨rfl, rfl, rfl, -⟩ := hp
        exact h ⟨[], cs, rfl⟩
    have htail : ¬ [a, a, b] <:+: cs := fun hoccurs => h (hoccurs.trans (List.suffix_cons c cs).isInfix)
    rw [List.cons_append, List.cons_append, cutAt, hprefix, if_neg Bool.false_ne_true, ih htail]
    rfl

/-! ### References -/

section Numeral
variable {base : Nat} (hbase : base = 10 ∨ base = 16)

include hbase

theorem digitValue?_of_isDigit {c : Char} {d : Nat} (h : IsDigit base c d) : digitValue? base c = some d := by
  have hten : ∀ d < 10, digitValue? 10 d.digitChar = some d ∧ digitValue? 10 d.digitChar.toUpper = some d := by
    decide
  have hsixteen : ∀ d < 16, digitValue? 16 d.digitChar = some d ∧ digitValue? 16 d.digitChar.toUpper = some d := by
    decide
  obtain ⟨hd, hc⟩ := h
  rcases hbase with rfl | rfl
  · rcases hc with rfl | rfl
    · exact (hten d hd).1
    · exact (hten d hd).2
  · rcases hc with rfl | rfl
    · exact (hsixteen d hd).1
    · exact (hsixteen d hd).2

theorem number?_of_isNumeral {digits : List Char} {n : Nat} (h : IsNumeral base digits n) (hn : n ≠ 0) :
    number? base digits = some n := by
  obtain ⟨values, hvalues, hn'⟩ := h
  have hvalue : values.foldl (fun n d => n * base + d) 0 = n := by
    rw [← hn', Nat.ofDigits_eq_foldr, List.foldr_reverse]
    simp [Nat.mul_comm, Nat.add_comm]
  have hfold : ∀ k, digits.foldl (fun n c => n.bind fun n => (digitValue? base c).map fun d => n * base + d) (some k) =
      some (values.foldl (fun n d => n * base + d) k) := by
    clear hn' hvalue
    induction hvalues with
    | nil => exact fun _ => rfl
    | cons hd _ ih =>
      intro k
      rw [List.foldl_cons, List.foldl_cons, Option.bind_some, digitValue?_of_isDigit hbase hd]
      exact ih _
  have hne : digits.isEmpty = false := by
    cases hvalues with
    | nil => exact absurd hvalue hn.symm
    | cons => rfl
  rw [number?, hne, if_neg Bool.false_ne_true, hfold, hvalue]

theorem inReference_of_isNumeral {digits : List Char} {n : Nat} (h : IsNumeral base digits n) :
    ∀ c ∈ digits, Token.inReference c = true := by
  have hdigit : ∀ d < 16, Token.inReference d.digitChar = true ∧ Token.inReference d.digitChar.toUpper = true := by
    decide
  obtain ⟨values, hvalues, -⟩ := h
  induction hvalues with
  | nil => exact fun c hc => nomatch hc
  | @cons c d _ _ hd _ ih =>
    intro e he
    rcases List.mem_cons.mp he with rfl | he
    · obtain ⟨hlt, rfl | rfl⟩ := hd
      · exact (hdigit d (by omega)).1
      · exact (hdigit d (by omega)).2
    · exact ih e he

end Numeral

theorem characterAt?_toNat {c : Char} (h : c.toNat ≠ 0) : characterAt? c.toNat = some c := by
  rw [characterAt?, if_pos ⟨h, c.valid⟩, Char.ofNat_toNat]

theorem resolveReference_decimal {digits : List Char} {c : Char} (h : IsNumeral 10 digits c.toNat)
    (hc : c.toNat ≠ 0) : resolveReference ('#' :: digits) = .ok c := by
  have hnumber := number?_of_isNumeral (.inl rfl) h hc
  have hx : digits.head? ≠ some 'x' := by
    obtain ⟨values, hvalues, -⟩ := h
    cases hvalues with
    | nil => simp
    | cons hd _ =>
      rintro ⟨⟩
      cases digitValue?_of_isDigit (.inl rfl) hd
  unfold resolveReference
  split
  · next heq =>
    cases heq
    exact absurd rfl hx
  · next heq =>
    cases heq
    rw [hnumber, Option.bind_some, characterAt?_toNat hc]
    rfl
  · next hne => exact absurd rfl (hne digits)

theorem resolveReference_hexadecimal {digits : List Char} {c : Char} (h : IsNumeral 16 digits c.toNat)
    (hc : c.toNat ≠ 0) : resolveReference ('#' :: 'x' :: digits) = .ok c := by
  rw [resolveReference, number?_of_isNumeral (.inr rfl) h hc, Option.bind_some, characterAt?_toNat hc]
  rfl

theorem resolveReference_entity {name : List Char} {c : Char} (h : (name, c) ∈ predefinedEntities) :
    resolveReference name = .ok c ∧ ∀ d ∈ name, Token.inReference d = true := by
  simp only [predefinedEntities, List.mem_cons, Prod.mk.injEq, List.not_mem_nil, or_false] at h
  rcases h with ⟨rfl, rfl⟩ | ⟨rfl, rfl⟩ | ⟨rfl, rfl⟩ | ⟨rfl, rfl⟩ | ⟨rfl, rfl⟩
  all_goals exact ⟨rfl, by simp [Token.inReference]⟩

/-! ### Tokens -/

theorem Token.read_reference {name : List Char} (h : ∀ c ∈ name, Token.inReference c = true) (rest : List Char) :
    Token.read '&' (name ++ ';' :: rest) = .ok (.reference name, rest) := by
  have hdrop : (name ++ ';' :: rest).dropWhile Token.inReference = ';' :: rest := by
    rw [List.dropWhile_append_of_pos h]
    rfl
  have htake : (name ++ ';' :: rest).takeWhile Token.inReference = name := by
    rw [List.takeWhile_append_of_pos h]
    simp [Token.inReference]
  show Token.readReference (name ++ ';' :: rest) = _
  rw [Token.readReference, hdrop, htake]
  rfl

theorem Token.read_characterData {cs : List Char} (h : ¬ [']', ']', '>'] <:+: cs) (rest : List Char) :
    Token.read '<' ("![CDATA[".toList ++ cs ++ "]]>".toList ++ rest) = .ok (.characterData cs, rest) := by
  show Token.readDeclaration ('[' :: 'C' :: 'D' :: 'A' :: 'T' :: 'A' :: '[' :: (cs ++ [']', ']', '>'] ++ rest)) = _
  rw [Token.readDeclaration, cutAt_append (by decide) h]

theorem Token.read_comment {cs : List Char} (h : ¬ ['-', '-'] <:+: cs) (rest : List Char) :
    Token.read '<' ("!--".toList ++ cs ++ "-->".toList ++ rest) = .ok (.comment cs, rest) := by
  have hmark : ¬ ['-', '-', '>'] <:+: cs := fun hoccurs =>
    h ((List.prefix_append ['-', '-'] ['>']).isInfix.trans hoccurs)
  show Token.readDeclaration ('-' :: '-' :: (cs ++ ['-', '-', '>'] ++ rest)) = _
  rw [Token.readDeclaration, cutAt_append (by decide) hmark]

/-! ### Texts that are added -/

namespace OpenElement

theorem addText_of_startsWithText {o : OpenElement} (h : Content.startsWithText o.held = false) (s : String) :
    o.addText s = o.add (.text s) := by
  obtain ⟨name, attributes, held⟩ := o
  cases held with
  | nil => rfl
  | cons c held =>
    cases c with
    | text t => cases h
    | _ => rfl

theorem addText_addText (o : OpenElement) (s t : String) : (o.addText s).addText t = o.addText (s ++ t) := by
  obtain ⟨name, attributes, held⟩ := o
  cases held with
  | nil => rfl
  | cons c held =>
    cases c with
    | text r => simp [addText, String.append_assoc]
    | _ => rfl

/-- The element is as it is after the text has been added, in pieces or at once, or not at all if it is empty. -/
def IsAfter (o : OpenElement) (cs : List Char) (o' : OpenElement) : Prop :=
  o' = o.addText (String.ofList cs) ∨ cs = [] ∧ o' = o

theorem IsAfter.nil (o : OpenElement) : o.IsAfter [] o := .inr ⟨rfl, rfl⟩

theorem IsAfter.addText (o : OpenElement) (cs : List Char) : o.IsAfter cs (o.addText (String.ofList cs)) := .inl rfl

theorem IsAfter.trans {o o' o'' : OpenElement} {cs ds : List Char} (h : o.IsAfter cs o') (h' : o'.IsAfter ds o'') :
    o.IsAfter (cs ++ ds) o'' := by
  rcases h with rfl | ⟨rfl, rfl⟩
  · rcases h' with rfl | ⟨rfl, rfl⟩
    · exact .inl (by rw [addText_addText, String.ofList_append])
    · exact .inl (by rw [List.append_nil])
  · exact h'

end OpenElement

/-! ### Reading pieces -/

section Pieces
variable {limit : Nat} {tags : List StartTag} {o : OpenElement} {opened : List OpenElement} {root : Option Element}

/-- A character that stands for itself is read by itself, although a token takes in all that follow it. -/
theorem readOn_literal_cons {c : Char} (hc : c ≠ '<' ∧ c ≠ '&') (cs : List Char) :
    readOn limit tags ⟨o :: opened, root⟩ (c :: cs) =
      readOn limit tags ⟨o.addText (String.ofList [c]) :: opened, root⟩ cs := by
  have hread {c : Char} (hc : c ≠ '<' ∧ c ≠ '&') (cs : List Char) :
      Token.read c cs = .ok (.text (c :: cs.takeWhile Token.inText), cs.dropWhile Token.inText) := by
    simp [Token.read, hc]
  rw [readOn_text (hread hc cs)]
  -- the token ends here, or it goes on and the rest of it is the next token
  cases cs with
  | nil => rfl
  | cons d ds =>
    cases hd : Token.inText d with
    | false =>
      simp only [List.takeWhile_cons, List.dropWhile_cons, hd]
      rfl
    | true =>
      rw [readOn_text (hread (by simpa [Token.inText] using hd) ds)]
      simp only [List.takeWhile_cons, List.dropWhile_cons, hd, Progress.addText, Except.bind, if_true]
      rw [OpenElement.addText_addText, ← String.ofList_append, List.singleton_append]

theorem readOn_literal {cs : List Char} (h : ∀ c ∈ cs, c ≠ '<' ∧ c ≠ '&') (rest : List Char) :
    ∃ o', o.IsAfter cs o' ∧
      readOn limit tags ⟨o :: opened, root⟩ (cs ++ rest) = readOn limit tags ⟨o' :: opened, root⟩ rest := by
  induction cs generalizing o with
  | nil => exact ⟨o, .nil o, rfl⟩
  | cons c cs ih =>
    obtain ⟨o', ho', hread⟩ := @ih (o.addText (String.ofList [c])) fun d hd => h d (List.mem_cons_of_mem c hd)
    refine ⟨o', (OpenElement.IsAfter.addText o [c]).trans ho', ?_⟩
    rw [List.cons_append, readOn_literal_cons (h c (List.mem_cons_self ..)), hread]

theorem readOn_piece {xs cs : List Char} (h : Piece xs cs) (rest : List Char) :
    ∃ o', o.IsAfter cs o' ∧
      readOn limit tags ⟨o :: opened, root⟩ (xs ++ rest) = readOn limit tags ⟨o' :: opened, root⟩ rest := by
  have hreference {name : List Char} {c : Char} (hname : resolveReference name = .ok c)
      (hchars : ∀ d ∈ name, Token.inReference d = true) :
      readOn limit tags ⟨o :: opened, root⟩ ('&' :: (name ++ ';' :: rest)) =
        readOn limit tags ⟨o.addText (String.ofList [c]) :: opened, root⟩ rest := by
    rw [readOn_reference (Token.read_reference hchars rest) hname, String.singleton_eq_ofList]
    rfl
  cases h with
  | literal h => exact readOn_literal h rest
  | characterData h =>
    refine ⟨_, .addText o cs, ?_⟩
    exact readOn_characterData (Token.read_characterData h rest)
  | @decimal digits c h hc =>
    refine ⟨_, .addText o [c], ?_⟩
    have hhash : ∀ d ∈ '#' :: digits, Token.inReference d = true :=
      List.forall_mem_cons.mpr ⟨rfl, inReference_of_isNumeral (.inl rfl) h⟩
    simpa using hreference (resolveReference_decimal h hc) hhash
  | @hexadecimal digits c h hc =>
    refine ⟨_, .addText o [c], ?_⟩
    have hhash : ∀ d ∈ '#' :: 'x' :: digits, Token.inReference d = true :=
      List.forall_mem_cons.mpr ⟨rfl, List.forall_mem_cons.mpr ⟨rfl, inReference_of_isNumeral (.inr rfl) h⟩⟩
    simpa using hreference (resolveReference_hexadecimal h hc) hhash
  | @entity name c h =>
    refine ⟨_, .addText o [c], ?_⟩
    obtain ⟨hname, hchars⟩ := resolveReference_entity h
    simpa using hreference hname hchars

theorem readOn_pieces {xs cs : List Char} (h : Pieces xs cs) (rest : List Char) :
    ∃ o', o.IsAfter cs o' ∧
      readOn limit tags ⟨o :: opened, root⟩ (xs ++ rest) = readOn limit tags ⟨o' :: opened, root⟩ rest := by
  induction h generalizing o with
  | nil => exact ⟨o, .nil o, rfl⟩
  | @cons xs cs ys ds h _ ih =>
    obtain ⟨o', ho', hread⟩ := @readOn_piece limit tags o opened root xs cs h (ys ++ rest)
    obtain ⟨o'', ho'', hread'⟩ := @ih o'
    exact ⟨o'', ho'.trans ho'', by rw [List.append_assoc, hread, hread']⟩

theorem readOn_text_pieces {xs : List Char} {s : String} (h : Pieces xs s.toList) (hs : s ≠ "") (rest : List Char) :
    readOn limit tags ⟨o :: opened, root⟩ (xs ++ rest) =
      readOn limit tags ⟨o.addText s :: opened, root⟩ rest := by
  obtain ⟨o', rfl | ⟨hempty, -⟩, hread⟩ := @readOn_pieces limit tags o opened root xs s.toList h rest
  · rwa [String.ofList_toList] at hread
  · exact absurd (String.toList_eq_nil_iff.mp hempty) hs

theorem readOn_writtenComment {s : String} (h : ¬ ['-', '-'] <:+: s.toList) (rest : List Char) :
    readOn limit tags ⟨o :: opened, root⟩ ("<!--".toList ++ s.toList ++ "-->".toList ++ rest) =
      readOn limit tags ⟨o.add (.comment s) :: opened, root⟩ rest := by
  refine (readOn_comment (Token.read_comment h rest)).trans ?_
  rw [String.ofList_toList]
  rfl

end Pieces

end Xml
end OfficeMath
