import OfficeMath.Proofs.Xml.TextPieces
import OfficeMath.Proofs.Xml.WrittenTag

/-! Elements are read back from all their spellings. What an element is written as is read as that element,
    whatever has been read before it and whatever comes after it. -/

namespace OfficeMath
namespace Xml

variable {limit : Nat}

mutual

theorem readOn_spelling : ∀ (e : Element) {tags : List StartTag} {p : Progress} {xs rest : List Char},
    Spelling xs e → e.IsPlain → Events.scopeOf tags = .initial → p.opened.length + e.depth ≤ limit →
    readOn limit tags p (xs ++ rest) = (p.addElement e).bind fun p => readOn limit tags p rest
  | .mk name as content, tags, p, xs, rest, h, ⟨hname, has, hcontent⟩, hscope, hlimit => by
    rw [Element.depth] at hlimit
    have hopen : p.opened.length < limit := by omega
    cases h with
    | empty => exact readOn_emptyElement hname has hscope hopen rest
    | @tags _ _ ys _ h =>
      have hscope' : Events.scopeOf (.written name as :: tags) = .initial := rfl
      have hcontent : readOn limit (.written name as :: tags) ⟨⟨name, as, []⟩ :: p.opened, p.root⟩
          (ys ++ (['<', '/'] ++ name.qualified ++ ['>'] ++ rest)) =
          readOn limit (.written name as :: tags) ⟨⟨name, as, content.reverse ++ []⟩ :: p.opened, p.root⟩
            (['<', '/'] ++ name.qualified ++ ['>'] ++ rest) :=
        readOn_spellingAll content h hcontent hscope' (by omega) fun _ => rfl
      -- items are held last first until the end tag
      have hclose : OpenElement.close ⟨name, as, content.reverse ++ []⟩ = .mk name as content := by
        simp [OpenElement.close]
      have hassoc : ['<'] ++ writeTag name as ++ ['>'] ++ ys ++ ['<', '/'] ++ name.qualified ++ ['>'] ++ rest =
          ['<'] ++ writeTag name as ++ ['>'] ++ (ys ++ (['<', '/'] ++ name.qualified ++ ['>'] ++ rest)) := by
        simp only [List.append_assoc]
      rw [hassoc, readOn_startElement hname has hscope hopen, hcontent, readOn_endElement hname, hclose]

theorem readOn_spellingAll : ∀ (content : List Content) {tags : List StartTag} {o : OpenElement}
    {opened : List OpenElement} {root : Option Element} {xs rest : List Char}, SpellingAll xs content →
    Content.ArePlain content → Events.scopeOf tags = .initial →
    opened.length + 1 + Content.depthAll content ≤ limit →
    (Content.startsWithText content = true → Content.startsWithText o.held = false) →
    readOn limit tags ⟨o :: opened, root⟩ (xs ++ rest) =
      readOn limit tags ⟨{ o with held := content.reverse ++ o.held } :: opened, root⟩ rest
  | [], _, _, _, _, _, _, .nil, _, _, _, _ => rfl
  | .element e :: content, tags, o, opened, root, _, rest, .element he h, ⟨hplain, hcontent⟩, hscope, hlimit, _ => by
    rw [Content.depthAll] at hlimit
    have helement : e.depth + (opened.length + 1) ≤ limit := by omega
    rw [List.append_assoc, readOn_spelling e he hplain hscope (by simpa [Nat.add_comm] using helement)]
    refine (readOn_spellingAll content h hcontent hscope (by omega) fun _ => rfl).trans ?_
    simp [OpenElement.add]
  | .text s :: content, tags, o, opened, root, _, rest, .text hs h, ⟨hne, hnext, hcontent⟩, hscope, hlimit, htext => by
    rw [List.append_assoc, readOn_text_pieces hs hne, OpenElement.addText_of_startsWithText (htext rfl)]
    refine (readOn_spellingAll content h hcontent hscope hlimit fun h => ?_).trans ?_
    · simp [hnext] at h
    · simp [OpenElement.add]
  | .comment s :: content, tags, o, opened, root, _, rest, .comment h, ⟨hhyphens, hcontent⟩, hscope, hlimit, _ => by
    rw [List.append_assoc, readOn_writtenComment hhyphens]
    refine (readOn_spellingAll content h hcontent hscope hlimit fun _ => rfl).trans ?_
    simp [OpenElement.add]

end

/-- A plain element is read from all its spellings, whatever the limit is, if the element nests no deeper. -/
theorem Element.read_of_spelling {e : Element} (hplain : e.IsPlain) {xml : String} (hxml : Spelling xml.toList e)
    {limit : Nat} (hlimit : e.depth ≤ limit) : Element.read limit xml = .ok e := by
  rw [Element.read_eq_readOn]
  generalize xml.toList = xs at hxml
  have hmark : Events.withoutByteOrderMark xs = xs ++ [] := by
    rw [List.append_nil]
    cases hxml <;> rfl
  have hdepth : Progress.start.opened.length + e.depth ≤ limit := by simpa [Progress.start] using hlimit
  rw [hmark, readOn_spelling e hxml hplain rfl hdepth]
  exact readOn_nil

/-- An element that holds a text in four pieces, a comment and an empty element. -/
theorem Element.read_of_spelling_in_pieces :
    let inner : Element := .mk ⟨none, "b"⟩ [] []
    let outer : Element := .mk (.math "t") [⟨⟨none, "a"⟩, "<"⟩] [.text "x&A<", .comment "c", .element inner]
    Element.read 2 "<m:t a=\"&lt;\">x&amp;&#x41;<![CDATA[<]]><!--c--><b/></m:t>" = .ok outer := by
  intro inner outer
  have hinner : inner.IsPlain := ⟨⟨.inl rfl, by decide, List.all_eq_true.mp rfl⟩, ⟨by simp, by simp, by simp⟩, trivial⟩
  have hname : (Name.math "t").IsPlain := ⟨.inr rfl, by decide, List.all_eq_true.mp rfl⟩
  have ha : Name.IsPlain ⟨none, "a"⟩ := ⟨.inl rfl, by decide, List.all_eq_true.mp rfl⟩
  have hattributes : Attribute.ArePlain [⟨⟨none, "a"⟩, "<"⟩] := ⟨by simpa using ha, by simp, by simp⟩
  have houter : outer.IsPlain := ⟨hname, hattributes, by simp, rfl, by decide, hinner, trivial⟩
  have hnumeral : IsNumeral 16 ['4', '1'] 'A'.toNat :=
    ⟨[4, 1], .cons ⟨by decide, .inl rfl⟩ (.cons ⟨by decide, .inl rfl⟩ .nil), rfl⟩
  have hliteral : Piece ['x'] ['x'] := .literal (by simp)
  have hentity : Piece ("&".toList ++ ['a', 'm', 'p'] ++ ";".toList) ['&'] := .entity (by decide)
  have hreference : Piece ("&#x".toList ++ ['4', '1'] ++ ";".toList) ['A'] := .hexadecimal hnumeral (by decide)
  have hdata : Piece ("<![CDATA[".toList ++ ['<'] ++ "]]>".toList) ['<'] := .characterData (by decide)
  have htext : Pieces _ "x&A<".toList := .cons hliteral (.cons hentity (.cons hreference (.cons hdata .nil)))
  have hspelling : Spelling _ outer := .tags (.text htext (.comment (.element .empty .nil)))
  refine Element.read_of_spelling houter ?_ (by decide)
  exact hspelling

end Xml
end OfficeMath
