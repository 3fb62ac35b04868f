import OfficeMath.Xml.Document

/-! Reading on from the middle of a text. What is still to be read only meets what has been read by the tags that
    are open and by the elements that they started, so a text is read token by token. -/

namespace OfficeMath
namespace Xml

variable {limit : Nat} {tags : List StartTag} {p : Progress} {c : Char} {cs rest : List Char}

/-! ### Events -/

/-- The element that the events describe when they come after what has been read. -/
def Events.elementFrom (limit : Nat) (p : Progress) (events : Events) : Except Error Element :=
  match p.run limit events.events, events.fault with
  | .error e, _ => .error e
  | .ok _, some fault => .error (.malformed fault)
  | .ok p, none => p.finish

theorem Events.elementFrom_next (e : Event) (events : Events) :
    (Events.next e events).elementFrom limit p = (p.step limit e).bind fun p => events.elementFrom limit p := by
  have hrun : p.run limit (Events.next e events).events =
      (p.step limit e).bind fun p => p.run limit events.events := rfl
  unfold Events.elementFrom
  rw [hrun]
  cases p.step limit e <;> rfl

/-- The element that a text describes whose first part has been read. -/
def readOn (limit : Nat) (tags : List StartTag) (p : Progress) (cs : List Char) : Except Error Element :=
  (Events.ofTokens tags (Token.scan cs).1 (Token.scan cs).2).elementFrom limit p

theorem Element.read_eq_readOn (xml : String) :
    Element.read limit xml = readOn limit [] .start (Events.withoutByteOrderMark xml.toList) := rfl

theorem readOn_nil : readOn limit tags p [] = p.finish := by
  unfold readOn
  rw [Token.scan_nil]
  rfl

/-! ### Tokens -/

/-- The next token is taken in as the event that it is, and then the rest is read. -/
theorem readOn_of_event {tags' : List StartTag} {token : Token} {e : Event} (h : Token.read c cs = .ok (token, rest))
    (he : ∀ tokens fault, Events.ofTokens tags (token :: tokens) fault = .next e (.ofTokens tags' tokens fault)) :
    readOn limit tags p (c :: cs) = (p.step limit e).bind fun p => readOn limit tags' p rest := by
  unfold readOn
  rw [Token.scan_cons_of_ok h, he]
  exact Events.elementFrom_next e _

theorem readOn_text {chars : List Char} (h : Token.read c cs = .ok (.text chars, rest)) :
    readOn limit tags p (c :: cs) = (p.addText (String.ofList chars)).bind fun p => readOn limit tags p rest :=
  readOn_of_event h fun _ _ => rfl

theorem readOn_characterData {chars : List Char} (h : Token.read c cs = .ok (.characterData chars, rest)) :
    readOn limit tags p (c :: cs) = (p.addText (String.ofList chars)).bind fun p => readOn limit tags p rest :=
  readOn_of_event h fun _ _ => rfl

theorem readOn_reference {name : List Char} {d : Char} (h : Token.read c cs = .ok (.reference name, rest))
    (hname : resolveReference name = .ok d) :
    readOn limit tags p (c :: cs) = (p.addText (String.singleton d)).bind fun p => readOn limit tags p rest := by
  have hstep : p.step limit (.reference name) = p.addText (String.singleton d) := by simp [Progress.step, hname]
  rw [← hstep]
  exact readOn_of_event h fun _ _ => rfl

theorem readOn_comment {chars : List Char} (h : Token.read c cs = .ok (.comment chars, rest)) :
    readOn limit tags p (c :: cs) = readOn limit tags (p.addAside (.comment (String.ofList chars))) rest :=
  readOn_of_event h fun _ _ => rfl

theorem readOn_startTag {body : List Char} {tag : StartTag} (h : Token.read c cs = .ok (.startTag body, rest))
    (htag : StartTag.ofBody (Events.scopeOf tags) body = .ok tag) :
    readOn limit tags p (c :: cs) =
      (p.openElement limit tag).bind fun o => readOn limit (tag :: tags) { p with opened := o :: p.opened } rest := by
  rw [readOn_of_event h fun _ _ => by rw [Events.ofTokens, htag], Progress.step]
  cases p.openElement limit tag <;> rfl

theorem readOn_emptyTag {body : List Char} {tag : StartTag} (h : Token.read c cs = .ok (.emptyTag body, rest))
    (htag : StartTag.ofBody (Events.scopeOf tags) body = .ok tag) :
    readOn limit tags p (c :: cs) =
      ((p.openElement limit tag).bind fun o => p.addElement o.close).bind fun p => readOn limit tags p rest :=
  readOn_of_event h fun _ _ => by rw [Events.ofTokens, htag]

theorem readOn_endTag {name : List Char} {tag : StartTag} {o : OpenElement} {opened : List OpenElement}
    {root : Option Element} (h : Token.read c cs = .ok (.endTag name, rest)) (hname : tag.qualified = name) :
    readOn limit (tag :: tags) ⟨o :: opened, root⟩ (c :: cs) =
      (Progress.addElement ⟨opened, root⟩ o.close).bind fun p => readOn limit tags p rest := by
  have hevent (tokens : List Token) (fault : Option Malformed) :
      Events.ofTokens (tag :: tags) (.endTag name :: tokens) fault = .next .close (.ofTokens tags tokens fault) := by
    rw [Events.ofTokens, if_pos hname]
  exact readOn_of_event h hevent

end Xml
end OfficeMath
