import OfficeMath.Proofs.Xml.Rewriting
import OfficeMath.Proofs.Xml.TextPieces
import OfficeMath.Proofs.Xml.TokenStep

/-! Texts that stand apart. A piece of text goes on the text before it, and whatever else is taken in comes after the
    text before it, so no two texts stand next to each other in what has been read: neither in an element that is
    closed, at any depth, nor in one that is still open. -/

namespace OfficeMath
namespace Xml

variable {limit : Nat}

/-! ### Items -/

namespace Content

/-- No two texts stand next to each other among the items. -/
def TextsApart (content : List Content) : Prop := ∀ s t, ¬[.text s, .text t] <:+: content

theorem textsApart_nil : TextsApart [] := fun s t h => by cases List.infix_nil.mp h

theorem startsWithText_iff {content : List Content} :
    startsWithText content = true ↔ ∃ t, [.text t] <+: content := by
  rcases content with _ | ⟨_ | _ | _ | _, content⟩ <;> simp [startsWithText]

/-- An item in front keeps texts apart unless it is a text in front of a text. -/
theorem textsApart_cons_iff {c : Content} {content : List Content} :
    TextsApart (c :: content) ↔ (∀ s, c = .text s → startsWithText content = false) ∧ TextsApart content := by
  constructor
  · intro h
    refine ⟨?_, fun s t hst => h s t (List.infix_cons hst)⟩
    rintro s rfl
    rw [Bool.eq_false_iff, ne_eq, startsWithText_iff]
    rintro ⟨t, ht⟩
    exact h s t (List.cons_prefix_cons.mpr ⟨rfl, ht⟩).isInfix
  · rintro ⟨hfirst, hrest⟩ s t hst
    rcases List.infix_cons_iff.mp hst with hst | hst
    · obtain ⟨rfl, ht⟩ := List.cons_prefix_cons.mp hst
      exact Bool.false_ne_true ((hfirst s rfl).symm.trans (startsWithText_iff.mpr ⟨t, ht⟩))
    · exact hrest s t hst

theorem textsApart_reverse {content : List Content} : TextsApart content.reverse ↔ TextsApart content := by
  have himp {content : List Content} (h : TextsApart content) : TextsApart content.reverse := by
    intro s t hst
    rw [← List.reverse_infix, List.reverse_reverse] at hst
    exact h t s hst
  exact ⟨fun h => List.reverse_reverse content ▸ himp h, himp⟩

end Content

/-! ### Elements -/

namespace Element

/-- Neither in the element nor in one that stands in it, at any depth, two texts stand next to each other. -/
def TextsApart (e : Element) : Prop := ∀ x : Element, x.Within e → Content.TextsApart x.content

theorem textsApart_iff {e : Element} :
    e.TextsApart ↔ Content.TextsApart e.content ∧ ∀ c ∈ e.elements, c.TextsApart := by
  constructor
  · intro h
    exact ⟨h e .self, fun c hc x hx => h x (.inside hc hx)⟩
  · rintro ⟨hcontent, helements⟩ x hx
    cases hx with
    | self => exact hcontent
    | inside hc hx => exact helements _ hc x hx

end Element

namespace OpenElement

variable {o : OpenElement}

theorem mem_elements_close {e : Element} : e ∈ o.close.elements ↔ .element e ∈ o.held := by
  have helement (c : Content) : c.element? = some e ↔ c = .element e := by
    cases c <;> simp [Content.element?]
  simp [close, Element.elements, helement]

theorem textsApart_close_iff :
    o.close.TextsApart ↔ Content.TextsApart o.held ∧ ∀ e, .element e ∈ o.held → e.TextsApart := by
  rw [Element.textsApart_iff, close, Element.content_mk, Content.textsApart_reverse, ← close]
  simp only [mem_elements_close]

/-- What an item has to be for texts to stay apart when it is taken in. -/
theorem textsApart_add_iff {c : Content} : (o.add c).close.TextsApart ↔
    o.close.TextsApart ∧ (∀ s, c = .text s → Content.startsWithText o.held = false) ∧
      ∀ e, c = .element e → e.TextsApart := by
  rw [textsApart_close_iff, textsApart_close_iff, add, Content.textsApart_cons_iff]
  simp only [List.mem_cons, or_imp, forall_and, eq_comm (b := c)]
  tauto

theorem textsApart_addElement (ho : o.close.TextsApart) {e : Element} (he : e.TextsApart) :
    (o.add (.element e)).close.TextsApart := by
  refine textsApart_add_iff.mpr ⟨ho, ?_, ?_⟩
  · rintro s ⟨⟩
  · rintro _ ⟨⟩
    exact he

/-- Text goes on the text that comes before it, if one does. -/
theorem textsApart_addText (ho : o.close.TextsApart) (s : String) : (o.addText s).close.TextsApart := by
  cases hstarts : Content.startsWithText o.held with
  | false =>
    rw [addText_of_startsWithText hstarts]
    exact textsApart_add_iff.mpr ⟨ho, fun _ _ => hstarts, by rintro e ⟨⟩⟩
  | true =>
    obtain ⟨name, attributes, held⟩ := o
    obtain ⟨t, held, rfl⟩ := Content.startsWithText_iff.mp hstarts
    -- the text that is there is taken out, and put back longer
    have hout := textsApart_add_iff (o := ⟨name, attributes, held⟩) (c := .text t)
    have hback := textsApart_add_iff (o := ⟨name, attributes, held⟩) (c := .text (t ++ s))
    obtain ⟨hheld, hends, -⟩ := hout.mp ho
    exact hback.mpr ⟨hheld, fun _ _ => hends t rfl, by rintro e ⟨⟩⟩

end OpenElement

/-! ### What has been read -/

namespace Progress

/-- Texts stand apart in everything that has been read. -/
structure TextsApart (p : Progress) : Prop where
  opened : ∀ o ∈ p.opened, o.close.TextsApart
  root : ∀ e, p.root = some e → e.TextsApart

theorem textsApart_start : start.TextsApart where
  opened o h := by cases h
  root e h := by cases h

variable {p p' : Progress}

theorem textsApart_of_openElement {tag : StartTag} {o : OpenElement} (h : p.openElement limit tag = .ok o) :
    o.close.TextsApart := by
  obtain ⟨-, attributes, -, rfl⟩ := openElement_eq_ok_iff.mp h
  refine OpenElement.textsApart_close_iff.mpr ⟨Content.textsApart_nil, ?_⟩
  rintro e ⟨⟩

/-- Among the open elements, only the innermost takes something in. -/
theorem TextsApart.replace {o o' : OpenElement} {opened : List OpenElement} {root : Option Element}
    (hp : TextsApart ⟨o :: opened, root⟩) (ho' : o.close.TextsApart → o'.close.TextsApart) :
    TextsApart ⟨o' :: opened, root⟩ := by
  obtain ⟨ho, hopened⟩ := List.forall_mem_cons.mp hp.opened
  exact ⟨List.forall_mem_cons.mpr ⟨ho' ho, hopened⟩, hp.root⟩

theorem TextsApart.addElement (hp : p.TextsApart) {e : Element} (he : e.TextsApart) (h : p.addElement e = .ok p') :
    p'.TextsApart := by
  obtain ⟨_ | ⟨o, opened⟩, root⟩ := p
  · cases root <;> cases h
    refine ⟨hp.opened, ?_⟩
    rintro _ ⟨⟩
    exact he
  · cases h
    exact hp.replace fun ho => OpenElement.textsApart_addElement ho he

theorem TextsApart.addText (hp : p.TextsApart) {s : String} (h : p.addText s = .ok p') : p'.TextsApart := by
  rcases eq_of_addText h with ⟨-, rfl⟩ | ⟨o, opened, root, rfl, rfl⟩
  · exact hp
  · exact hp.replace fun ho => OpenElement.textsApart_addText ho s

theorem TextsApart.addAside (hp : p.TextsApart) {c : Content} (htext : ∀ s, c ≠ .text s)
    (helement : ∀ e, c ≠ .element e) : (p.addAside c).TextsApart := by
  obtain ⟨_ | ⟨o, opened⟩, root⟩ := p
  · exact hp
  · refine hp.replace fun ho => OpenElement.textsApart_add_iff.mpr ⟨ho, ?_, ?_⟩
    · exact fun s hs => absurd hs (htext s)
    · exact fun e he => absurd he (helement e)

/-- Taking in an event keeps texts apart. -/
theorem TextsApart.step (hp : p.TextsApart) {event : Event} (h : p.step limit event = .ok p') : p'.TextsApart := by
  cases event with
  | start tag =>
    obtain ⟨o, ho, rfl⟩ := map_eq_ok_iff.mp h
    exact ⟨List.forall_mem_cons.mpr ⟨textsApart_of_openElement ho, hp.opened⟩, hp.root⟩
  | empty tag =>
    obtain ⟨o, ho, hadd⟩ := bind_eq_ok_iff.mp h
    exact hp.addElement (textsApart_of_openElement ho) hadd
  | close =>
    obtain ⟨_ | ⟨o, opened⟩, root⟩ := p
    · cases h
    · obtain ⟨ho, hopened⟩ := List.forall_mem_cons.mp hp.opened
      have hclosed : TextsApart ⟨opened, root⟩ := ⟨hopened, hp.root⟩
      exact hclosed.addElement ho h
  | text s => exact hp.addText h
  | reference name =>
    obtain ⟨s, hadd⟩ := exists_addText_of_reference h
    exact hp.addText hadd
  | comment s | instruction s =>
    cases h
    exact hp.addAside (fun _ => by rintro ⟨⟩) (fun _ => by rintro ⟨⟩)

/-- Whatever events are taken in, texts stay apart. -/
theorem TextsApart.run (hp : p.TextsApart) {events : List Event} (h : p.run limit events = .ok p') :
    p'.TextsApart := by
  induction events generalizing p with
  | nil =>
    cases h
    exact hp
  | cons event events ih =>
    obtain ⟨p'', hstep, hrun⟩ := bind_eq_ok_iff.mp h
    exact ih (hp.step hstep) hrun

end Progress

/-- In an element that has been read, texts stand apart at every depth. -/
theorem Element.textsApart_of_read {xml : String} {e : Element} (h : read limit xml = .ok e) : e.TextsApart := by
  obtain ⟨hrun, -⟩ := read_eq_ok_iff.mp h
  exact (Progress.textsApart_start.run hrun).root e rfl

end Xml
end OfficeMath
