import Mathlib
import OfficeMath.Proofs.Xml.ReadOn
import OfficeMath.Proofs.Xml.Spelling

/-! The depth of what is read. Every open element leaves room below it for what it holds, so an element that has been
    read nests no deeper than the limit; and a text of blank characters holds no element. -/

namespace OfficeMath
namespace Xml

variable {limit : Nat}

/-! ### Results -/

section
variable {ε α β : Type} {x : Except ε α} {b : β}

theorem bind_eq_ok_iff {f : α → Except ε β} : x.bind f = .ok b ↔ ∃ a, x = .ok a ∧ f a = .ok b := by
  cases x <;> simp [Except.bind]

theorem bind_eq_error_iff {f : α → Except ε β} {error : ε} :
    x.bind f = .error error ↔ x = .error error ∨ ∃ a, x = .ok a ∧ f a = .error error := by
  cases x <;> simp [Except.bind]

theorem map_eq_ok_iff {f : α → β} : x.map f = .ok b ↔ ∃ a, x = .ok a ∧ f a = b := by
  cases x <;> simp [Except.map]

theorem map_eq_error_iff {f : α → β} {error : ε} : x.map f = .error error ↔ x = .error error := by
  cases x <;> simp [Except.map]

end

/-! ### Depth of items -/

namespace Content

theorem depthAll_cons_of_element? {c : Content} (h : c.element? = none) (content : List Content) :
    depthAll (c :: content) = depthAll content := by
  cases c with
  | element e => cases h
  | _ => rfl

theorem depthAll_append (content content' : List Content) :
    depthAll (content ++ content') = max (depthAll content) (depthAll content') := by
  induction content with
  | nil => simp [depthAll]
  | cons c content ih => cases c <;> simp [depthAll, ih, Nat.max_assoc]

theorem depthAll_reverse (content : List Content) : depthAll content.reverse = depthAll content := by
  induction content with
  | nil => rfl
  | cons c content ih =>
    rw [List.reverse_cons, depthAll_append, ih, Nat.max_comm, ← depthAll_append, List.singleton_append]

end Content

/-! ### Open elements -/

namespace OpenElement

theorem depth_close (o : OpenElement) : o.close.depth = Content.depthAll o.held + 1 := by
  rw [close, Element.depth, Content.depthAll_reverse]

theorem depthAll_addText (o : OpenElement) (s : String) :
    Content.depthAll (o.addText s).held = Content.depthAll o.held := by
  unfold addText
  split
  · next hheld =>
    rw [hheld]
    rfl
  · rfl

/-- Each of the open elements, the innermost first, holds no more than the limit leaves room for below it. -/
inductive HaveRoom (limit : Nat) : List OpenElement → Prop
  | nil : HaveRoom limit []
  | cons {o : OpenElement} {opened : List OpenElement} (h : opened.length + 1 + Content.depthAll o.held ≤ limit)
      (hs : HaveRoom limit opened) : HaveRoom limit (o :: opened)

end OpenElement

namespace Progress

open OpenElement

/-- Nothing that has been read goes deeper than the limit. -/
structure FitsIn (limit : Nat) (p : Progress) : Prop where
  opened : HaveRoom limit p.opened
  root : ∀ e, p.root = some e → e.depth ≤ limit

theorem fitsIn_start : FitsIn limit start where
  opened := .nil
  root _ h := by cases h

variable {p p' : Progress}

/-- An element is opened with what its tag gives it, where there is room for it. -/
theorem openElement_eq_ok_iff {tag : StartTag} {o : OpenElement} : p.openElement limit tag = .ok o ↔
    p.opened.length < limit ∧ ∃ attributes, tag.readAll = .ok attributes ∧ o = ⟨tag.name, attributes, []⟩ := by
  unfold Progress.openElement
  split
  · next hlimit => simp [Nat.not_lt.mpr hlimit]
  · next hlimit => cases tag.readAll <;> simp [Nat.lt_of_not_le hlimit, eq_comm]

theorem addText_outside (hp : p.opened = []) (s : String) :
    p.addText s = if Text.isBlankText s then .ok p else .error .textOutsideRoot := by
  rw [Progress.addText, hp]

/-- Text goes into the innermost of the open elements, and is passed over outside of the root. -/
theorem eq_of_addText {s : String} (h : p.addText s = .ok p') : p.opened = [] ∧ p' = p ∨
    ∃ o opened root, p = ⟨o :: opened, root⟩ ∧ p' = ⟨o.addText s :: opened, root⟩ := by
  obtain ⟨_ | ⟨o, opened⟩, root⟩ := p
  · rw [addText_outside rfl] at h
    split at h <;> cases h
    exact .inl ⟨rfl, rfl⟩
  · cases h
    exact .inr ⟨o, opened, root, rfl, rfl⟩

theorem exists_addText_of_reference {name : List Char} (h : p.step limit (.reference name) = .ok p') :
    ∃ s, p.addText s = .ok p' := by
  unfold Progress.step at h
  dsimp only at h
  split at h
  · exact ⟨_, h⟩
  · cases h
  · cases h

theorem FitsIn.openElement (hp : p.FitsIn limit) {tag : StartTag} {o : OpenElement}
    (h : p.openElement limit tag = .ok o) : HaveRoom limit (o :: p.opened) ∧ o.close.depth = 1 := by
  obtain ⟨hlt, attributes, -, rfl⟩ := openElement_eq_ok_iff.mp h
  exact ⟨.cons hlt hp.opened, rfl⟩

theorem FitsIn.addElement (hp : p.FitsIn limit) {e : Element} (he : p.opened.length + e.depth ≤ limit)
    (h : p.addElement e = .ok p') : p'.FitsIn limit := by
  obtain ⟨opened, root⟩ := p
  cases hp.opened with
  | nil =>
    cases root with
    | some root => cases h
    | none =>
      cases h
      refine ⟨.nil, fun e' he' => ?_⟩
      cases he'
      exact (Nat.zero_add e.depth ▸ he : e.depth ≤ limit)
  | @cons o opened hroom hopened =>
    cases h
    refine ⟨.cons ?_ hopened, hp.root⟩
    rw [OpenElement.add, Content.depthAll]
    rw [List.length_cons] at he
    omega

theorem FitsIn.addText (hp : p.FitsIn limit) {s : String} (h : p.addText s = .ok p') : p'.FitsIn limit := by
  rcases eq_of_addText h with ⟨-, rfl⟩ | ⟨o, opened, root, rfl, rfl⟩
  · exact hp
  · obtain ⟨_ | ⟨hroom, hopened⟩, hroot⟩ := hp
    exact ⟨.cons (by rwa [depthAll_addText]) hopened, hroot⟩

theorem FitsIn.addAside (hp : p.FitsIn limit) {c : Content} (hc : c.element? = none) :
    (p.addAside c).FitsIn limit := by
  obtain ⟨opened, root⟩ := p
  cases hp.opened with
  | nil => exact hp
  | cons hroom hopened =>
    refine ⟨.cons ?_ hopened, hp.root⟩
    rwa [OpenElement.add, Content.depthAll_cons_of_element? hc]

/-- Taking in an event keeps everything within the limit. -/
theorem FitsIn.step (hp : p.FitsIn limit) {event : Event} (h : p.step limit event = .ok p') : p'.FitsIn limit := by
  cases event with
  | start tag =>
    obtain ⟨o, ho, rfl⟩ := map_eq_ok_iff.mp h
    exact ⟨(hp.openElement ho).1, hp.root⟩
  | empty tag =>
    obtain ⟨o, ho, h⟩ := bind_eq_ok_iff.mp h
    obtain ⟨_ | ⟨hroom, -⟩, -⟩ := hp.openElement ho
    refine hp.addElement ?_ h
    rw [depth_close]
    omega
  | close =>
    obtain ⟨opened, root⟩ := p
    cases hp.opened with
    | nil => cases h
    | @cons o opened hroom hopened =>
      -- what is closed counts as one level more in the element around it, which leaves it that room
      have hclosed : FitsIn limit ⟨opened, root⟩ := ⟨hopened, hp.root⟩
      have hdepth : opened.length + o.close.depth ≤ limit := by
        rw [depth_close]
        omega
      exact hclosed.addElement hdepth h
  | text s => exact hp.addText h
  | reference name =>
    obtain ⟨s, hadd⟩ := exists_addText_of_reference h
    exact hp.addText hadd
  | comment s =>
    cases h
    exact hp.addAside rfl
  | instruction s =>
    cases h
    exact hp.addAside rfl

/-- Whatever events are taken in, everything stays within the limit. -/
theorem FitsIn.run (hp : p.FitsIn limit) {events : List Event} (h : p.run limit events = .ok p') :
    p'.FitsIn limit := by
  induction events generalizing p with
  | nil =>
    cases h
    exact hp
  | cons event events ih =>
    obtain ⟨p'', hstep, hrun⟩ := bind_eq_ok_iff.mp h
    exact ih (hp.step hstep) hrun

theorem eq_of_finish {e : Element} (h : p.finish = .ok e) : p = ⟨[], some e⟩ := by
  obtain ⟨_ | ⟨o, opened⟩, _ | root⟩ := p <;> cases h
  rfl

end Progress

/-- An element is read of events without a fault, when nothing but that element is left of them. -/
theorem Events.elementFrom_eq_ok_iff {p : Progress} {events : Events} {e : Element} :
    events.elementFrom limit p = .ok e ↔ p.run limit events.events = .ok ⟨[], some e⟩ ∧ events.fault = none := by
  unfold Events.elementFrom
  constructor
  · intro h
    split at h
    · cases h
    · cases h
    · next p' hrun hfault =>
      obtain rfl := Progress.eq_of_finish h
      exact ⟨hrun, hfault⟩
  · rintro ⟨hrun, hfault⟩
    rw [hrun, hfault]
    rfl

theorem Element.read_eq_ok_iff {xml : String} {e : Element} : Element.read limit xml = .ok e ↔
    Progress.start.run limit (Events.ofString xml).events = .ok ⟨[], some e⟩ ∧ (Events.ofString xml).fault = none :=
  Events.elementFrom_eq_ok_iff

/-! ### Blank text -/

namespace Token

theorem inText_of_isBlank {c : Char} (h : Text.isBlank c = true) : inText c = true := by
  have hne (d : Char) (hd : Text.isBlank d = false) : c ≠ d := by
    rintro rfl
    exact Bool.false_ne_true (hd.symm.trans h)
  simp [inText, hne '<' (by decide), hne '&' (by decide)]

/-- A text without markup and references is one token. -/
theorem read_of_inText {c : Char} {cs : List Char} (h : ∀ d ∈ c :: cs, inText d = true) :
    read c cs = .ok (.text (c :: cs), []) := by
  obtain ⟨hc, hcs⟩ := List.forall_mem_cons.mp h
  have hne : (c == '<') = false ∧ (c == '&') = false := by simpa [inText] using hc
  rw [read, hne.1, hne.2, List.takeWhile_eq_self_iff.mpr hcs, List.dropWhile_eq_nil_iff.mpr hcs]
  rfl

end Token

/-! ### What is read -/

namespace Element

/-- An element that has been read nests no deeper than the limit. -/
theorem depth_le_of_read {xml : String} {e : Element} (h : read limit xml = .ok e) : e.depth ≤ limit := by
  obtain ⟨hrun, -⟩ := read_eq_ok_iff.mp h
  exact (Progress.fitsIn_start.run hrun).root e rfl

/-- In a text of blank characters there is no element, whatever the limit is. -/
theorem read_of_isBlankText {xml : String} (h : Text.isBlankText xml = true) :
    read limit xml = .error .emptyInput := by
  rw [read_eq_readOn]
  rw [Text.isBlankText, List.all_eq_true] at h
  generalize xml.toList = cs at h
  cases cs with
  | nil => rw [Events.withoutByteOrderMark, readOn_nil, Progress.start, Progress.finish]
  | cons c cs =>
    have hmark : (c == '\ufeff') = false := by
      refine beq_false_of_ne ?_
      rintro rfl
      exact absurd (h _ (List.mem_cons_self ..)) (by decide)
    have hadd : Progress.start.addText (String.ofList (c :: cs)) = .ok .start := by
      have hblank : Text.isBlankText (String.ofList (c :: cs)) = true := by
        rw [Text.isBlankText, String.toList_ofList, List.all_eq_true]
        exact h
      rw [Progress.addText, Progress.start, hblank]
      rfl
    have hread := Token.read_of_inText fun d hd => Token.inText_of_isBlank (h d hd)
    rw [Events.withoutByteOrderMark, hmark, if_neg Bool.false_ne_true, readOn_text hread, hadd]
    exact readOn_nil

end Element

end Xml
end OfficeMath
