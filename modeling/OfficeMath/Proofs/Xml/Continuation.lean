import Mathlib
import OfficeMath.Proofs.Xml.Extent
import OfficeMath.Proofs.Xml.TokenStep

/-! Text that goes on after a document. Once the root of a document is closed, it stays what it is: whatever comes
    after it is passed over or is an error, and another document after it is always an error. -/

namespace OfficeMath
namespace Xml

variable {limit : Nat} {tags : List StartTag} {p p' : Progress} {e e' : Element}

/-! ### The root stays -/

namespace Progress

theorem root_of_addElement (hroot : p.root = some e) (h : p.addElement e' = .ok p') : p'.root = some e := by
  obtain ⟨_ | ⟨o, opened⟩, root⟩ := p
  · cases hroot
    cases h
  · cases h
    exact hroot

theorem root_of_addText {s : String} (h : p.addText s = .ok p') : p'.root = p.root := by
  rcases eq_of_addText h with ⟨-, rfl⟩ | ⟨o, opened, root, rfl, rfl⟩ <;> rfl

theorem root_addAside (c : Content) : (p.addAside c).root = p.root := by
  obtain ⟨_ | ⟨o, opened⟩, root⟩ := p <;> rfl

/-- No event changes a root that is closed. -/
theorem root_of_step {event : Event} (hroot : p.root = some e) (h : p.step limit event = .ok p') :
    p'.root = some e := by
  cases event with
  | start tag =>
    obtain ⟨o, -, rfl⟩ := map_eq_ok_iff.mp h
    exact hroot
  | empty tag =>
    obtain ⟨o, -, hadd⟩ := bind_eq_ok_iff.mp h
    exact root_of_addElement hroot hadd
  | close =>
    obtain ⟨_ | ⟨o, opened⟩, root⟩ := p
    · cases h
    · exact root_of_addElement (p := ⟨opened, root⟩) hroot h
  | text s => exact (root_of_addText h).trans hroot
  | reference name =>
    obtain ⟨s, hadd⟩ := exists_addText_of_reference h
    exact (root_of_addText hadd).trans hroot
  | comment s | instruction s =>
    cases h
    exact (root_addAside _).trans hroot

theorem root_of_run {events : List Event} (hroot : p.root = some e) (h : p.run limit events = .ok p') :
    p'.root = some e := by
  induction events generalizing p with
  | nil =>
    cases h
    exact hroot
  | cons event events ih =>
    obtain ⟨p'', hstep, hrun⟩ := bind_eq_ok_iff.mp h
    exact ih (root_of_step hroot hstep) hrun

end Progress

/-- What is read after a root that is closed is that root or an error. -/
theorem eq_of_readOn_of_root {cs : List Char} (hroot : p.root = some e) (h : readOn limit tags p cs = .ok e') :
    e' = e := by
  obtain ⟨hrun, -⟩ := Events.elementFrom_eq_ok_iff.mp h
  exact Option.some.inj (Progress.root_of_run hroot hrun)

/-! ### A second root -/

namespace Progress

/-- The same as has been read, after a root that is closed. -/
def after (e : Element) (p : Progress) : Progress := { p with root := some e }

theorem addElement_after (hroot : p.root = none) (h : p.addElement e' = .ok p') :
    (p'.root = none ∧ (p.after e).addElement e' = .ok (p'.after e)) ∨
      (p.after e).addElement e' = .error .contentAfterRoot := by
  obtain ⟨_ | ⟨o, opened⟩, root⟩ := p
  · exact .inr rfl
  · cases h
    exact .inl ⟨hroot, rfl⟩

theorem addText_after {s : String} (h : p.addText s = .ok p') : (p.after e).addText s = .ok (p'.after e) := by
  obtain ⟨_ | ⟨o, opened⟩, root⟩ := p
  · unfold addText after at *
    dsimp only at h ⊢
    split at h
    · next hblank =>
      cases h
      rw [if_pos hblank]
    · cases h
  · cases h
    rfl

theorem addAside_after (c : Content) : (p.after e).addAside c = (p.addAside c).after e := by
  obtain ⟨_ | ⟨o, opened⟩, root⟩ := p <;> rfl

/-- After a root, an event is taken in as it is without one, or it would be a second root. -/
theorem step_after {event : Event} (hroot : p.root = none) (h : p.step limit event = .ok p') :
    (p'.root = none ∧ (p.after e).step limit event = .ok (p'.after e)) ∨
      (p.after e).step limit event = .error .contentAfterRoot := by
  cases event with
  | start tag =>
    obtain ⟨o, ho, rfl⟩ := map_eq_ok_iff.mp h
    have ho' : (p.after e).openElement limit tag = .ok o := ho
    exact .inl ⟨hroot, by rw [step, ho']; rfl⟩
  | empty tag =>
    obtain ⟨o, ho, hadd⟩ := bind_eq_ok_iff.mp h
    have ho' : (p.after e).openElement limit tag = .ok o := ho
    rw [step, ho']
    exact addElement_after hroot hadd
  | close =>
    obtain ⟨_ | ⟨o, opened⟩, root⟩ := p
    · cases h
    · exact addElement_after (p := ⟨opened, root⟩) hroot h
  | text s => exact .inl ⟨(root_of_addText h).trans hroot, addText_after h⟩
  | reference name =>
    unfold step at h ⊢
    dsimp only at h ⊢
    split at h
    · exact .inl ⟨(root_of_addText h).trans hroot, addText_after h⟩
    · cases h
    · cases h
  | comment s | instruction s =>
    cases h
    exact .inl ⟨(root_addAside _).trans hroot, congrArg Except.ok (addAside_after _)⟩

theorem run_after {events : List Event} (hroot : p.root = none) (h : p.run limit events = .ok p') :
    (p'.root = none ∧ (p.after e).run limit events = .ok (p'.after e)) ∨
      (p.after e).run limit events = .error .contentAfterRoot := by
  induction events generalizing p with
  | nil =>
    cases h
    exact .inl ⟨hroot, rfl⟩
  | cons event events ih =>
    obtain ⟨p'', hstep, hrun⟩ := bind_eq_ok_iff.mp h
    have hcons : (p.after e).run limit (event :: events) =
        ((p.after e).step limit event).bind (·.run limit events) := rfl
    rw [hcons]
    rcases step_after (e := e) hroot hstep with ⟨hroot, hstep⟩ | hstep
    · rw [hstep]
      exact ih hroot hrun
    · exact .inr (by rw [hstep]; rfl)

end Progress

/-- A document that is read by itself is an error after a root. -/
theorem readOn_after {cs : List Char} (hroot : p.root = none) (h : readOn limit tags p cs = .ok e') :
    readOn limit tags (p.after e) cs = .error .contentAfterRoot := by
  obtain ⟨hrun, -⟩ := Events.elementFrom_eq_ok_iff.mp h
  unfold readOn Events.elementFrom
  rcases Progress.run_after (e := e) hroot hrun with ⟨hroot', -⟩ | hrun'
  · cases hroot'
  · rw [hrun']

/-! ### What comes after a document -/

/-- A token ends where it did when text is added, unless everything was one piece of text. -/
theorem Token.endsBefore_append_of_read {c : Char} {cs rest : List Char} {t : Token}
    (h : Token.read c cs = .ok (t, rest)) (htext : ¬∀ d ∈ c :: cs, inText d = true) (s : List Char) :
    endsBefore c (rest ++ s) = true := by
  cases hc : inText c with
  | false => rw [endsBefore, hc, Bool.not_false, Bool.true_or]
  | true =>
    have hends := (exists_own_of_read h).1
    rw [read_text hc] at h
    cases h
    refine endsBefore_append hends (fun hnil => htext ?_) s
    exact List.forall_mem_cons.mpr ⟨hc, List.dropWhile_eq_nil_iff.mp hnil⟩

/-- Text at the end of a document is blank, so it makes no difference to what comes after it. -/
theorem readOn_append_of_inText {c : Char} {cs : List Char} (hcs : ∀ d ∈ c :: cs, Token.inText d = true)
    (hlength : tags.length = p.opened.length) (h : readOn limit tags p (c :: cs) = .ok e) (s : List Char) :
    readOn limit tags p (c :: cs ++ s) = readOn limit [] ⟨[], some e⟩ s := by
  rw [readOn_text (Token.read_of_inText hcs)] at h
  obtain ⟨p', hadd, h⟩ := bind_eq_ok_iff.mp h
  rw [readOn_nil] at h
  obtain rfl := Progress.eq_of_finish h
  have hopened : p.opened = [] := List.map_eq_nil_iff.mp (Progress.heads_addText hadd).symm
  rw [Progress.addText_outside hopened] at hadd
  split at hadd
  · next hblank =>
    cases hadd
    obtain rfl := List.eq_nil_of_length_eq_zero hlength
    rw [Text.isBlankText, String.toList_ofList, List.all_eq_true] at hblank
    exact readOn_blank_append rfl hblank s
  · cases hadd

/-- What has been read of a document is its root, and text after it is read on from there. -/
theorem readOn_append (s : List Char) : ∀ (cs : List Char) {tags : List StartTag} {p : Progress},
    tags.length = p.opened.length → readOn limit tags p cs = .ok e →
    readOn limit tags p (cs ++ s) = readOn limit [] ⟨[], some e⟩ s
  | [], tags, p, hlength, h => by
    rw [readOn_nil] at h
    obtain rfl := Progress.eq_of_finish h
    obtain rfl := List.eq_nil_of_length_eq_zero hlength
    rfl
  | c :: cs, tags, p, hlength, h => by
    by_cases htext : ∀ d ∈ c :: cs, Token.inText d = true
    · exact readOn_append_of_inText htext hlength h s
    · cases hread : Token.read c cs with
      | error fault =>
        rw [readOn_of_fault hread] at h
        cases h
      | ok next =>
        obtain ⟨t, rest⟩ := next
        have hrest : rest.length ≤ cs.length := Token.length_le_of_read hread
        obtain ⟨-, own, rfl, hown⟩ := Token.exists_own_of_read hread
        have hends' := Token.endsBefore_append_of_read hread htext s
        rw [readOn_of_read hread] at h
        obtain ⟨⟨tags', p'⟩, htake, h⟩ := bind_eq_ok_iff.mp h
        rw [List.cons_append, List.append_assoc, readOn_of_read (hown (rest ++ s) hends'), htake]
        exact readOn_append s rest (length_eq_of_takeToken htake hlength) h
termination_by cs => cs.length

theorem Element.read_append {x : String} (h : Element.read limit x = .ok e) (s : String) :
    Element.read limit (x ++ s) = readOn limit [] ⟨[], some e⟩ s.toList := by
  rw [Element.read_eq_readOn] at h ⊢
  have hne : x.toList ≠ [] := by
    intro hnil
    rw [hnil, Events.withoutByteOrderMark, readOn_nil] at h
    cases h
  rw [String.toList_append, Events.withoutByteOrderMark_append hne]
  exact readOn_append s.toList _ rfl h

/-- After a document, another one is a second root, unless a mark for the order of bytes stands between them, which is
    no blank text. -/
theorem Element.readOn_of_read {s : String} (h : Element.read limit s = .ok e') :
    ∃ error complaint, readOn limit [] ⟨[], some e⟩ s.toList = .error error ∧ error.complaint? = some complaint := by
  rw [Element.read_eq_readOn] at h
  by_cases hmark : s.toList.head? = some '\ufeff'
  · obtain ⟨cs, hs⟩ := List.head?_eq_some_iff.mp hmark
    refine ⟨.textOutsideRoot, _, ?_, rfl⟩
    rw [hs, readOn_text_outside rfl]
    rfl
  · rw [Events.withoutByteOrderMark_of_head? hmark] at h
    exact ⟨.contentAfterRoot, _, readOn_after rfl h, rfl⟩

/-- Once a document has been read, text after it leaves it as it is or is an error; and if the text is a document by
    itself, it is refused as not well-formed. A document that is cut off is thus never read as another one. -/
theorem Element.eq_of_read_append {x s : String} (h : Element.read limit x = .ok e) :
    (∀ e', Element.read limit (x ++ s) = .ok e' → e' = e) ∧
      (∀ e', Element.read limit s = .ok e' →
        ∃ error complaint, Element.read limit (x ++ s) = .error error ∧ error.complaint? = some complaint) := by
  rw [Element.read_append h]
  exact ⟨fun e' he' => eq_of_readOn_of_root rfl he', fun e' he' => Element.readOn_of_read he'⟩

/-- White space, a comment and a second document after a document. -/
theorem Element.eq_of_read_append_of_comment :
    let document := "<a/>\n"
    let element : Element := .mk ⟨none, "a"⟩ [] []
    Element.read 1 document = .ok element ∧
      Element.read 1 (document ++ " <!--b-->") = .ok element ∧
      (∀ e, Element.read 1 (document ++ " <!--b-->") = .ok e → e = element) ∧
      ∃ error complaint, Element.read 1 (document ++ " <c/>") = .error error ∧
        error.complaint? = some complaint := by
  intro document element
  have hdocument : Element.read 1 document = .ok element := by cbv
  have hcomment : Element.read 1 (document ++ " <!--b-->") = .ok element := by cbv
  have hsecond : Element.read 1 " <c/>" = .ok (.mk ⟨none, "c"⟩ [] []) := by cbv
  exact ⟨hdocument, hcomment, (Element.eq_of_read_append hdocument).1,
    (Element.eq_of_read_append hdocument).2 _ hsecond⟩

end Xml
end OfficeMath
