import OfficeMath.Proofs.Xml.Extent
import OfficeMath.Proofs.Xml.Rescoping
import OfficeMath.Proofs.Xml.TextPieces

/-! What comes before the root. Everything up to the tag of the root is passed over, or the text is an error, so a text
    that is read has a root, and what is read of it starts at the tag of the root. -/

namespace OfficeMath
namespace Xml

variable {limit : Nat} {tags : List StartTag} {p : Progress} {e : Element}

/-- The text starts no element, and markup that comes after it is a token of its own. -/
inductive Prolog : List Char → Prop
  | nil : Prolog []
  | cons {c : Char} {own cs : List Char} {t : Token}
      (hread : ∀ after, Token.read c (own ++ (cs ++ '<' :: after)) = .ok (t, cs ++ '<' :: after))
      (ht : t.tagName? = none) (h : Prolog cs) : Prolog (c :: own ++ cs)

/-- Outside of the root, a token that starts no element is passed over, or it is an error. -/
theorem eq_of_takeToken_outside {t : Token} {s : List StartTag × Progress} (hp : p.opened = [])
    (ht : t.tagName? = none) (h : takeToken limit [] p t = .ok s) : s = ([], p) := by
  have htext {chars : String} {p' : Progress} (h : p.addText chars = .ok p') : p' = p := by
    rcases Progress.eq_of_addText h with ⟨-, heq⟩ | ⟨o, opened, root, rfl, -⟩
    · exact heq
    · cases hp
  cases t with
  | startTag body | emptyTag body => cases ht
  | endTag name => cases h
  | declaration =>
    cases h
    rfl
  | text chars | characterData chars =>
    obtain ⟨p', hstep, rfl⟩ := map_eq_ok_iff.mp h
    rw [htext hstep]
  | reference name =>
    obtain ⟨p', hstep, rfl⟩ := map_eq_ok_iff.mp h
    obtain ⟨chars, hadd⟩ := Progress.exists_addText_of_reference hstep
    rw [htext hadd]
  | comment chars | instruction chars =>
    obtain ⟨opened, root⟩ := p
    subst hp
    cases h
    rfl

/-- What comes before the root makes no difference to what is read of the rest, whatever that is. -/
theorem Prolog.readOn_eq {cs : List Char} (h : Prolog cs) (hp : p.opened = []) {after : List Char}
    (hread : readOn limit [] p (cs ++ '<' :: after) = .ok e) (after' : List Char) :
    readOn limit [] p (cs ++ '<' :: after') = readOn limit [] p ('<' :: after') := by
  induction h with
  | nil => rfl
  | @cons c own cs t hown ht _ ih =>
    have hassoc (after : List Char) : c :: own ++ cs ++ '<' :: after = c :: (own ++ (cs ++ '<' :: after)) :=
      congrArg _ (List.append_assoc ..)
    rw [hassoc, readOn_of_read (hown after)] at hread
    obtain ⟨s, htake, hread⟩ := bind_eq_ok_iff.mp hread
    obtain rfl := eq_of_takeToken_outside hp ht htake
    rw [hassoc, readOn_of_read (hown after'), htake]
    exact ih hread

/-! ### The root of a text -/

/-- A text, cut before and after the tag of its root. -/
structure RootSplit (x : String) where
  before : List Char
  root : List Char
  after : List Char
  tag : Token
  text_eq : x.toList = before ++ '<' :: (root ++ after)
  prolog : Prolog (Events.withoutByteOrderMark before)
  read_root : Token.read '<' (root ++ after) = .ok (tag, after)
  starts : tag.tagName?.isSome = true

theorem Token.eq_of_read_tag {c : Char} {cs rest : List Char} {t : Token} (h : read c cs = .ok (t, rest))
    (ht : t.tagName?.isSome = true) : c = '<' := by
  unfold read at h
  split at h
  · next hc => exact eq_of_beq hc
  · split at h
    · unfold readReference at h
      split at h <;> cases h
      cases ht
    · cases h
      cases ht

theorem exists_prolog_of_readOn (hp : p.opened = []) (hroot : p.root = none) : ∀ cs : List Char,
    readOn limit [] p cs = .ok e →
    ∃ before root after tag, cs = before ++ '<' :: (root ++ after) ∧ Prolog before ∧
      Token.read '<' (root ++ after) = .ok (tag, after) ∧ tag.tagName?.isSome = true
  | [], h => by
    rw [readOn_nil, Progress.finish, hp, hroot] at h
    cases h
  | c :: cs, h => by
    cases hread : Token.read c cs with
    | error fault =>
      rw [readOn_of_fault hread] at h
      cases h
    | ok next =>
      obtain ⟨t, rest⟩ := next
      have hlength := Token.length_le_of_read hread
      obtain ⟨hends, own, rfl, hown⟩ := Token.exists_own_of_read hread
      cases ht : t.tagName?.isSome with
      | true =>
        obtain rfl := Token.eq_of_read_tag hread ht
        exact ⟨[], own, rest, t, rfl, .nil, hread, ht⟩
      | false =>
        have ht : t.tagName? = none := by simpa using ht
        rw [readOn_of_read hread] at h
        obtain ⟨s, htake, h⟩ := bind_eq_ok_iff.mp h
        obtain rfl := eq_of_takeToken_outside hp ht htake
        obtain ⟨before, root, after, tag, rfl, hprolog, hrest⟩ := exists_prolog_of_readOn hp hroot rest h
        refine ⟨c :: own ++ before, root, after, tag, by simp, .cons (fun after' => ?_) ht hprolog, hrest⟩
        refine hown _ ?_
        cases before with
        | nil => exact Token.endsBefore_markup c after'
        | cons d before => exact hends
termination_by cs => cs.length

theorem Events.eq_or_eq_withoutByteOrderMark (cs : List Char) :
    withoutByteOrderMark cs = cs ∨ cs = '\ufeff' :: withoutByteOrderMark cs := by
  by_cases h : cs.head? = some '\ufeff'
  · obtain ⟨cs, rfl⟩ := List.head?_eq_some_iff.mp h
    exact .inr rfl
  · exact .inl (withoutByteOrderMark_of_head? h)

/-- Every text of which an element is read has a root. -/
theorem nonempty_rootSplit_of_read {x : String} (h : Element.read limit x = .ok e) : Nonempty (RootSplit x) := by
  rw [Element.read_eq_readOn] at h
  obtain ⟨before, root, after, tag, hcs, hprolog, hread, htag⟩ := exists_prolog_of_readOn rfl rfl _ h
  rcases Events.eq_or_eq_withoutByteOrderMark x.toList with hmark | hmark
  · have hx : x.toList = before ++ '<' :: (root ++ after) := hmark.symm.trans hcs
    rw [hx, Events.withoutByteOrderMark_append_markup] at hmark
    exact ⟨before, root, after, tag, hx, (List.append_cancel_right hmark).symm ▸ hprolog, hread, htag⟩
  · exact ⟨'\ufeff' :: before, root, after, tag, hmark.trans (congrArg _ hcs), hprolog, hread, htag⟩

/-! ### Before the first markup -/

/-- A reference ends before the markup that follows, or it is a fault whatever the markup is. -/
theorem Token.read_reference_before_markup (cs : List Char) :
    (∃ name rest, cs = name ++ ';' :: rest ∧
        ∀ after, read '&' (cs ++ '<' :: after) = .ok (.reference name, rest ++ '<' :: after)) ∨
      ∀ after, read '&' (cs ++ '<' :: after) = .error .unterminatedReference := by
  have hcs : cs = cs.takeWhile inReference ++ cs.dropWhile inReference := List.takeWhile_append_dropWhile.symm
  have hname : ∀ c ∈ cs.takeWhile inReference, inReference c = true := List.all_eq_true.mp List.all_takeWhile
  have hhead := List.head?_dropWhile_not inReference cs
  generalize cs.takeWhile inReference = name at hcs hname
  generalize cs.dropWhile inReference = rest at hcs hhead
  subst hcs
  cases rest with
  | nil =>
    refine .inr fun after => ?_
    show readReference _ = _
    rw [readReference, List.append_nil, List.dropWhile_append_of_pos hname]
    rfl
  | cons c rest =>
    by_cases hsemicolon : c = ';'
    · subst hsemicolon
      refine .inl ⟨name, rest, rfl, fun after => ?_⟩
      rw [List.append_assoc]
      exact read_reference hname (rest ++ '<' :: after)
    · refine .inr fun after => ?_
      have hc : inReference c = false := by simpa using hhead
      show readReference _ = _
      rw [readReference, List.append_assoc, List.dropWhile_append_of_pos hname, List.cons_append, List.dropWhile_cons, hc]
      split
      · next heq => exact absurd (List.cons.inj heq).1 hsemicolon
      · rfl

theorem takeToken_reference_outside (limit : Nat) (tags : List StartTag) (hp : p.opened = []) (name : List Char) :
    takeToken limit tags p (.reference name) = .ok (tags, p) ∨
      ∃ e, takeToken limit tags p (.reference name) = .error e := by
  unfold takeToken Progress.step
  dsimp only
  split
  · rw [Progress.addText_outside hp]
    split
    · exact .inl rfl
    · exact .inr ⟨_, rfl⟩
  · exact .inr ⟨_, rfl⟩
  · exact .inr ⟨_, rfl⟩

/-- What stands before the first markup is passed over, or it is an error whatever the markup is. -/
theorem readOn_before_markup (limit : Nat) (tags : List StartTag) (hp : p.opened = []) : ∀ cs : List Char, '<' ∉ cs →
    (∀ after, readOn limit tags p (cs ++ '<' :: after) = readOn limit tags p ('<' :: after)) ∨
      ∃ e, ∀ after, readOn limit tags p (cs ++ '<' :: after) = .error e
  | [], _ => .inl fun _ => rfl
  | c :: cs, h => by
    obtain ⟨hc, hcs⟩ := not_or.mp (fun hmem => h (List.mem_cons.mpr hmem))
    by_cases hreference : c = '&'
    · subst hreference
      -- the rest of the text after a reference is shorter, but no tail of this one
      rcases Token.read_reference_before_markup cs with ⟨name, rest, rfl, hread⟩ | hfault
      · rcases takeToken_reference_outside limit tags hp name with htake | ⟨e, htake⟩
        · have hrest : '<' ∉ rest := fun hmem => hcs (by simp [hmem])
          have hnext (after : List Char) : readOn limit tags p ('&' :: (name ++ ';' :: rest) ++ '<' :: after) =
              readOn limit tags p (rest ++ '<' :: after) := by
            rw [List.cons_append, readOn_of_read (hread after), htake]
            rfl
          simp only [hnext]
          exact readOn_before_markup limit tags hp rest hrest
        · refine .inr ⟨e, fun after => ?_⟩
          rw [List.cons_append, readOn_of_read (hread after), htake]
          rfl
      · exact .inr ⟨_, fun after => readOn_of_fault (hfault after)⟩
    · -- text is taken one character at a time, since blank characters can be split off a piece of it
      cases hblank : Text.isBlank c with
      | true =>
        have hnext (after : List Char) :
            readOn limit tags p (c :: cs ++ '<' :: after) = readOn limit tags p (cs ++ '<' :: after) :=
          readOn_blank_append hp (List.forall_mem_singleton.mpr hblank) _
        simp only [hnext]
        exact readOn_before_markup limit tags hp cs hcs
      | false =>
        have htext : Token.inText c = true := by simp [Token.inText, Ne.symm hc, hreference]
        refine .inr ⟨.textOutsideRoot, fun after => ?_⟩
        rw [List.cons_append, readOn_text_outside hp, List.takeWhile_cons_of_pos htext, List.all_cons, hblank]
        rfl
termination_by cs => cs.length

end Xml
end OfficeMath
