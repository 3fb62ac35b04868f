import OfficeMath.Proofs.Xml.Depth

/-! Reading token by token. A token changes the tags that are open and what has been read, and both keep in step: for
    every tag that is open there is an element. Outside of the root, text only counts by being blank. -/

namespace OfficeMath
namespace Xml

variable {limit : Nat} {tags tags' : List StartTag} {p p' : Progress}

/-! ### One token -/

/-- The tags that are open after a token, and what has been read with it. -/
def takeToken (limit : Nat) (tags : List StartTag) (p : Progress) (t : Token) :
    Except Error (List StartTag × Progress) :=
  match t with
  | .startTag body =>
    match StartTag.ofBody (Events.scopeOf tags) body with
    | .error e => .error (.malformed e)
    | .ok tag => (p.step limit (.start tag)).map fun p => (tag :: tags, p)
  | .emptyTag body =>
    match StartTag.ofBody (Events.scopeOf tags) body with
    | .error e => .error (.malformed e)
    | .ok tag => (p.step limit (.empty tag)).map fun p => (tags, p)
  | .endTag name =>
    match tags with
    | [] => .error (.malformed (.unmatchedEndTag (String.ofList name)))
    | tag :: tags =>
      if tag.qualified = name then (p.step limit .close).map fun p => (tags, p)
      else .error (.malformed (.mismatchedEndTag (String.ofList tag.qualified) (String.ofList name)))
  | .text chars => (p.step limit (.text (String.ofList chars))).map fun p => (tags, p)
  | .reference name => (p.step limit (.reference name)).map fun p => (tags, p)
  | .characterData chars => (p.step limit (.text (String.ofList chars))).map fun p => (tags, p)
  | .comment chars => (p.step limit (.comment (String.ofList chars))).map fun p => (tags, p)
  | .instruction chars => (p.step limit (.instruction (String.ofList chars))).map fun p => (tags, p)
  | .declaration => .ok (tags, p)

theorem Progress.run_singleton (e : Event) : p.run limit [e] = p.step limit e := bind_pure _

theorem Progress.run_append (events events' : List Event) :
    p.run limit (events ++ events') = (p.run limit events).bind fun p => p.run limit events' :=
  List.foldlM_append

namespace Events

/-- The events and those after them. -/
def nextAll (events : List Event) (rest : Events) : Events := ⟨events ++ rest.events, rest.fault⟩

theorem nextAll_nextAll (events events' : List Event) (rest : Events) :
    nextAll events (nextAll events' rest) = nextAll (events ++ events') rest := by
  rw [nextAll, nextAll, nextAll, List.append_assoc]

theorem elementFrom_nextAll (events : List Event) (rest : Events) :
    (nextAll events rest).elementFrom limit p =
      (p.run limit events).bind fun p => rest.elementFrom limit p := by
  unfold elementFrom
  rw [nextAll, Progress.run_append]
  cases p.run limit events <;> rfl

/-- A token is a fault where it stands, or it gives its events, of which there is one at most, and other tags are open
    after it. -/
theorem ofTokens_cons (tags : List StartTag) (t : Token) :
    (∃ fault, (∀ tokens last, ofTokens tags (t :: tokens) last = stop (some fault)) ∧
        ∀ limit p, takeToken limit tags p t = .error (.malformed fault)) ∨
      ∃ events tags', (∀ tokens last, ofTokens tags (t :: tokens) last = nextAll events (ofTokens tags' tokens last)) ∧
        ∀ limit p, takeToken limit tags p t = (p.run limit events).map fun p => (tags', p) := by
  cases t with
  | startTag body | emptyTag body =>
    cases htag : StartTag.ofBody (scopeOf tags) body with
    | error fault => exact .inl ⟨fault, fun _ _ => by rw [ofTokens, htag], fun _ _ => by rw [takeToken, htag]⟩
    | ok tag =>
      refine .inr ⟨[_], _, fun _ _ => by rw [ofTokens, htag]; rfl, fun _ _ => ?_⟩
      rw [takeToken, htag, Progress.run_singleton]
  | endTag name =>
    cases tags with
    | nil => exact .inl ⟨_, fun _ _ => rfl, fun _ _ => rfl⟩
    | cons tag tags =>
      by_cases hname : tag.qualified = name
      · refine .inr ⟨[.close], tags, fun _ _ => by rw [ofTokens, if_pos hname]; rfl, fun _ _ => ?_⟩
        rw [takeToken, if_pos hname, Progress.run_singleton]
      · exact .inl ⟨_, fun _ _ => by rw [ofTokens, if_neg hname], fun _ _ => by rw [takeToken, if_neg hname]⟩
  | declaration => exact .inr ⟨[], tags, fun _ _ => rfl, fun _ _ => rfl⟩
  | _ => exact .inr ⟨[_], tags, fun _ _ => rfl, fun _ _ => by rw [takeToken, Progress.run_singleton]⟩

end Events

/-- Tokens are taken in one after the other. -/
theorem elementFrom_ofTokens_cons (t : Token) (tokens : List Token) (fault : Option Malformed) :
    (Events.ofTokens tags (t :: tokens) fault).elementFrom limit p =
      (takeToken limit tags p t).bind fun s => (Events.ofTokens s.1 tokens fault).elementFrom limit s.2 := by
  rcases Events.ofTokens_cons tags t with ⟨_, hstop, htake⟩ | ⟨events, tags', hevents, htake⟩
  · rw [hstop, htake]
    rfl
  · rw [hevents, htake, Events.elementFrom_nextAll]
    cases p.run limit events <;> rfl

theorem readOn_of_read {c : Char} {cs rest : List Char} {t : Token} (h : Token.read c cs = .ok (t, rest)) :
    readOn limit tags p (c :: cs) = (takeToken limit tags p t).bind fun s => readOn limit s.1 s.2 rest := by
  unfold readOn
  rw [Token.scan_cons_of_ok h]
  exact elementFrom_ofTokens_cons t _ _

theorem readOn_of_fault {c : Char} {cs : List Char} {fault : Malformed} (h : Token.read c cs = .error fault) :
    readOn limit tags p (c :: cs) = .error (.malformed fault) := by
  unfold readOn
  rw [Token.scan_cons_of_error h]
  rfl

/-! ### Open tags and open elements -/

namespace OpenElement

/-- The name and the attributes of an open element, which its tag has given it. -/
def head (o : OpenElement) : Name × List Attribute := (o.name, o.attributes)

theorem head_addText (o : OpenElement) (s : String) : (o.addText s).head = o.head := by
  unfold addText
  split <;> rfl

end OpenElement

namespace Progress

/-- What the open elements have from their tags, the innermost first. -/
def heads (p : Progress) : List (Name × List Attribute) := p.opened.map OpenElement.head

@[simp] theorem length_heads (p : Progress) : p.heads.length = p.opened.length := List.length_map _

theorem heads_addElement {e : Element} (h : p.addElement e = .ok p') : p'.heads = p.heads := by
  obtain ⟨_ | ⟨o, opened⟩, _ | root⟩ := p <;> cases h <;> rfl

theorem heads_addText {s : String} (h : p.addText s = .ok p') : p'.heads = p.heads := by
  rcases eq_of_addText h with ⟨-, rfl⟩ | ⟨o, opened, root, rfl, rfl⟩
  · rfl
  · exact congrArg (· :: opened.map OpenElement.head) (OpenElement.head_addText o s)

theorem heads_addAside (c : Content) : (p.addAside c).heads = p.heads := by
  obtain ⟨_ | ⟨o, opened⟩, root⟩ := p <;> rfl

end Progress

/-- The token opens an element that holds what comes after it, or closes one. -/
def Token.opensOrCloses : Token → Bool
  | .startTag _ | .endTag _ => true
  | _ => false

/-- What a token does to the tags that are open and to the elements that they started: a start tag puts one on both, an
    end tag takes one from both, and all other tokens leave both open as they are. -/
inductive Turn (limit : Nat) (tags : List StartTag) (p : Progress) : Token → List StartTag → Progress → Prop
  | opens {body : List Char} {tag : StartTag} {o : OpenElement}
      (htag : StartTag.ofBody (Events.scopeOf tags) body = .ok tag) (ho : p.openElement limit tag = .ok o) :
      Turn limit tags p (.startTag body) (tag :: tags) { p with opened := o :: p.opened }
  | closes {tag : StartTag} {tags' : List StartTag} {o : OpenElement} {opened : List OpenElement} {p' : Progress}
      (htags : tags = tag :: tags') (hopened : p.opened = o :: opened)
      (hheads : p'.heads = opened.map OpenElement.head) : Turn limit tags p (.endTag tag.qualified) tags' p'
  | stays {t : Token} {p' : Progress} (ht : t.opensOrCloses = false) (hheads : p'.heads = p.heads) :
      Turn limit tags p t tags p'

theorem turn_of_takeToken {t : Token} (h : takeToken limit tags p t = .ok (tags', p')) :
    Turn limit tags p t tags' p' := by
  cases t with
  | startTag body =>
    rw [takeToken] at h
    split at h
    · cases h
    · next htag =>
      obtain ⟨p', hstep, heq⟩ := map_eq_ok_iff.mp h
      cases heq
      obtain ⟨o, ho, rfl⟩ := map_eq_ok_iff.mp hstep
      exact .opens htag ho
  | emptyTag body =>
    rw [takeToken] at h
    split at h
    · cases h
    · obtain ⟨p', hstep, heq⟩ := map_eq_ok_iff.mp h
      cases heq
      obtain ⟨o, -, hadd⟩ := bind_eq_ok_iff.mp hstep
      exact .stays rfl (Progress.heads_addElement hadd)
  | endTag name =>
    cases tags with
    | nil => cases h
    | cons tag tags =>
      rw [takeToken] at h
      split at h
      · next hname =>
        subst hname
        obtain ⟨p', hstep, heq⟩ := map_eq_ok_iff.mp h
        cases heq
        obtain ⟨_ | ⟨o, opened⟩, root⟩ := p
        · cases hstep
        · exact .closes rfl rfl (Progress.heads_addElement (p := ⟨opened, root⟩) hstep)
      · cases h
  | declaration =>
    cases h
    exact .stays rfl rfl
  | text chars | characterData chars =>
    obtain ⟨p', hstep, heq⟩ := map_eq_ok_iff.mp h
    cases heq
    exact .stays rfl (Progress.heads_addText hstep)
  | reference name =>
    obtain ⟨p', hstep, heq⟩ := map_eq_ok_iff.mp h
    cases heq
    obtain ⟨s, hadd⟩ := Progress.exists_addText_of_reference hstep
    exact .stays rfl (Progress.heads_addText hadd)
  | comment chars | instruction chars =>
    cases h
    exact .stays rfl (Progress.heads_addAside _)

/-- A token opens and closes tags and elements alike. -/
theorem length_eq_of_takeToken {t : Token} (h : takeToken limit tags p t = .ok (tags', p'))
    (hlength : tags.length = p.opened.length) : tags'.length = p'.opened.length := by
  cases turn_of_takeToken h with
  | opens htag ho => exact congrArg (· + 1) hlength
  | closes htags hopened hheads =>
    rw [htags, hopened] at hlength
    rw [← Progress.length_heads, hheads, List.length_map]
    exact Nat.succ.inj hlength
  | stays ht hheads => rw [← Progress.length_heads, hheads, Progress.length_heads, hlength]

/-! ### The byte order mark -/

namespace Events

theorem withoutByteOrderMark_of_head? {cs : List Char} (h : cs.head? ≠ some '\ufeff') :
    withoutByteOrderMark cs = cs := by
  cases cs with
  | nil => rfl
  | cons c cs =>
    have hc : (c == '\ufeff') = false := by simpa using h
    rw [withoutByteOrderMark, hc, if_neg Bool.false_ne_true]

theorem withoutByteOrderMark_append {cs : List Char} (h : cs ≠ []) (rest : List Char) :
    withoutByteOrderMark (cs ++ rest) = withoutByteOrderMark cs ++ rest := by
  obtain ⟨c, cs, rfl⟩ := List.exists_cons_of_ne_nil h
  rw [List.cons_append, withoutByteOrderMark, withoutByteOrderMark]
  split <;> rfl

theorem withoutByteOrderMark_append_markup (cs rest : List Char) :
    withoutByteOrderMark (cs ++ '<' :: rest) = withoutByteOrderMark cs ++ '<' :: rest := by
  cases cs with
  | nil => rfl
  | cons c cs => exact withoutByteOrderMark_append (List.cons_ne_nil c cs) _

theorem withoutByteOrderMark_subset (cs : List Char) : withoutByteOrderMark cs ⊆ cs := by
  cases cs with
  | nil => exact List.Subset.refl _
  | cons c cs =>
    rw [withoutByteOrderMark]
    split
    · exact List.subset_cons_self c cs
    · exact List.Subset.refl _

end Events

/-! ### Text outside of the root -/

theorem Token.read_text {c : Char} (hc : inText c = true) (cs : List Char) :
    read c cs = .ok (.text (c :: cs.takeWhile inText), cs.dropWhile inText) := by
  have hne : (c == '<') = false ∧ (c == '&') = false := by simpa [inText] using hc
  rw [read, hne.1, hne.2]
  rfl

theorem takeWhile_inText_of_blank {cs : List Char} (h : ∀ c ∈ cs, Text.isBlank c = true) (rest : List Char) :
    (cs ++ rest).takeWhile Token.inText = cs ++ rest.takeWhile Token.inText ∧
      (cs ++ rest).dropWhile Token.inText = rest.dropWhile Token.inText := by
  have hall : ∀ c ∈ cs, Token.inText c = true := fun c hc => Token.inText_of_isBlank (h c hc)
  exact ⟨List.takeWhile_append_of_pos hall, List.dropWhile_append_of_pos hall⟩

/-- Outside of the root, a piece of text is passed over if it is blank, and refused if it is not. -/
theorem readOn_text_outside (hp : p.opened = []) (cs : List Char) :
    readOn limit tags p cs =
      if (cs.takeWhile Token.inText).all Text.isBlank then readOn limit tags p (cs.dropWhile Token.inText)
      else .error .textOutsideRoot := by
  cases cs with
  | nil => rfl
  | cons c cs =>
    cases hc : Token.inText c with
    | false => simp [hc]
    | true =>
      rw [readOn_text (Token.read_text hc cs), Progress.addText_outside hp, Text.isBlankText, String.toList_ofList,
        List.takeWhile_cons_of_pos hc, List.dropWhile_cons_of_pos hc]
      split <;> rfl

/-- Outside of the root, blank characters make no difference. -/
theorem readOn_blank_append (hp : p.opened = []) {blank : List Char} (h : ∀ c ∈ blank, Text.isBlank c = true)
    (cs : List Char) : readOn limit tags p (blank ++ cs) = readOn limit tags p cs := by
  have hblank : blank.all Text.isBlank = true := List.all_eq_true.mpr h
  obtain ⟨htake, hdrop⟩ := takeWhile_inText_of_blank h cs
  rw [readOn_text_outside hp (blank ++ cs), readOn_text_outside hp cs, htake, hdrop, List.all_append, hblank,
    Bool.true_and]

end Xml
end OfficeMath
