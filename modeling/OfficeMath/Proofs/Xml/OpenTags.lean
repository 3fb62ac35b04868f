import OfficeMath.Proofs.Xml.TextsApart

/-! The tags that are open. At every point of a text, one element is open for each start tag before that point that no
    end tag has closed, in the same order, and there are no more of them than the limit allows. An end tag is refused
    before it could close nothing, and the elements that are open at the end of a text are counted by its tags. -/

namespace OfficeMath
namespace Xml

variable {limit : Nat} {tags tags' : List StartTag} {p p' : Progress} {error : Error}

/-! ### Start tags that are not closed -/

namespace Token

/-- The tokens of a text up to its first fault, and that fault if there is one. -/
def ofString (xml : String) : List Token × Option Malformed := scan (Events.withoutByteOrderMark xml.toList)

/-- The start tags, by what stands between their brackets, that are open after the tokens and as many end tags as
    `ends` says. The tokens are given the last first. -/
def unclosedBefore (ends : Nat) : List Token → List (List Char)
  | [] => []
  | .startTag body :: tokens =>
    match ends with
    | 0 => body :: unclosedBefore 0 tokens
    | ends + 1 => unclosedBefore ends tokens
  | .endTag _ :: tokens => unclosedBefore (ends + 1) tokens
  | _ :: tokens => unclosedBefore ends tokens

/-- The start tags that no end tag among the tokens closes, the last first. An end tag closes the last start tag before
    it that no other end tag closes. -/
def unclosed (tokens : List Token) : List (List Char) := unclosedBefore 0 tokens.reverse

/-- One more end tag closes the last of the start tags that are open. -/
theorem unclosedBefore_succ (ends : Nat) (tokens : List Token) :
    unclosedBefore (ends + 1) tokens = (unclosedBefore ends tokens).tail := by
  induction tokens generalizing ends with
  | nil => rfl
  | cons t tokens ih =>
    cases t with
    | startTag body =>
      cases ends with
      | zero => rfl
      | succ ends => exact ih ends
    | endTag name => exact ih (ends + 1)
    | _ => exact ih ends

theorem unclosed_startTag (tokens : List Token) (body : List Char) :
    unclosed (tokens ++ [.startTag body]) = body :: unclosed tokens := by
  rw [unclosed, List.reverse_concat]
  rfl

theorem unclosed_endTag (tokens : List Token) (name : List Char) :
    unclosed (tokens ++ [.endTag name]) = (unclosed tokens).tail := by
  rw [unclosed, List.reverse_concat]
  exact unclosedBefore_succ 0 tokens.reverse

theorem unclosed_of_stays {t : Token} (ht : t.opensOrCloses = false) (tokens : List Token) :
    unclosed (tokens ++ [t]) = unclosed tokens := by
  rw [unclosed, List.reverse_concat]
  cases t with
  | startTag | endTag => cases ht
  | _ => rfl

end Token

/-! ### Tags and elements in step -/

/-- The start tags that are open in a text, these tags as they have been looked into, and what the open elements have
    from them, correspond one by one. Every tag has been looked into in the scope of the tag around it. -/
inductive Mirrors : List (List Char) → List StartTag → List (Name × List Attribute) → Prop
  | nil : Mirrors [] [] []
  | cons {body : List Char} {bodies : List (List Char)} {tag : StartTag} {tags : List StartTag}
      {attributes : List Attribute} {heads : List (Name × List Attribute)}
      (htag : StartTag.ofBody (Events.scopeOf tags) body = .ok tag) (hattributes : tag.readAll = .ok attributes)
      (h : Mirrors bodies tags heads) : Mirrors (body :: bodies) (tag :: tags) ((tag.name, attributes) :: heads)

theorem Mirrors.length_eq {bodies : List (List Char)} {heads : List (Name × List Attribute)}
    (h : Mirrors bodies tags heads) : tags.length = bodies.length ∧ heads.length = bodies.length := by
  induction h with
  | nil => exact ⟨rfl, rfl⟩
  | cons _ _ _ ih => exact ⟨congrArg (· + 1) ih.1, congrArg (· + 1) ih.2⟩

theorem Mirrors.tail {bodies : List (List Char)} {tag : StartTag} {head : Name × List Attribute}
    {heads : List (Name × List Attribute)} (h : Mirrors bodies (tag :: tags) (head :: heads)) :
    Mirrors bodies.tail tags heads := by
  cases h with
  | cons _ _ h => exact h

/-- What is open after the tokens, as tags and as elements, is what the tokens leave open, and stays within the
    limit. -/
structure InStep (limit : Nat) (tokens : List Token) (tags : List StartTag) (p : Progress) : Prop where
  mirrors : Mirrors (Token.unclosed tokens) tags p.heads
  length_le : p.opened.length ≤ limit

theorem inStep_start (limit : Nat) : InStep limit [] [] .start := ⟨.nil, Nat.zero_le limit⟩

namespace InStep

variable {tokens : List Token}

theorem length_eq (h : InStep limit tokens tags p) :
    tags.length = p.opened.length ∧ p.opened.length = (Token.unclosed tokens).length := by
  obtain ⟨htags, hheads⟩ := h.mirrors.length_eq
  rw [Progress.length_heads] at hheads
  exact ⟨htags.trans hheads.symm, hheads⟩

/-- A token keeps what is open in step. -/
theorem afterToken (h : InStep limit tokens tags p) {t : Token}
    (htake : takeToken limit tags p t = .ok (tags', p')) : InStep limit (tokens ++ [t]) tags' p' := by
  obtain ⟨hmirrors, hlength⟩ := h
  cases turn_of_takeToken htake with
  | opens htag ho =>
    obtain ⟨hlt, attributes, hattributes, rfl⟩ := Progress.openElement_eq_ok_iff.mp ho
    refine ⟨?_, hlt⟩
    rw [Token.unclosed_startTag]
    exact .cons htag hattributes hmirrors
  | closes htags hopened hheads =>
    -- the innermost element goes with the last of the start tags, and that is the one which the end tag closes
    subst htags
    rw [Progress.heads, hopened, List.map_cons, ← hheads] at hmirrors
    rw [hopened, List.length_cons] at hlength
    have hlength' : p'.opened.length + 1 ≤ limit := by rwa [← Progress.length_heads, hheads, List.length_map]
    refine ⟨?_, Nat.le_of_succ_le hlength'⟩
    rw [Token.unclosed_endTag]
    exact hmirrors.tail
  | stays ht hheads =>
    refine ⟨?_, ?_⟩
    · rw [Token.unclosed_of_stays ht, hheads]
      exact hmirrors
    · rw [← Progress.length_heads, hheads, Progress.length_heads]
      exact hlength

end InStep

/-! ### Token after token -/

/-- The tags that are open after the tokens, and what has been read with them. -/
def takeTokens (limit : Nat) (tags : List StartTag) (p : Progress) (tokens : List Token) :
    Except Error (List StartTag × Progress) :=
  tokens.foldlM (fun s t => takeToken limit s.1 s.2 t) (tags, p)

theorem takeTokens_cons (t : Token) (tokens : List Token) : takeTokens limit tags p (t :: tokens) =
    (takeToken limit tags p t).bind fun s => takeTokens limit s.1 s.2 tokens := rfl

/-- Whatever tokens are taken in, what is open stays in step. -/
theorem InStep.afterTokens {before tokens : List Token} (h : InStep limit before tags p)
    (htake : takeTokens limit tags p tokens = .ok (tags', p')) : InStep limit (before ++ tokens) tags' p' := by
  induction tokens generalizing before tags p with
  | nil =>
    cases htake
    rwa [List.append_nil]
  | cons t tokens ih =>
    obtain ⟨⟨tags'', p''⟩, hstep, hrun⟩ := bind_eq_ok_iff.mp htake
    rw [List.append_cons]
    exact ih (h.afterToken hstep) hrun

/-- The tokens leave the tags open for those that come next: whatever these are, they are read inside of the tags. -/
def Events.LeavesOpen (tokens : List Token) (tags : List StartTag) : Prop :=
  ∀ rest fault, ofTokens [] (tokens ++ rest) fault =
    nextAll (ofTokens [] tokens none).events (ofTokens tags rest fault)

/-- Tokens that are read without a fault, and of which the events are taken in, are taken in one by one. -/
theorem exists_takeTokens {tokens : List Token} (hfault : (Events.ofTokens tags tokens none).fault = none)
    (hrun : p.run limit (Events.ofTokens tags tokens none).events = .ok p') :
    ∃ tags', takeTokens limit tags p tokens = .ok (tags', p') ∧ ∀ rest fault,
      Events.ofTokens tags (tokens ++ rest) fault =
        Events.nextAll (Events.ofTokens tags tokens none).events (Events.ofTokens tags' rest fault) := by
  induction tokens generalizing tags p with
  | nil =>
    cases hrun
    exact ⟨tags, rfl, fun _ _ => rfl⟩
  | cons t tokens ih =>
    rcases Events.ofTokens_cons tags t with ⟨_, hstop, -⟩ | ⟨events, tags'', hevents, htake⟩
    · rw [hstop] at hfault
      cases hfault
    · rw [hevents] at hfault hrun
      obtain ⟨p'', hfirst, hrest⟩ := bind_eq_ok_iff.mp ((Progress.run_append _ _).symm.trans hrun)
      obtain ⟨tags', htakes, hreads⟩ := ih hfault hrest
      refine ⟨tags', ?_, fun rest fault => ?_⟩
      · rw [takeTokens_cons, htake, hfirst]
        exact htakes
      · rw [List.cons_append, hevents, hevents, hreads, Events.nextAll_nextAll]
        rfl

/-- What reading comes to after the last token: the fault that is next in the text, or its root. -/
def Progress.endWith (p : Progress) (fault : Option Malformed) : Except Error Element :=
  match fault with
  | some fault => .error (.malformed fault)
  | none => p.finish

theorem elementFrom_ofTokens (tokens : List Token) (fault : Option Malformed) :
    (Events.ofTokens tags tokens fault).elementFrom limit p =
      (takeTokens limit tags p tokens).bind fun s => s.2.endWith fault := by
  induction tokens generalizing tags p with
  | nil => cases fault <;> rfl
  | cons t tokens ih =>
    rw [elementFrom_ofTokens_cons, takeTokens_cons]
    cases takeToken limit tags p t with
    | error e => rfl
    | ok s => exact ih

theorem Element.read_eq_takeTokens (limit : Nat) (xml : String) : Element.read limit xml =
    (takeTokens limit [] .start (Token.ofString xml).1).bind fun s => s.2.endWith (Token.ofString xml).2 :=
  elementFrom_ofTokens _ _

/-! ### Errors before the end -/

/-- The errors with which reading stops before the end of a text. An end tag that closes nothing is not among them:
    it is malformed. -/
inductive StopsMidway (limit : Nat) : Error → Prop
  | malformed (cause : Malformed) : StopsMidway limit (.malformed cause)
  | undefinedEntity (name : String) : StopsMidway limit (.undefinedEntity name)
  | textOutsideRoot : StopsMidway limit .textOutsideRoot
  | contentAfterRoot : StopsMidway limit .contentAfterRoot
  | tooDeep : StopsMidway limit (.tooDeep limit)

namespace Progress

theorem stopsMidway_of_openElement {tag : StartTag} (h : p.openElement limit tag = .error error) :
    StopsMidway limit error := by
  unfold openElement at h
  split at h
  · cases h
    exact .tooDeep
  · split at h <;> cases h
    exact .malformed _

theorem stopsMidway_of_addElement {e : Element} (h : p.addElement e = .error error) : StopsMidway limit error := by
  obtain ⟨_ | ⟨o, opened⟩, _ | root⟩ := p <;> cases h
  exact .contentAfterRoot

theorem stopsMidway_of_addText {s : String} (h : p.addText s = .error error) : StopsMidway limit error := by
  obtain ⟨_ | ⟨o, opened⟩, root⟩ := p
  · rw [addText_outside rfl] at h
    split at h <;> cases h
    exact .textOutsideRoot
  · cases h

theorem stopsMidway_of_step {event : Event} (h : p.step limit event = .error error)
    (hclose : event = .close → p.opened ≠ []) : StopsMidway limit error := by
  cases event with
  | start tag => exact stopsMidway_of_openElement (map_eq_error_iff.mp h)
  | empty tag =>
    rcases bind_eq_error_iff.mp h with ho | ⟨o, -, hadd⟩
    · exact stopsMidway_of_openElement ho
    · exact stopsMidway_of_addElement hadd
  | close =>
    obtain ⟨_ | ⟨o, opened⟩, root⟩ := p
    · exact absurd rfl (hclose rfl)
    · exact stopsMidway_of_addElement (p := ⟨opened, root⟩) h
  | text s => exact stopsMidway_of_addText h
  | reference name =>
    unfold step at h
    dsimp only at h
    split at h
    · exact stopsMidway_of_addText h
    · cases h
      exact .malformed _
    · cases h
      exact .undefinedEntity _
  | comment s | instruction s => cases h

end Progress

/-- The tags are checked before an element is closed, so there is always one to close. -/
theorem stopsMidway_of_takeToken {t : Token} (hlength : tags.length = p.opened.length)
    (h : takeToken limit tags p t = .error error) : StopsMidway limit error := by
  cases t with
  | startTag body | emptyTag body =>
    rw [takeToken] at h
    split at h
    · cases h
      exact .malformed _
    · exact Progress.stopsMidway_of_step (map_eq_error_iff.mp h) (by rintro ⟨⟩)
  | endTag name =>
    cases tags with
    | nil =>
      cases h
      exact .malformed _
    | cons tag tags =>
      rw [takeToken] at h
      split at h
      · refine Progress.stopsMidway_of_step (map_eq_error_iff.mp h) fun _ hnil => ?_
        rw [hnil] at hlength
        cases hlength
      · cases h
        exact .malformed _
  | text chars | characterData chars | reference name =>
    exact Progress.stopsMidway_of_step (map_eq_error_iff.mp h) (by rintro ⟨⟩)
  | comment chars | instruction chars | declaration => cases h

theorem InStep.stopsMidway {before tokens : List Token} (h : InStep limit before tags p)
    (htake : takeTokens limit tags p tokens = .error error) : StopsMidway limit error := by
  induction tokens generalizing before tags p with
  | nil => cases htake
  | cons t tokens ih =>
    rcases bind_eq_error_iff.mp htake with hstep | ⟨⟨tags', p'⟩, hstep, hrun⟩
    · exact stopsMidway_of_takeToken h.length_eq.1 hstep
    · exact ih (h.afterToken hstep) hrun

/-! ### Errors at the end -/

namespace Element

variable {xml : String}

/-- A text is refused before its end, or because it holds no element, or because tags are left open at its end. -/
theorem error_of_read (h : read limit xml = .error error) : StopsMidway limit error ∨ error = .emptyInput ∨
    (Token.ofString xml).2 = none ∧ error = .unclosedElements (Token.unclosed (Token.ofString xml).1).length ∧
      1 ≤ (Token.unclosed (Token.ofString xml).1).length ∧
      (Token.unclosed (Token.ofString xml).1).length ≤ limit := by
  rw [read_eq_takeTokens] at h
  rcases bind_eq_error_iff.mp h with htake | ⟨⟨tags, p⟩, htake, hend⟩
  · exact .inl ((inStep_start limit).stopsMidway htake)
  · have hstep : InStep limit (Token.ofString xml).1 tags p := (inStep_start limit).afterTokens htake
    rw [← hstep.length_eq.2]
    cases hfault : (Token.ofString xml).2 with
    | some fault =>
      rw [hfault] at hend
      cases hend
      exact .inl (.malformed fault)
    | none =>
      rw [hfault] at hend
      have hlimit := hstep.length_le
      obtain ⟨_ | ⟨o, opened⟩, _ | root⟩ := p <;> cases hend
      · exact .inr (.inl rfl)
      · exact .inr (.inr ⟨rfl, rfl, Nat.succ_pos _, hlimit⟩)
      · exact .inr (.inr ⟨rfl, rfl, Nat.succ_pos _, hlimit⟩)

/-- Reading mirrors the tags of a text. At every point up to which the text is read, the tags that are open for what
    comes next, and the elements that are open, are those of the start tags that have not been closed, within the limit.
    So no end tag is taken in that closes nothing, and elements are reported as left open only at the end of the text,
    as many as there are start tags left open. In what is read, at every depth, no two texts stand next to each other. -/
theorem read_mirrors_tags (limit : Nat) (xml : String) :
    (∀ before after p, (Token.ofString xml).1 = before ++ after → (Events.ofTokens [] before none).fault = none →
        Progress.start.run limit (Events.ofTokens [] before none).events = .ok p →
        ∃ tags, Events.LeavesOpen before tags ∧ InStep limit before tags p) ∧
      read limit xml ≠ .error .unexpectedClosingTag ∧
      (∀ n, read limit xml = .error (.unclosedElements n) → (Token.ofString xml).2 = none ∧
        n = (Token.unclosed (Token.ofString xml).1).length ∧ 1 ≤ n ∧ n ≤ limit) ∧
      ∀ e, read limit xml = .ok e → ∀ x : Element, x.Within e → ∀ s t, ¬[.text s, .text t] <:+: x.content := by
  refine ⟨fun before after p _ hfault hrun => ?_, fun h => ?_, fun n h => ?_, fun e h => textsApart_of_read h⟩
  · obtain ⟨tags, htake, hreads⟩ := exists_takeTokens hfault hrun
    exact ⟨tags, hreads, (inStep_start limit).afterTokens htake⟩
  · rcases error_of_read h with hmidway | hempty | ⟨-, hunclosed, -⟩
    · cases hmidway
    · cases hempty
    · cases hunclosed
  · rcases error_of_read h with hmidway | hempty | ⟨hfault, hunclosed, hpos, hlimit⟩
    · cases hmidway
    · cases hempty
    · cases hunclosed
      exact ⟨hfault, rfl, hpos, hlimit⟩

/-- A text that ends inside two elements, of which the outer one holds texts before and after an element that is closed;
    the same text with its end; and with an end tag more. -/
theorem read_mirrors_tags_of_left_open :
    let cut := "<a>x<b></b><![CDATA[y]]>&lt;<c>"
    let whole := cut ++ "</c></a>"
    let before : List Token := [.startTag ['a'], .text ['x'], .startTag ['b']]
    let element : Element := .mk ⟨none, "a"⟩ []
      [.text "x", .element (.mk ⟨none, "b"⟩ [] []), .text "y<", .element (.mk ⟨none, "c"⟩ [] [])]
    (∃ after p, (Token.ofString cut).1 = before ++ after ∧ (Events.ofTokens [] before none).fault = none ∧
        Progress.start.run 2 (Events.ofTokens [] before none).events = .ok p ∧
        Token.unclosed before = [['b'], ['a']] ∧
        ∃ tags, Events.LeavesOpen before tags ∧ InStep 2 before tags p) ∧
      read 2 cut = .error (.unclosedElements 2) ∧ (Token.ofString cut).2 = none ∧
      2 = (Token.unclosed (Token.ofString cut).1).length ∧
      read 2 whole = .ok element ∧ (∀ s t, ¬[.text s, .text t] <:+: element.content) ∧
      read 2 (whole ++ "</a>") = .error (.malformed (.unmatchedEndTag "a")) ∧
      read 2 (whole ++ "</a>") ≠ .error .unexpectedClosingTag := by
  intro cut whole before element
  let opened : List OpenElement := [⟨⟨none, "b"⟩, [], []⟩, ⟨⟨none, "a"⟩, [], [.text "x"]⟩]
  have hcut : read 2 cut = .error (.unclosedElements 2) := by cbv
  have hwhole : read 2 whole = .ok element := by cbv
  have hmore : read 2 (whole ++ "</a>") = .error (.malformed (.unmatchedEndTag "a")) := by cbv
  have htokens : (Token.ofString cut).1 = before ++ (Token.ofString cut).1.drop 3 := by cbv
  have hfault : (Events.ofTokens [] before none).fault = none := by cbv
  have hrun : Progress.start.run 2 (Events.ofTokens [] before none).events = .ok ⟨opened, none⟩ := by cbv
  obtain ⟨hpoint, -, hleft, -⟩ := read_mirrors_tags 2 cut
  obtain ⟨hend, hlength, -⟩ := hleft 2 hcut
  refine ⟨⟨_, _, htokens, hfault, hrun, rfl, hpoint _ _ _ htokens hfault hrun⟩, hcut, hend, hlength, hwhole, ?_, hmore, ?_⟩
  · exact (read_mirrors_tags 2 whole).2.2.2 element hwhole element .self
  · exact (read_mirrors_tags 2 (whole ++ "</a>")).2.1

end Element

end Xml
end OfficeMath
