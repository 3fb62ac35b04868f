import OfficeMath.Proofs.Xml.Depth

/-! Reading with a lower and with a higher limit on the depth. The events are taken in alike until the lower limit
    refuses an element, and it refuses none if what comes of them in the end stays within it. A limit thus only
    filters: it changes neither what is read nor any other error. -/

namespace OfficeMath
namespace Xml

variable {limit limit' : Nat}

namespace Progress

open OpenElement

variable {p p' : Progress} {event : Event} {events : List Event}

/-! ### Up to the first element that is too deep -/

theorem openElement_of_lt {tag : StartTag} (h : p.opened.length < limit) (h' : p.opened.length < limit') :
    p.openElement limit tag = p.openElement limit' tag := by
  rw [openElement, openElement, if_neg (Nat.not_le.mpr h), if_neg (Nat.not_le.mpr h')]

theorem openElement_of_le (h : limit ≤ limit') (tag : StartTag) :
    p.openElement limit tag = p.openElement limit' tag ∨ p.openElement limit tag = .error (.tooDeep limit) := by
  by_cases hlimit : limit ≤ p.opened.length
  · exact .inr (if_pos hlimit)
  · have hlt : p.opened.length < limit := Nat.lt_of_not_le hlimit
    exact .inl (openElement_of_lt hlt (Nat.lt_of_lt_of_le hlt h))

theorem step_of_le (h : limit ≤ limit') (event : Event) :
    p.step limit event = p.step limit' event ∨ p.step limit event = .error (.tooDeep limit) := by
  cases event with
  | start tag =>
    rcases openElement_of_le (p := p) h tag with ho | ho
    · exact .inl (by rw [step, step, ho])
    · exact .inr (by rw [step, ho]; rfl)
  | empty tag =>
    rcases openElement_of_le (p := p) h tag with ho | ho
    · exact .inl (by rw [step, step, ho])
    · exact .inr (by rw [step, ho]; rfl)
  -- the other events do not look at the limit
  | _ => exact .inl rfl

/-- The lower limit lets the events through like the higher one, or refuses one of them. -/
theorem run_of_le (h : limit ≤ limit') (events : List Event) :
    p.run limit events = p.run limit' events ∨ p.run limit events = .error (.tooDeep limit) := by
  induction events generalizing p with
  | nil => exact .inl rfl
  | cons event events ih =>
    have hcons (limit : Nat) : p.run limit (event :: events) = (p.step limit event).bind (·.run limit events) := rfl
    rw [hcons, hcons]
    rcases step_of_le (p := p) h event with hstep | hstep
    · rw [hstep]
      cases p.step limit' event with
      | error e => exact .inl rfl
      | ok p' => exact ih
    · exact .inr (by rw [hstep]; rfl)

/-! ### Back from what stays within a limit -/

theorem FitsIn.of_addElement {e : Element} (h : p.addElement e = .ok p') (hp' : p'.FitsIn limit) :
    p.FitsIn limit ∧ p.opened.length + e.depth ≤ limit := by
  obtain ⟨_ | ⟨o, opened⟩, root⟩ := p
  · cases root with
    | some root => cases h
    | none =>
      cases h
      refine ⟨⟨.nil, fun e he => by cases he⟩, ?_⟩
      rw [List.length_nil, Nat.zero_add]
      exact hp'.root e rfl
  · cases h
    obtain ⟨_ | ⟨hroom, hopened⟩, hroot⟩ := hp'
    rw [OpenElement.add, Content.depthAll] at hroom
    refine ⟨⟨.cons ?_ hopened, hroot⟩, ?_⟩
    · omega
    · rw [List.length_cons]
      omega

theorem FitsIn.of_addText {s : String} (h : p.addText s = .ok p') (hp' : p'.FitsIn limit) : p.FitsIn limit := by
  rcases eq_of_addText h with ⟨-, rfl⟩ | ⟨o, opened, root, rfl, rfl⟩
  · exact hp'
  · obtain ⟨_ | ⟨hroom, hopened⟩, hroot⟩ := hp'
    exact ⟨.cons (by rwa [depthAll_addText] at hroom) hopened, hroot⟩

theorem FitsIn.of_addAside {c : Content} (hc : c.element? = none) (hp' : (p.addAside c).FitsIn limit) :
    p.FitsIn limit := by
  obtain ⟨_ | ⟨o, opened⟩, root⟩ := p
  · exact hp'
  · obtain ⟨_ | ⟨hroom, hopened⟩, hroot⟩ := hp'
    exact ⟨.cons (by rwa [OpenElement.add, Content.depthAll_cons_of_element? hc] at hroom) hopened, hroot⟩

/-- If what comes of an event stays within a limit, then so did all before it, and the limit lets the event
    through. -/
theorem FitsIn.of_step (h : p.step limit' event = .ok p') (hp' : p'.FitsIn limit) :
    p.FitsIn limit ∧ p.step limit event = .ok p' := by
  have hopen {tag : StartTag} {o : OpenElement} (ho : p.openElement limit' tag = .ok o)
      (hlt : p.opened.length < limit) : p.openElement limit tag = .ok o :=
    openElement_eq_ok_iff.mpr ⟨hlt, (openElement_eq_ok_iff.mp ho).2⟩
  cases event with
  | start tag =>
    obtain ⟨o, ho, rfl⟩ := map_eq_ok_iff.mp h
    obtain ⟨_ | ⟨hroom, hopened⟩, hroot⟩ := hp'
    exact ⟨⟨hopened, hroot⟩, map_eq_ok_iff.mpr ⟨o, hopen ho (by omega), rfl⟩⟩
  | empty tag =>
    obtain ⟨o, ho, hadd⟩ := bind_eq_ok_iff.mp h
    obtain ⟨hp, hdepth⟩ := FitsIn.of_addElement hadd hp'
    rw [depth_close] at hdepth
    exact ⟨hp, bind_eq_ok_iff.mpr ⟨o, hopen ho (by omega), hadd⟩⟩
  | close =>
    obtain ⟨_ | ⟨o, opened⟩, root⟩ := p
    · cases h
    · obtain ⟨hp, hdepth⟩ := FitsIn.of_addElement (p := ⟨opened, root⟩) h hp'
      rw [depth_close] at hdepth
      dsimp only at hdepth
      exact ⟨⟨.cons (by omega) hp.opened, hp.root⟩, h⟩
  | text s => exact ⟨FitsIn.of_addText h hp', h⟩
  | reference name =>
    obtain ⟨s, hadd⟩ := exists_addText_of_reference h
    exact ⟨FitsIn.of_addText hadd hp', h⟩
  | comment s =>
    cases h
    exact ⟨FitsIn.of_addAside rfl hp', rfl⟩
  | instruction s =>
    cases h
    exact ⟨FitsIn.of_addAside rfl hp', rfl⟩

/-- A limit lets all events through if what comes of them stays within it. -/
theorem FitsIn.of_run (h : p.run limit' events = .ok p') (hp' : p'.FitsIn limit) :
    p.FitsIn limit ∧ p.run limit events = .ok p' := by
  induction events generalizing p with
  | nil =>
    cases h
    exact ⟨hp', rfl⟩
  | cons event events ih =>
    obtain ⟨p'', hstep, hrun⟩ := bind_eq_ok_iff.mp h
    obtain ⟨hp'', hrun⟩ := ih hrun
    obtain ⟨hp, hstep⟩ := FitsIn.of_step hstep hp''
    exact ⟨hp, bind_eq_ok_iff.mpr ⟨p'', hstep, hrun⟩⟩

theorem fitsIn_root {e : Element} (he : e.depth ≤ limit) : FitsIn limit ⟨[], some e⟩ := by
  refine ⟨.nil, fun e' he' => ?_⟩
  cases he'
  exact he

end Progress

/-! ### What is read under two limits -/

namespace Element

variable {xml : String} {e : Element}

theorem read_eq_or_tooDeep (h : limit ≤ limit') (xml : String) :
    read limit xml = read limit' xml ∨ read limit xml = .error (.tooDeep limit) := by
  unfold read Events.element
  rcases Progress.run_of_le (p := .start) h (Events.ofString xml).events with hrun | hrun
  · exact .inl (by rw [hrun])
  · exact .inr (by rw [hrun])

theorem read_of_depth_le (h : read limit' xml = .ok e) (he : e.depth ≤ limit) : read limit xml = .ok e := by
  obtain ⟨hrun, hfault⟩ := read_eq_ok_iff.mp h
  obtain ⟨-, hrun⟩ := Progress.FitsIn.of_run hrun (Progress.fitsIn_root he)
  exact read_eq_ok_iff.mpr ⟨hrun, hfault⟩

/-- The limit on the depth is a filter. What can be read within a limit is read the same within a higher one; of what
    can be read within a higher limit, the lower one lets through just what nests no deeper, and refuses the rest as
    too deep; and any other error is there within the higher limit as well. -/
theorem read_filtered_by_limit (h : limit ≤ limit') (xml : String) :
    (∀ e, read limit xml = .ok e → e.depth ≤ limit ∧ read limit' xml = .ok e) ∧
    (∀ e, read limit' xml = .ok e →
      (e.depth ≤ limit → read limit xml = .ok e) ∧
        (limit < e.depth → read limit xml = .error (.tooDeep limit))) ∧
    (∀ error, read limit xml = .error error → (∀ n, error ≠ .tooDeep n) → read limit' xml = .error error) := by
  have hfilter := read_eq_or_tooDeep h xml
  refine ⟨fun e he => ⟨depth_le_of_read he, ?_⟩, fun e he => ⟨read_of_depth_le he, fun hdeep => ?_⟩,
    fun error herror hne => ?_⟩
  · rcases hfilter with heq | hrefused
    · rw [← heq, he]
    · rw [he] at hrefused
      cases hrefused
  · rcases hfilter with heq | hrefused
    · have hdepth := depth_le_of_read (heq.trans he)
      exact absurd hdepth (Nat.not_le.mpr hdeep)
    · exact hrefused
  · rcases hfilter with heq | hrefused
    · rw [← heq, herror]
    · rw [herror] at hrefused
      cases hrefused
      exact absurd rfl (hne limit)

/-- An element without content counts as a level, and a fault after it is found under any limit that lets it
    through. -/
theorem read_filtered_by_limit_of_nested :
    let nested := "<a><b/></a>"
    let faulty := "<a></a>&b;"
    let element : Element := .mk ⟨none, "a"⟩ [] [.element (.mk ⟨none, "b"⟩ [] [])]
    read 2 nested = .ok element ∧ read 3 nested = .ok element ∧ read 1 nested = .error (.tooDeep 1) ∧
      read 1 faulty = .error (.undefinedEntity "b") ∧ read 2 faulty = .error (.undefinedEntity "b") := by
  intro nested faulty element
  have hnested : read 2 nested = .ok element := by cbv
  have hfaulty : read 1 faulty = .error (.undefinedEntity "b") := by cbv
  have hhigher := (read_filtered_by_limit (show 2 ≤ 3 by decide) nested).1 element hnested
  have hlower := (read_filtered_by_limit (show 1 ≤ 2 by decide) nested).2.1 element hnested
  have herror := (read_filtered_by_limit (show 1 ≤ 2 by decide) faulty).2.2 _ hfaulty (fun n hn => by cases hn)
  exact ⟨hnested, hhigher.2, hlower.2 (by decide), hfaulty, herror⟩

end Element

end Xml
end OfficeMath
