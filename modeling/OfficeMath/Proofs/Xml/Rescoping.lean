import Mathlib
import OfficeMath.Proofs.Xml.Rewriting
import OfficeMath.Proofs.Xml.TokenStep

/-! Reading in another scope. Where the namespaces that the prefixes stand for in one scope are a function of those in
    another, the names that are read are the same function of each other, through all elements that follow: a tag may
    only declare anything if the function leaves every namespace as it is. -/

namespace OfficeMath
namespace Xml

variable {g : String → Option String} {limit : Nat}

/-! ### Outcomes -/

/-- Both fail with one error, or neither fails and the results are related. -/
inductive SameOutcome {ε α β : Type} (R : α → β → Prop) : Except ε α → Except ε β → Prop
  | error (e : ε) : SameOutcome R (.error e) (.error e)
  | ok {a : α} {b : β} (h : R a b) : SameOutcome R (.ok a) (.ok b)

namespace SameOutcome

variable {ε α β γ δ : Type} {R : α → β → Prop} {R' : γ → δ → Prop} {x : Except ε α} {y : Except ε β}

theorem bind (h : SameOutcome R x y) {f : α → Except ε γ} {f' : β → Except ε δ}
    (hf : ∀ a b, R a b → SameOutcome R' (f a) (f' b)) : SameOutcome R' (x.bind f) (y.bind f') := by
  cases h with
  | error e => exact .error e
  | ok h => exact hf _ _ h

theorem map (h : SameOutcome R x y) {f : α → γ} {f' : β → δ} (hf : ∀ a b, R a b → R' (f a) (f' b)) :
    SameOutcome R' (x.map f) (y.map f') := by
  cases h with
  | error e => exact .error e
  | ok h => exact .ok (hf _ _ h)

theorem eq_map_iff {f : α → β} : SameOutcome (fun a b => b = f a) x y ↔ y = x.map f := by
  constructor
  · rintro (e | rfl) <;> rfl
  · rintro rfl
    cases x with
    | error e => exact .error e
    | ok a => exact .ok rfl

end SameOutcome

/-! ### Names -/

/-- The name in what becomes of its namespace. -/
def Name.mapUri (g : String → Option String) (n : Name) : Name := { n with uri := n.uri.bind g }

/-- The attribute in what becomes of its namespace. -/
def Attribute.mapUri (g : String → Option String) (a : Attribute) : Attribute := { a with name := a.name.mapUri g }

/-- The element with the namespaces of all names in it replaced by what becomes of them. -/
def Element.mapUri (g : String → Option String) (e : Element) : Element :=
  e.rewrite (Name.mapUri g) (List.map (Attribute.mapUri g))

theorem Name.mapUri_some : Name.mapUri some = id := by
  funext n
  exact congrArg (Name.mk · n.localName) (Option.bind_fun_some n.uri)

theorem Attribute.mapUri_some : Attribute.mapUri some = id := by
  funext a
  rw [mapUri, Name.mapUri_some]
  rfl

theorem Element.mapUri_some : Element.mapUri some = id := by
  funext e
  rw [mapUri, Name.mapUri_some, Attribute.mapUri_some, List.map_id_fun]
  exact e.rewrite_id

/-! ### Scopes -/

/-- What becomes of the namespace of a prefix in the one scope is its namespace in the other. -/
def Scope.Maps (g : String → Option String) (scope scope' : Scope) : Prop :=
  ∀ written, scope'.namespace? written = (scope.namespace? written).bind g

theorem Scope.namespace?_cons (declared : Option String) (uri : String) (scope : Scope) (written : Option String) :
    Scope.namespace? ((declared, uri) :: scope) written =
      if written = declared then
        if uri = "" then (if written = some mathPrefix then some mathNamespace else none) else some uri
      else scope.namespace? written := by
  unfold namespace?
  rw [List.lookup_cons]
  by_cases hwritten : written = declared
  · rw [if_pos hwritten, beq_iff_eq.mpr hwritten]
    by_cases huri : uri = ""
    · simp [huri, Option.filter]
    · simp [huri, Option.filter]
  · rw [if_neg hwritten, beq_eq_false_iff_ne.mpr hwritten]

namespace Scope.Maps

variable {scope scope' : Scope}

theorem refl (scope : Scope) : scope.Maps some scope := fun written => (Option.bind_fun_some (scope.namespace? written)).symm

theorem elementName (h : scope.Maps g scope') (qualified : List Char) :
    scope'.elementName qualified = (scope.elementName qualified).mapUri g := by
  unfold Scope.elementName
  dsimp only
  rw [h]
  rfl

theorem attributeName (h : scope.Maps g scope') (qualified : List Char) :
    scope'.attributeName qualified = (scope.attributeName qualified).mapUri g := by
  unfold Scope.attributeName
  dsimp only
  cases (splitQualified qualified).1 with
  | none => rfl
  | some p =>
    rw [Option.bind_some, h]
    rfl

theorem cons (h : scope.Maps some scope') (b : Option String × String) : Scope.Maps some (b :: scope) (b :: scope') := by
  intro written
  rw [Option.bind_fun_some, namespace?_cons, namespace?_cons, h, Option.bind_fun_some]

theorem declare (h : scope.Maps g scope') {a : RawAttribute} (ha : g = some ∨ declaredPrefix? a.key = none) :
    SameOutcome (Scope.Maps g) (scope.declare a) (scope'.declare a) := by
  unfold Scope.declare
  rcases ha with rfl | ha
  · split
    · exact .ok h
    · exact .ok (h.cons _)
    · split
      · exact .ok (h.cons _)
      · exact .error _
  · rw [ha]
    exact .ok h

theorem declareAll (h : scope.Maps g scope') {as : List RawAttribute}
    (has : ∀ a ∈ as, g = some ∨ declaredPrefix? a.key = none) :
    SameOutcome (Scope.Maps g) (scope.declareAll as) (scope'.declareAll as) := by
  induction as generalizing scope scope' with
  | nil => exact .ok h
  | cons a as ih =>
    obtain ⟨ha, has⟩ := List.forall_mem_cons.mp has
    exact (h.declare ha).bind fun _ _ h => ih h has

theorem readAttributes (h : scope.Maps g scope') (seen : List (List Char)) (as : List RawAttribute) :
    readAttributes scope' seen as = (readAttributes scope seen as).map (List.map (Attribute.mapUri g)) := by
  induction as generalizing seen with
  | nil => rfl
  | cons a as ih =>
    rw [Xml.readAttributes, Xml.readAttributes, h.attributeName, ih]
    split
    · rfl
    · split
      · rfl
      · cases expandValue a.value with
        | error e => rfl
        | ok value => cases Xml.readAttributes scope (a.key :: seen) as <;> rfl

end Scope.Maps

/-! ### Tags -/

/-- The name in the tag that the token is, if it is one that starts an element. -/
def Token.tagName? : Token → Option (List Char)
  | startTag body | emptyTag body => some (body.takeWhile fun c => !isSpace c)
  | _ => none

/-- The attributes in the tag that the token is, if it is one that starts an element. -/
def Token.attributes : Token → List RawAttribute
  | startTag body | emptyTag body => (RawAttribute.scan (body.dropWhile fun c => !isSpace c)).1
  | _ => []

/-- The tags are written with one name, and what becomes of the namespaces in the one are those in the other. -/
structure StartTag.Maps (g : String → Option String) (tag tag' : StartTag) : Prop where
  qualified_eq : tag'.qualified = tag.qualified
  scope : tag.scope.Maps g tag'.scope
  readAll_eq : tag'.readAll = tag.readAll.map (List.map (Attribute.mapUri g))

theorem StartTag.Maps.name_eq {tag tag' : StartTag} (h : tag.Maps g tag') : tag'.name = tag.name.mapUri g := by
  rw [StartTag.name, h.qualified_eq, h.scope.elementName]
  rfl

theorem Scope.Maps.readAll {scope scope' : Scope} (h : scope.Maps g scope') (qualified : List Char)
    (as : List RawAttribute) (fault : Option Malformed) :
    StartTag.readAll ⟨qualified, scope', as, fault⟩ =
      (StartTag.readAll ⟨qualified, scope, as, fault⟩).map (List.map (Attribute.mapUri g)) := by
  unfold StartTag.readAll
  rw [h.readAttributes]
  cases Xml.readAttributes scope [] as with
  | error e => rfl
  | ok as => cases fault <;> rfl

theorem StartTag.maps_ofBody {scope scope' : Scope} (h : scope.Maps g scope') {body : List Char}
    (hbody : ∀ a ∈ (Token.startTag body).attributes, g = some ∨ declaredPrefix? a.key = none) :
    SameOutcome (StartTag.Maps g) (ofBody scope body) (ofBody scope' body) :=
  (h.declareAll hbody).map fun _ _ h => ⟨rfl, h, h.readAll _ _ _⟩

/-! ### What has been read -/

/-- The open element with the namespaces of all names in it replaced. -/
def OpenElement.mapUri (g : String → Option String) (o : OpenElement) : OpenElement :=
  ⟨o.name.mapUri g, o.attributes.map (Attribute.mapUri g),
    o.held.map (Content.rewrite (Name.mapUri g) (List.map (Attribute.mapUri g)))⟩

/-- What has been read, with the namespaces of all names in it replaced. -/
def Progress.mapUri (g : String → Option String) (p : Progress) : Progress :=
  ⟨p.opened.map (OpenElement.mapUri g), p.root.map (Element.mapUri g)⟩

namespace OpenElement

theorem close_mapUri (o : OpenElement) : (o.mapUri g).close = o.close.mapUri g := by
  rw [close, close, Element.mapUri, Element.rewrite, Content.rewriteAll_eq_map, List.map_reverse]
  rfl

theorem addText_mapUri (o : OpenElement) (s : String) : (o.mapUri g).addText s = (o.addText s).mapUri g := by
  obtain ⟨name, attributes, held⟩ := o
  cases held with
  | nil => rfl
  | cons c held => cases c <;> rfl

end OpenElement

namespace Progress

variable {p : Progress} {tag tag' : StartTag}

theorem start_mapUri : start.mapUri g = start := rfl

theorem addElement_mapUri (p : Progress) (e : Element) :
    (p.mapUri g).addElement (e.mapUri g) = (p.addElement e).map (mapUri g) := by
  obtain ⟨_ | ⟨o, opened⟩, _ | root⟩ := p <;> rfl

theorem addText_mapUri (p : Progress) (s : String) : (p.mapUri g).addText s = (p.addText s).map (mapUri g) := by
  obtain ⟨_ | ⟨o, opened⟩, root⟩ := p
  · show (if Text.isBlankText s then _ else _) = Except.map (mapUri g) (if Text.isBlankText s then _ else _)
    split <;> rfl
  · show Except.ok (Progress.mk ((o.mapUri g).addText s :: _) _) = .ok (mapUri g ⟨o.addText s :: opened, root⟩)
    rw [OpenElement.addText_mapUri]
    rfl

theorem addAside_mapUri (p : Progress) (c : Content) :
    (p.mapUri g).addAside (c.rewrite (Name.mapUri g) (List.map (Attribute.mapUri g))) = (p.addAside c).mapUri g := by
  obtain ⟨_ | ⟨o, opened⟩, root⟩ := p <;> rfl

theorem openElement_mapUri (h : tag.Maps g tag') (limit : Nat) (p : Progress) :
    (p.mapUri g).openElement limit tag' = (p.openElement limit tag).map (OpenElement.mapUri g) := by
  have hlength : (p.mapUri g).opened.length = p.opened.length := List.length_map _
  rw [openElement, openElement, hlength, h.readAll_eq, h.name_eq]
  split
  · rfl
  · cases tag.readAll <;> rfl

theorem step_start_mapUri (h : tag.Maps g tag') (limit : Nat) (p : Progress) :
    (p.mapUri g).step limit (.start tag') = (p.step limit (.start tag)).map (mapUri g) := by
  rw [step, step, openElement_mapUri h]
  cases p.openElement limit tag <;> rfl

theorem step_empty_mapUri (h : tag.Maps g tag') (limit : Nat) (p : Progress) :
    (p.mapUri g).step limit (.empty tag') = (p.step limit (.empty tag)).map (mapUri g) := by
  rw [step, step, openElement_mapUri h]
  cases p.openElement limit tag with
  | error e => rfl
  | ok o =>
    show (p.mapUri g).addElement (o.mapUri g).close = (p.addElement o.close).map (mapUri g)
    rw [OpenElement.close_mapUri, addElement_mapUri]

theorem step_close_mapUri (limit : Nat) (p : Progress) :
    (p.mapUri g).step limit .close = (p.step limit .close).map (mapUri g) := by
  obtain ⟨_ | ⟨o, opened⟩, root⟩ := p
  · rfl
  · show (mapUri g ⟨opened, root⟩).addElement (o.mapUri g).close = (addElement ⟨opened, root⟩ o.close).map (mapUri g)
    rw [OpenElement.close_mapUri, addElement_mapUri]

theorem step_reference_mapUri (limit : Nat) (p : Progress) (name : List Char) :
    (p.mapUri g).step limit (.reference name) = (p.step limit (.reference name)).map (mapUri g) := by
  unfold step
  dsimp only
  split
  · exact addText_mapUri p _
  · rfl
  · rfl

theorem step_comment_mapUri (limit : Nat) (p : Progress) (s : String) :
    (p.mapUri g).step limit (.comment s) = (p.step limit (.comment s)).map (mapUri g) :=
  congrArg Except.ok (addAside_mapUri p (.comment s))

theorem step_instruction_mapUri (limit : Nat) (p : Progress) (s : String) :
    (p.mapUri g).step limit (.instruction s) = (p.step limit (.instruction s)).map (mapUri g) :=
  congrArg Except.ok (addAside_mapUri p (.instruction s))

theorem finish_mapUri (p : Progress) : (p.mapUri g).finish = p.finish.map (Element.mapUri g) := by
  obtain ⟨_ | ⟨o, opened⟩, root⟩ := p
  · cases root <;> rfl
  · have hlength : (mapUri g ⟨o :: opened, root⟩).opened.length = (o :: opened).length := List.length_map _
    show Except.error (Error.unclosedElements (mapUri g ⟨o :: opened, root⟩).opened.length) = _
    rw [hlength]
    rfl

end Progress

/-! ### Tokens -/

variable {tags tags' : List StartTag} {p p' : Progress}

/-- The tags that are open and what has been read, in the one scope and in the other. -/
def MapsReading (g : String → Option String) (s s' : List StartTag × Progress) : Prop :=
  List.Forall₂ (StartTag.Maps g) s.1 s'.1 ∧ s'.2 = s.2.mapUri g

theorem SameOutcome.of_eq_map (htags : List.Forall₂ (StartTag.Maps g) tags tags') {x y : Except Error Progress}
    (h : y = x.map (Progress.mapUri g)) :
    SameOutcome (MapsReading g) (x.map fun p => (tags, p)) (y.map fun p => (tags', p)) :=
  (SameOutcome.eq_map_iff.mpr h).map fun _ _ hp => ⟨htags, hp⟩

section
variable (htags : List.Forall₂ (StartTag.Maps g) tags tags')

include htags

theorem scopeOf_maps (hinitial : Scope.initial.Maps g Scope.initial) :
    (Events.scopeOf tags).Maps g (Events.scopeOf tags') := by
  cases htags with
  | nil => exact hinitial
  | cons h _ => exact h.scope

theorem takeToken_startTag_mapUri {body body' : List Char}
    (h : SameOutcome (StartTag.Maps g) (StartTag.ofBody (Events.scopeOf tags) body)
      (StartTag.ofBody (Events.scopeOf tags') body')) :
    SameOutcome (MapsReading g) (takeToken limit tags p (.startTag body))
      (takeToken limit tags' (p.mapUri g) (.startTag body')) := by
  rw [takeToken, takeToken]
  generalize StartTag.ofBody (Events.scopeOf tags) body = x at h ⊢
  generalize StartTag.ofBody (Events.scopeOf tags') body' = y at h ⊢
  rcases h with e | h
  · exact .error _
  · exact .of_eq_map (.cons h htags) (Progress.step_start_mapUri h limit p)

theorem takeToken_emptyTag_mapUri {body body' : List Char}
    (h : SameOutcome (StartTag.Maps g) (StartTag.ofBody (Events.scopeOf tags) body)
      (StartTag.ofBody (Events.scopeOf tags') body')) :
    SameOutcome (MapsReading g) (takeToken limit tags p (.emptyTag body))
      (takeToken limit tags' (p.mapUri g) (.emptyTag body')) := by
  rw [takeToken, takeToken]
  generalize StartTag.ofBody (Events.scopeOf tags) body = x at h ⊢
  generalize StartTag.ofBody (Events.scopeOf tags') body' = y at h ⊢
  rcases h with e | h
  · exact .error _
  · exact .of_eq_map htags (Progress.step_empty_mapUri h limit p)

/-- A token is taken in alike, and what has been read stays the same up to the namespaces. -/
theorem takeToken_mapUri (hinitial : Scope.initial.Maps g Scope.initial) {t : Token}
    (ht : ∀ a ∈ t.attributes, g = some ∨ declaredPrefix? a.key = none) :
    SameOutcome (MapsReading g) (takeToken limit tags p t) (takeToken limit tags' (p.mapUri g) t) := by
  have hscope := scopeOf_maps htags hinitial
  cases t with
  | startTag body => exact takeToken_startTag_mapUri htags (StartTag.maps_ofBody hscope ht)
  | emptyTag body => exact takeToken_emptyTag_mapUri htags (StartTag.maps_ofBody hscope ht)
  | endTag name =>
    rcases htags with _ | ⟨htag, htags⟩
    · exact .error _
    · rw [takeToken, takeToken, htag.qualified_eq]
      split
      · exact .of_eq_map htags (Progress.step_close_mapUri limit p)
      · exact .error _
  | text chars | characterData chars => exact .of_eq_map htags (Progress.addText_mapUri p _)
  | reference name => exact .of_eq_map htags (Progress.step_reference_mapUri limit p name)
  | comment chars => exact .of_eq_map htags (Progress.step_comment_mapUri limit p _)
  | instruction chars => exact .of_eq_map htags (Progress.step_instruction_mapUri limit p _)
  | declaration => exact .ok ⟨htags, rfl⟩

/-- What is read of the tokens of a text stays the same up to the namespaces. -/
theorem elementFrom_ofTokens_mapUri (hinitial : Scope.initial.Maps g Scope.initial) {tokens : List Token}
    (htokens : ∀ t ∈ tokens, ∀ a ∈ t.attributes, g = some ∨ declaredPrefix? a.key = none) (fault : Option Malformed) :
    (Events.ofTokens tags' tokens fault).elementFrom limit (p.mapUri g) =
      ((Events.ofTokens tags tokens fault).elementFrom limit p).map (Element.mapUri g) := by
  induction tokens generalizing tags tags' p with
  | nil =>
    cases fault with
    | none => exact Progress.finish_mapUri p
    | some fault => rfl
  | cons t tokens ih =>
    obtain ⟨ht, htokens⟩ := List.forall_mem_cons.mp htokens
    rw [elementFrom_ofTokens_cons, elementFrom_ofTokens_cons, ← SameOutcome.eq_map_iff]
    refine .bind (takeToken_mapUri htags hinitial ht) ?_
    rintro ⟨tags, p⟩ ⟨tags', p'⟩ ⟨htags, rfl⟩
    exact SameOutcome.eq_map_iff.mpr (ih htags htokens)

end

/-- Two texts that go on alike after their first token are read alike up to the namespaces, if the first tokens are. -/
theorem readOn_mapUri_of_read (hinitial : Scope.initial.Maps g Scope.initial) {c c' : Char} {cs cs' rest : List Char}
    {t t' : Token} (hread : Token.read c cs = .ok (t, rest)) (hread' : Token.read c' cs' = .ok (t', rest))
    (ht : SameOutcome (MapsReading g) (takeToken limit tags p t) (takeToken limit tags' p' t'))
    (hrest : ∀ t ∈ (Token.scan rest).1, ∀ a ∈ t.attributes, g = some ∨ declaredPrefix? a.key = none) :
    readOn limit tags' p' (c' :: cs') = (readOn limit tags p (c :: cs)).map (Element.mapUri g) := by
  rw [readOn_of_read hread, readOn_of_read hread', ← SameOutcome.eq_map_iff]
  refine ht.bind ?_
  rintro ⟨tags, p⟩ ⟨tags', p'⟩ ⟨htags, rfl⟩
  exact SameOutcome.eq_map_iff.mpr (elementFrom_ofTokens_mapUri htags hinitial hrest _)

end Xml
end OfficeMath
