import OfficeMath.Proofs.Xml.Prolog

/-! Texts that have lost the declarations of their root. Where the root bound the prefix `m` to the namespace of office
    math and other prefixes to other namespaces, and nothing else declares anything, the text can still be read: names
    keep the namespace of office math and the reserved ones, and no other. -/

namespace OfficeMath
namespace Xml

variable {limit : Nat}

/-- The namespace, if it stands for itself where nothing is declared: that of office math, or a reserved one. -/
def keptNamespace (uri : String) : Option String :=
  if uri = mathNamespace ∨ uri = xmlNamespace ∨ uri = xmlnsNamespace then some uri else none

/-- The attribute declares no default namespace, and it binds the prefix `m` if and only if it binds its prefix to the
    namespace of office math. -/
def RawAttribute.BindsOnlyMath (a : RawAttribute) : Prop :=
  ∀ declared, declaredPrefix? a.key = some declared →
    ∃ written, declared = some written ∧ (written = mathPrefix ↔ String.ofList a.value = mathNamespace)

/-- The body of a tag without the declarations among its attributes. -/
structure LosesDeclarations (body body' : List Char) : Prop where
  name_eq : body'.takeWhile (fun c => !isSpace c) = body.takeWhile fun c => !isSpace c
  scan_eq : RawAttribute.scan (body'.dropWhile fun c => !isSpace c) =
    ((RawAttribute.scan (body.dropWhile fun c => !isSpace c)).1.filter fun a => (declaredPrefix? a.key).isNone,
      (RawAttribute.scan (body.dropWhile fun c => !isSpace c)).2)

/-- The tag without the declarations among its attributes. -/
inductive Token.LosesDeclarations : Token → Token → Prop
  | startTag {body body' : List Char} (h : Xml.LosesDeclarations body body') :
    LosesDeclarations (.startTag body) (.startTag body')
  | emptyTag {body body' : List Char} (h : Xml.LosesDeclarations body body') :
    LosesDeclarations (.emptyTag body) (.emptyTag body')

/-- The second text is the first one without its declarations, which all stand in the tag of the root. They bind the
    prefix `m` to the namespace of office math, and other prefixes to other namespaces. -/
structure Excerpt (x x' : String) where
  whole : RootSplit x
  cut : RootSplit x'
  before_eq : cut.before = whole.before
  after_eq : cut.after = whole.after
  tag : whole.tag.LosesDeclarations cut.tag
  bindsOnlyMath : ∀ a ∈ whole.tag.attributes, a.BindsOnlyMath
  declaresNothing : ∀ t ∈ (Token.scan whole.after).1, ∀ a ∈ t.attributes, declaredPrefix? a.key = none

/-! ### Scopes -/

theorem keptNamespace_mathNamespace : keptNamespace mathNamespace = some mathNamespace := if_pos (Or.inl rfl)

theorem keptNamespace_xmlNamespace : keptNamespace xmlNamespace = some xmlNamespace := if_pos (Or.inr (Or.inl rfl))

theorem keptNamespace_xmlnsNamespace : keptNamespace xmlnsNamespace = some xmlnsNamespace :=
  if_pos (Or.inr (Or.inr rfl))

theorem keptNamespace_eq_none {uri : String} (h : uri ≠ mathNamespace) (hxml : uri ≠ xmlNamespace)
    (hxmlns : uri ≠ xmlnsNamespace) : keptNamespace uri = none :=
  if_neg (by simp [h, hxml, hxmlns])

namespace Scope

/-- Where nothing is declared, a prefix is reserved, or it is `m`, or it stands for no namespace. -/
theorem namespace?_initial_eq (written : Option String) :
    Scope.initial.namespace? written =
      if written = some "xml" then some xmlNamespace
      else if written = some "xmlns" then some xmlnsNamespace
      else if written = some mathPrefix then some mathNamespace else none := by
  have hxml : xmlNamespace ≠ "" := by decide
  have hxmlns : xmlnsNamespace ≠ "" := by decide
  rw [initial, namespace?_cons, namespace?_cons, if_neg hxml, if_neg hxmlns]
  rfl

theorem maps_initial : Scope.initial.Maps keptNamespace .initial := by
  intro written
  rw [namespace?_initial_eq]
  split_ifs
  · exact keptNamespace_xmlNamespace.symm
  · exact keptNamespace_xmlnsNamespace.symm
  · exact keptNamespace_mathNamespace.symm
  · rfl

/-- What is left of the namespace that a declaration binds is what the prefix stands for without it. -/
theorem namespace?_initial_of_permits {declared uri : String} (hpermits : permits declared uri = true)
    (hmath : declared = mathPrefix ↔ uri = mathNamespace) :
    Scope.initial.namespace? (if declared = "" then none else some declared) = keptNamespace uri := by
  unfold permits at hpermits
  split at hpermits
  · next hxml =>
    rw [hxml, eq_of_beq hpermits, keptNamespace_xmlNamespace]
    decide
  · next hxml =>
    split at hpermits
    · cases hpermits
    · next hxmlns =>
      obtain ⟨huri, huri'⟩ : uri ≠ xmlNamespace ∧ uri ≠ xmlnsNamespace := by simpa using hpermits
      by_cases hm : declared = mathPrefix
      · rw [hm, hmath.mp hm, keptNamespace_mathNamespace]
        decide
      · rw [keptNamespace_eq_none (fun h => hm (hmath.mpr h)) huri huri', namespace?_initial_eq]
        split <;> simp_all

theorem Maps.cons_kept {scope : Scope} (h : scope.Maps keptNamespace .initial) {written : Option String} {uri : String}
    (hkept : Scope.initial.namespace? written = keptNamespace uri) (hempty : uri = "" → written ≠ some mathPrefix) :
    Scope.Maps keptNamespace ((written, uri) :: scope) .initial := by
  intro written'
  rw [namespace?_cons]
  by_cases hwritten : written' = written
  · rw [if_pos hwritten, hwritten, hkept]
    by_cases huri : uri = ""
    · rw [if_pos huri, if_neg (hempty huri), huri]
      rfl
    · rw [if_neg huri, Option.bind_some]
  · rw [if_neg hwritten, h]

theorem Maps.declare_kept {scope scope' : Scope} (h : scope.Maps keptNamespace .initial) {a : RawAttribute}
    (ha : a.BindsOnlyMath) (hdeclare : scope.declare a = .ok scope') : scope'.Maps keptNamespace .initial := by
  unfold Scope.declare at hdeclare
  split at hdeclare
  · cases hdeclare
    exact h
  · next hdeclared =>
    obtain ⟨written, hwritten, -⟩ := ha _ hdeclared
    cases hwritten
  · next declared hdeclared =>
    split at hdeclare
    · next hpermits =>
      cases hdeclare
      obtain ⟨written, hwritten, hmath⟩ := ha _ hdeclared
      cases hwritten
      refine h.cons_kept (namespace?_initial_of_permits hpermits hmath) fun huri hm => ?_
      have hdeclared : declared = mathPrefix := by
        split at hm
        · cases hm
        · exact Option.some.inj hm
      rw [huri] at hmath
      exact absurd (hmath.mp hdeclared) (by decide)
    · cases hdeclare

theorem Maps.declareAll_kept {scope scope' : Scope} (h : scope.Maps keptNamespace .initial) {as : List RawAttribute}
    (has : ∀ a ∈ as, a.BindsOnlyMath) (hdeclare : scope.declareAll as = .ok scope') :
    scope'.Maps keptNamespace .initial := by
  induction as generalizing scope with
  | nil =>
    cases hdeclare
    exact h
  | cons a as ih =>
    obtain ⟨ha, has⟩ := List.forall_mem_cons.mp has
    obtain ⟨scope'', ha', has'⟩ := bind_eq_ok_iff.mp hdeclare
    exact ih (h.declare_kept ha ha') has has'

end Scope

/-! ### The tag of the root -/

theorem declareAll_of_forall {scope : Scope} {as : List RawAttribute} (h : ∀ a ∈ as, declaredPrefix? a.key = none) :
    scope.declareAll as = .ok scope := by
  induction as with
  | nil => rfl
  | cons a as ih =>
    obtain ⟨ha, has⟩ := List.forall_mem_cons.mp h
    have hdeclare : scope.declare a = .ok scope := by rw [Scope.declare, ha]
    rw [Scope.declareAll, List.foldlM_cons, hdeclare]
    exact ih has

/-- Attributes that can be read can be read without the declarations among them. -/
theorem readAttributes_filter {scope : Scope} {as : List RawAttribute} {as' : List Attribute}
    {seen seen' : List (List Char)} (hseen : seen' ⊆ seen) (h : readAttributes scope seen as = .ok as') :
    readAttributes scope seen' (as.filter fun a => (declaredPrefix? a.key).isNone) = .ok as' := by
  induction as generalizing seen seen' as' with
  | nil => exact h
  | cons a as ih =>
    rw [readAttributes] at h
    split at h
    · cases h
    · next hfresh =>
      split at h
      · next hdeclared =>
        rw [List.filter_cons_of_neg (by simpa [Option.isSome_iff_ne_none] using hdeclared)]
        exact ih (List.Subset.trans hseen (List.subset_cons_self ..)) h
      · next hdeclared =>
        have hfresh' : seen'.contains a.key = false := by
          simp only [List.contains_eq_mem, decide_eq_true_eq, decide_eq_false_iff_not] at hfresh ⊢
          exact fun hmem => hfresh (hseen hmem)
        rw [List.filter_cons_of_pos (by simpa using hdeclared), readAttributes, hfresh']
        cases hvalue : expandValue a.value with
        | error e =>
          rw [hvalue] at h
          cases h
        | ok value =>
          rw [hvalue] at h
          obtain ⟨as'', has, rfl⟩ := map_eq_ok_iff.mp h
          have hread := ih (List.cons_subset_cons a.key hseen) has
          simp only [hdeclared, hread]
          rfl

theorem StartTag.eq_of_readAll {tag : StartTag} {as : List Attribute} (h : tag.readAll = .ok as) :
    readAttributes tag.scope [] tag.attributes = .ok as ∧ tag.fault = none := by
  unfold readAll at h
  split at h <;> cases h
  exact ⟨‹_›, ‹_›⟩

/-- A tag of a root that can be read can be read without its declarations, and what is left of its namespaces is what
    the prefixes stand for then. -/
theorem StartTag.maps_ofBody_of_losesDeclarations {body body' : List Char} (h : LosesDeclarations body body')
    (hbinds : ∀ a ∈ (Token.startTag body).attributes, a.BindsOnlyMath) {tag : StartTag} {as : List Attribute}
    (htag : ofBody .initial body = .ok tag) (hread : tag.readAll = .ok as) :
    SameOutcome (StartTag.Maps keptNamespace) (ofBody .initial body) (ofBody .initial body') := by
  have hdeclares : ∀ a ∈ (RawAttribute.scan (body'.dropWhile fun c => !isSpace c)).1, declaredPrefix? a.key = none := by
    rw [h.scan_eq]
    exact fun a ha => by simpa using (List.mem_filter.mp ha).2
  have hbody' : ofBody .initial body' = .ok ⟨body'.takeWhile fun c => !isSpace c, .initial,
      (RawAttribute.scan (body'.dropWhile fun c => !isSpace c)).1,
      (RawAttribute.scan (body'.dropWhile fun c => !isSpace c)).2⟩ :=
    map_eq_ok_iff.mpr ⟨_, declareAll_of_forall hdeclares, rfl⟩
  rw [htag, hbody']
  obtain ⟨scope, hscope, rfl⟩ := map_eq_ok_iff.mp htag
  have hmaps : scope.Maps keptNamespace .initial := Scope.maps_initial.declareAll_kept hbinds hscope
  obtain ⟨hattributes, hfault⟩ := eq_of_readAll hread
  have hread' : readAttributes scope [] (RawAttribute.scan (body'.dropWhile fun c => !isSpace c)).1 = .ok as := by
    rw [h.scan_eq]
    exact readAttributes_filter (List.Subset.refl _) hattributes
  have hfault' : (RawAttribute.scan (body'.dropWhile fun c => !isSpace c)).2 = none := by
    rw [h.scan_eq]
    exact hfault
  refine .ok ⟨h.name_eq, hmaps, ?_⟩
  rw [hread, readAll, hmaps.readAttributes, hread', hfault']
  rfl

/-! ### The text -/

variable {p : Progress}

theorem exists_tag_of_takeToken {body : List Char} {s : List StartTag × Progress}
    (h : takeToken limit [] p (.startTag body) = .ok s ∨ takeToken limit [] p (.emptyTag body) = .ok s) :
    ∃ tag as, StartTag.ofBody .initial body = .ok tag ∧ tag.readAll = .ok as := by
  rw [takeToken, takeToken] at h
  cases htag : StartTag.ofBody (Events.scopeOf []) body with
  | error e =>
    rw [htag] at h
    rcases h with h | h <;> cases h
  | ok tag =>
    rw [htag] at h
    obtain ⟨o, ho⟩ : ∃ o, p.openElement limit tag = .ok o := by
      rcases h with h | h
      · obtain ⟨p', hstep, -⟩ := map_eq_ok_iff.mp h
        obtain ⟨o, ho, -⟩ := map_eq_ok_iff.mp hstep
        exact ⟨o, ho⟩
      · obtain ⟨p', hstep, -⟩ := map_eq_ok_iff.mp h
        obtain ⟨o, ho, -⟩ := bind_eq_ok_iff.mp hstep
        exact ⟨o, ho⟩
    obtain ⟨-, as, has, -⟩ := Progress.openElement_eq_ok_iff.mp ho
    exact ⟨tag, as, htag, has⟩

/-- The tag of a root is taken in without its declarations as it is with them. -/
theorem takeToken_of_losesDeclarations {t t' : Token} (h : t.LosesDeclarations t')
    (hbinds : ∀ a ∈ t.attributes, a.BindsOnlyMath) {s : List StartTag × Progress}
    (htake : takeToken limit [] p t = .ok s) :
    SameOutcome (MapsReading keptNamespace) (takeToken limit [] p t) (takeToken limit [] (p.mapUri keptNamespace) t') := by
  cases h with
  | startTag h =>
    obtain ⟨tag, as, htag, hread⟩ := exists_tag_of_takeToken (.inl htake)
    exact takeToken_startTag_mapUri .nil (StartTag.maps_ofBody_of_losesDeclarations h hbinds htag hread)
  | emptyTag h =>
    obtain ⟨tag, as, htag, hread⟩ := exists_tag_of_takeToken (.inr htake)
    exact takeToken_emptyTag_mapUri .nil (StartTag.maps_ofBody_of_losesDeclarations h hbinds htag hread)

/-- What is read of a text can be read without its declarations, and every name is left in its namespace if that is the
    one of office math or a reserved one, and in none if it is not. -/
theorem Excerpt.read_eq {x x' : String} (c : Excerpt x x') {e : Element} (h : Element.read limit x = .ok e) :
    Element.read limit x' = .ok (e.mapUri keptNamespace) := by
  have hx' : x'.toList = c.whole.before ++ '<' :: (c.cut.root ++ c.whole.after) := by
    rw [c.cut.text_eq, c.before_eq, c.after_eq]
  have hroot' : Token.read '<' (c.cut.root ++ c.whole.after) = .ok (c.cut.tag, c.whole.after) := by
    rw [← c.after_eq]
    exact c.cut.read_root
  rw [Element.read_eq_readOn] at h ⊢
  rw [c.whole.text_eq, Events.withoutByteOrderMark_append_markup] at h
  rw [hx', Events.withoutByteOrderMark_append_markup, c.whole.prolog.readOn_eq rfl h]
  rw [c.whole.prolog.readOn_eq rfl h] at h
  have htake := h
  rw [readOn_of_read c.whole.read_root] at htake
  obtain ⟨s, htake, -⟩ := bind_eq_ok_iff.mp htake
  -- the runs part at the tag of the root and stay in step from there on
  have htag := takeToken_of_losesDeclarations c.tag c.bindsOnlyMath htake
  rw [Progress.start_mapUri] at htag
  have hafter : ∀ t ∈ (Token.scan c.whole.after).1, ∀ a ∈ t.attributes,
      keptNamespace = some ∨ declaredPrefix? a.key = none := fun t ht a ha => .inr (c.declaresNothing t ht a ha)
  rw [readOn_mapUri_of_read Scope.maps_initial c.whole.read_root hroot' htag hafter, h]
  rfl

end Xml
end OfficeMath
