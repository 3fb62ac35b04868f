import OfficeMath.Proofs.Convert
import OfficeMath.Proofs.Equation.Rewriting
import OfficeMath.Proofs.Xml.Excerpt
import OfficeMath.Proofs.Xml.ImpliedDeclaration

/-! Equations cut out of their documents. A text that has lost the declarations of its root gives the same LaTeX, unless
    an attribute that belonged to another namespace is then taken for one of office math: without its namespace it
    counts like an attribute that never had one. -/

namespace OfficeMath

open Xml (KeepsMath keptNamespace)

namespace Xml

/-- Every attribute that loses its namespace, and has a local name that constructs read, stands behind another one with
    that local name: one of office math anywhere, or one in no namespace before it. -/
def Attribute.AreShielded (as : List Attribute) : Prop :=
  ∀ before a after, as = before ++ a :: after → a.name.localName ∈ attributeTags →
    a.name.uri ≠ none → (a.name.mapUri keptNamespace).uri = none →
    (∃ b ∈ as, b.name = .math a.name.localName) ∨ ∃ b ∈ before, b.name = ⟨none, a.name.localName⟩

theorem Attribute.AreShielded.of_forall {as : List Attribute}
    (h : ∀ a ∈ as, ∃ b ∈ as, b.name = .math a.name.localName) : AreShielded as := by
  intro before a after has _ _ _
  exact .inl (h a (has ▸ List.mem_append_right before (List.mem_cons_self ..)))

theorem keptNamespace_eq_some {uri uri' : String} (h : keptNamespace uri = some uri') : uri' = uri := by
  unfold keptNamespace at h
  split at h <;> cases h
  rfl

theorem isMath_mapUri (n : Name) : (n.mapUri keptNamespace).isMath = n.isMath := by
  rw [Bool.eq_iff_iff, Name.isMath, Name.isMath, beq_iff_eq, beq_iff_eq]
  constructor
  · intro h
    obtain ⟨uri, huri, hkept⟩ := Option.bind_eq_some_iff.mp h
    rw [huri, keptNamespace_eq_some hkept]
  · intro h
    exact Option.bind_eq_some_iff.mpr ⟨_, h, keptNamespace_mathNamespace⟩

theorem keepsMath_mapUri : KeepsMath (Name.mapUri keptNamespace) := fun n => ⟨isMath_mapUri n, rfl⟩

/-- What is found first is found first by a wider test too, if what only passes that one stands behind something that
    passes the first. -/
theorem find?_or_of_shielded {α : Type} {p q : α → Bool} {as : List α}
    (h : ∀ before a after, as = before ++ a :: after → q a = true → ∃ b ∈ before, p b = true) :
    as.find? (fun a => p a || q a) = as.find? p := by
  cases hfound : as.find? (fun a => p a || q a) with
  | none =>
    refine (List.find?_eq_none.mpr fun a ha hp => ?_).symm
    exact List.find?_eq_none.mp hfound a ha (by rw [hp, Bool.true_or])
  | some a =>
    obtain ⟨ha, before, after, has, hbefore⟩ := List.find?_eq_some_iff_append.mp hfound
    have hnone : ∀ b ∈ before, p b = false := fun b hb => by
      have hb := hbefore b hb
      simp only [Bool.not_or, Bool.and_eq_true, Bool.not_eq_true'] at hb
      exact hb.1
    have hp : p a = true := by
      rcases Bool.or_eq_true_iff.mp ha with hp | hq
      · exact hp
      · obtain ⟨b, hb, hp⟩ := h before a after has hq
        rw [hnone b hb] at hp
        cases hp
    refine (List.find?_eq_some_iff_append.mpr ⟨hp, before, after, has, fun b hb => ?_⟩).symm
    rw [hnone b hb]
    rfl

namespace Attribute

/-- The attribute has the local name, and it loses its namespace. -/
def isLost (a : Attribute) (localName : String) : Bool :=
  a.name.localName == localName && a.name.uri.isSome && (a.name.mapUri keptNamespace).uri.isNone

theorem name_mapUri_beq_math (a : Attribute) (localName : String) :
    ((a.mapUri keptNamespace).name == .math localName) = (a.name == .math localName) := by
  have hbeq (n : Name) : (n == .math localName) = (n.isMath && n.localName == localName) := by
    obtain ⟨uri, l⟩ := n
    rw [Bool.eq_iff_iff]
    simp [Name.isMath, Name.math]
  rw [hbeq, hbeq, mapUri, isMath_mapUri]
  rfl

theorem name_mapUri_beq_none (a : Attribute) (localName : String) :
    ((a.mapUri keptNamespace).name == ⟨none, localName⟩) = (a.name == ⟨none, localName⟩ || a.isLost localName) := by
  obtain ⟨⟨uri, l⟩, v⟩ := a
  rw [Bool.eq_iff_iff]
  cases uri with
  | none => simp [isLost, mapUri, Name.mapUri]
  | some uri => simp [isLost, mapUri, Name.mapUri, and_comm]

end Attribute

/-- Shielded attributes keep their values, as constructs read them, when they lose their namespaces. -/
theorem attribute?_mapUri {x : Element} (h : Attribute.AreShielded x.attributes) {localName : String}
    (hname : localName ∈ attributeTags) : (x.mapUri keptNamespace).attribute? localName = x.attribute? localName := by
  have hmath : ((·.name == .math localName) ∘ Attribute.mapUri keptNamespace) =
      fun a : Attribute => a.name == .math localName := funext fun a => a.name_mapUri_beq_math localName
  have hnone : ((·.name == ⟨none, localName⟩) ∘ Attribute.mapUri keptNamespace) =
      fun a : Attribute => a.name == ⟨none, localName⟩ || a.isLost localName :=
    funext fun a => a.name_mapUri_beq_none localName
  rw [Element.attribute?_eq, Element.attribute?_eq, Element.mapUri, Element.attributes_rewrite, List.find?_map,
    List.find?_map, hmath, hnone]
  cases hfound : x.attributes.find? (·.name == .math localName) with
  | some a => rfl
  | none =>
    have hlost : x.attributes.find? (fun a => a.name == ⟨none, localName⟩ || a.isLost localName) =
        x.attributes.find? (·.name == ⟨none, localName⟩) := by
      refine find?_or_of_shielded fun before a after has ha => ?_
      simp only [Attribute.isLost, Bool.and_eq_true, beq_iff_eq, Option.isNone_iff_eq_none] at ha
      obtain ⟨⟨rfl, huri⟩, hkept⟩ := ha
      rcases h before a after has hname (Option.isSome_iff_ne_none.mp huri) hkept with ⟨b, hb, hmath⟩ | ⟨b, hb, hnone⟩
      · exact absurd (beq_iff_eq.mpr hmath) (List.find?_eq_none.mp hfound b hb)
      · exact ⟨b, hb, beq_iff_eq.mpr hnone⟩
    rw [hlost, Option.map_none, Option.none_or, Option.none_or, Option.map_map]
    rfl

end Xml

/-- A text that has lost the declarations of its root can be read and gives the same LaTeX, if the attributes of its
    elements of office math are shielded. -/
theorem latexOfText_of_excerpt {options : Options} {x x' : String} (c : Xml.Excerpt x x') {e : Xml.Element}
    (h : Xml.Element.read options.maxDepth x = .ok e)
    (hshielded : ∀ y : Xml.Element, y.Within e → y.isMath = true → Xml.Attribute.AreShielded y.attributes) :
    (∃ e', Xml.Element.read options.maxDepth x' = .ok e') ∧ latexOfText options x' = latexOfText options x := by
  have hread := c.read_eq h
  refine ⟨⟨_, hread⟩, ?_⟩
  have hvalues : e.KeepsValues (Xml.Name.mapUri keptNamespace) (List.map (Xml.Attribute.mapUri keptNamespace)) :=
    fun y hy hmath localName hname => Xml.attribute?_mapUri (hshielded y hy hmath) hname
  rw [latexOfText_of_ok hread, latexOfText_of_ok h, Xml.Element.mapUri,
    Equation.ofElement_rewrite Xml.keepsMath_mapUri hvalues]

namespace Xml

/-- The tag of an `oMath` in which the prefixes `m` and `w` are declared. -/
def declaringTag : List Char := "m:oMath".toList ++ mathDeclaration ++ " xmlns:w=\"urn:w\"".toList

theorem scan_declaringTag :
    RawAttribute.scan (declaringTag.dropWhile fun c => !isSpace c) =
      ([declaredMath, ⟨"xmlns:w".toList, "urn:w".toList⟩], none) := by
  have hscan : RawAttribute.scan " xmlns:w=\"urn:w\"".toList = ([⟨"xmlns:w".toList, "urn:w".toList⟩], none) := by cbv
  show RawAttribute.scan (mathDeclaration ++ " xmlns:w=\"urn:w\"".toList) = _
  rw [scan_mathDeclaration, hscan]

theorem read_declaringTag (rest : List Char) :
    Token.read '<' (declaringTag ++ ['>'] ++ rest) = .ok (.startTag declaringTag, rest) := by
  have hplain : (Name.math "oMath").IsPlain := ⟨.inr rfl, by decide, List.all_eq_true.mp rfl⟩
  have hname : Token.PassesOver "m:oMath".toList none none := Token.passesOver_qualified (n := .math "oMath") hplain
  have hw : Token.PassesOver (" xmlns:w=".toList ++ '"' :: ("urn:w".toList ++ ['"'])) none none :=
    .quoted (by decide) (by decide) rfl
  have hpasses : Token.PassesOver declaringTag none none :=
    (hname.append (Token.passesOver_mathDeclaration rfl)).append hw
  have hstart : Token.ofTagBody declaringTag = .startTag declaringTag := if_neg (by decide)
  have hmarkup : Token.readMarkup (declaringTag ++ '>' :: rest) =
      Token.readTag Token.ofTagBody (declaringTag ++ '>' :: rest) :=
    Token.readMarkup_of_startsTag (c := 'm') rfl _
  rw [List.append_assoc, List.singleton_append, Token.read_markup, hmarkup, Token.readTag_of_passesOver hpasses, hstart]

theorem losesDeclarations_declaringTag : LosesDeclarations declaringTag "m:oMath".toList where
  name_eq := by rfl
  scan_eq := by
    rw [scan_declaringTag]
    cbv

/-- An `oMath` with the prefixes `m` and `w` declared, and the same one without them, around a text that declares
    nothing. -/
theorem nonempty_excerpt (after : String)
    (h : ∀ t ∈ (Token.scan after.toList).1, ∀ a ∈ t.attributes, declaredPrefix? a.key = none) :
    Nonempty (Excerpt (String.ofList ('<' :: declaringTag) ++ ">" ++ after) ("<m:oMath>" ++ after)) := by
  let whole : RootSplit (String.ofList ('<' :: declaringTag) ++ ">" ++ after) :=
    { before := [], root := declaringTag ++ ['>'], after := after.toList, tag := .startTag declaringTag,
      text_eq := by simp
      prolog := .nil
      read_root := read_declaringTag after.toList
      starts := rfl }
  let cut : RootSplit ("<m:oMath>" ++ after) :=
    { before := [], root := "m:oMath>".toList, after := after.toList, tag := .startTag "m:oMath".toList,
      text_eq := by rw [String.toList_append]; rfl
      prolog := .nil
      read_root := by rfl
      starts := rfl }
  have hattributes : whole.tag.attributes = [declaredMath, ⟨"xmlns:w".toList, "urn:w".toList⟩] :=
    congrArg Prod.fst scan_declaringTag
  refine ⟨whole, cut, rfl, rfl, .startTag losesDeclarations_declaringTag, ?_, h⟩
  rw [hattributes]
  simp only [List.forall_mem_cons]
  refine ⟨?_, ?_, by simp⟩
  · rintro _ ⟨⟩
    exact ⟨"m", rfl, by decide⟩
  · rintro _ ⟨⟩
    exact ⟨"w", rfl, by decide⟩

/-- The same tag, with what it binds. -/
def declaringStart : StartTag where
  qualified := "m:oMath".toList
  scope := (some "w", "urn:w") :: (some mathPrefix, mathNamespace) :: Scope.initial
  attributes := [declaredMath, ⟨"xmlns:w".toList, "urn:w".toList⟩]
  fault := none

theorem ofBody_declaringTag : StartTag.ofBody .initial declaringTag = .ok declaringStart := by
  have hname : declaringTag.takeWhile (fun c => !isSpace c) = "m:oMath".toList := by rfl
  have hdeclare : Scope.initial.declareAll [declaredMath, ⟨"xmlns:w".toList, "urn:w".toList⟩] =
      .ok declaringStart.scope := by
    rw [Scope.declareAll, List.foldlM_cons, declare_declaredMath]
    rfl
  unfold StartTag.ofBody
  rw [scan_declaringTag, hname]
  dsimp only
  rw [hdeclare]
  rfl

/-- After its tag, an `oMath` is read on with its declarations in scope. -/
theorem read_declaringTag_append (limit : Nat) (after : String) :
    Element.read (limit + 1) (String.ofList ('<' :: declaringTag) ++ ">" ++ after) =
      readOn (limit + 1) [declaringStart] ⟨[⟨.math "oMath", [], []⟩], none⟩ after.toList := by
  have htext : (String.ofList ('<' :: declaringTag) ++ ">" ++ after).toList =
      '<' :: (declaringTag ++ ['>'] ++ after.toList) := by simp
  have hmark : Events.withoutByteOrderMark ('<' :: (declaringTag ++ ['>'] ++ after.toList)) =
      '<' :: (declaringTag ++ ['>'] ++ after.toList) := Events.withoutByteOrderMark_append_markup [] _
  have htag : StartTag.ofBody (Events.scopeOf []) declaringTag = .ok declaringStart := ofBody_declaringTag
  rw [Element.read_eq_readOn, htext, hmark, readOn_startTag (read_declaringTag after.toList) htag]
  rfl

end Xml

/-- A fence named by an attribute of another namespace counts once the declaration of that namespace is lost. -/
theorem latexOfText_of_excerpt_of_foreign :
    let equation := "<m:d w:begChr=\"[\"/></m:oMath>"
    let x := String.ofList ('<' :: Xml.declaringTag) ++ ">" ++ equation
    let x' := "<m:oMath>" ++ equation
    Nonempty (Xml.Excerpt x x') ∧ latexOfText {} x = "()" ∧ latexOfText {} x' = "[)" := by
  intro equation x x'
  let math (uri : Option String) : Xml.Element :=
    .mk (.math "oMath") [] [.element (.mk (.math "d") [⟨⟨uri, "begChr"⟩, "["⟩] [])]
  have htokens : (Xml.Token.scan equation.toList).1 =
      [.emptyTag "m:d w:begChr=\"[\"".toList, .endTag "m:oMath".toList] := by cbv
  have hattributes : (Xml.Token.emptyTag "m:d w:begChr=\"[\"".toList).attributes =
      [⟨"w:begChr".toList, "[".toList⟩] := by cbv
  have hnothing : ∀ t ∈ (Xml.Token.scan equation.toList).1, ∀ a ∈ t.attributes, Xml.declaredPrefix? a.key = none := by
    rw [htokens, List.forall_mem_cons, hattributes]
    exact ⟨List.forall_mem_singleton.mpr rfl, List.forall_mem_singleton.mpr fun a ha => by cases ha⟩
  have hread : Xml.Element.read ({} : Options).maxDepth x = .ok (math (some "urn:w")) := by
    refine (Xml.read_declaringTag_append _ equation).trans ?_
    cbv
  have hread' : Xml.Element.read ({} : Options).maxDepth x' = .ok (math none) := by cbv
  refine ⟨Xml.nonempty_excerpt equation hnothing, ?_, ?_⟩
  · rw [latexOfText_of_ok hread]
    decide +kernel
  · rw [latexOfText_of_ok hread']
    decide +kernel

/-- A fence named by an attribute of another namespace does not count after one that is named by one of office math. -/
theorem latexOfText_of_excerpt_of_fence :
    let equation := "<m:d w:begChr=\"[\" m:begChr=\"|\"/></m:oMath>"
    let x := String.ofList ('<' :: Xml.declaringTag) ++ ">" ++ equation
    let x' := "<m:oMath>" ++ equation
    let math : Xml.Element := .mk (.math "oMath") []
      [.element (.mk (.math "d") [⟨⟨some "urn:w", "begChr"⟩, "["⟩, ⟨.math "begChr", "|"⟩] [])]
    Nonempty (Xml.Excerpt x x') ∧ Xml.Element.read ({} : Options).maxDepth x = .ok math ∧
      (∀ y : Xml.Element, y.Within math → y.isMath = true → Xml.Attribute.AreShielded y.attributes) ∧
      (∃ e', Xml.Element.read ({} : Options).maxDepth x' = .ok e') ∧ latexOfText {} x' = latexOfText {} x := by
  intro equation x x' math
  have htokens : (Xml.Token.scan equation.toList).1 =
      [.emptyTag "m:d w:begChr=\"[\" m:begChr=\"|\"".toList, .endTag "m:oMath".toList] := by cbv
  have hattributes : (Xml.Token.emptyTag "m:d w:begChr=\"[\" m:begChr=\"|\"".toList).attributes =
      [⟨"w:begChr".toList, "[".toList⟩, ⟨"m:begChr".toList, "|".toList⟩] := by cbv
  have hnothing : ∀ t ∈ (Xml.Token.scan equation.toList).1, ∀ a ∈ t.attributes, Xml.declaredPrefix? a.key = none := by
    rw [htokens, List.forall_mem_cons, hattributes]
    exact ⟨List.forall_mem_cons.mpr ⟨rfl, List.forall_mem_singleton.mpr rfl⟩,
      List.forall_mem_singleton.mpr fun a ha => by cases ha⟩
  have hread : Xml.Element.read ({} : Options).maxDepth x = .ok math := by
    refine (Xml.read_declaringTag_append _ equation).trans ?_
    cbv
  have hshielded : ∀ y : Xml.Element, y.Within math → y.isMath = true → Xml.Attribute.AreShielded y.attributes := by
    rintro y (_ | ⟨hc, hy⟩) -
    · exact .of_forall fun a ha => by cases ha
    · obtain rfl := List.mem_singleton.mp hc
      rcases hy with _ | ⟨hc, -⟩
      · refine .of_forall fun a ha => ⟨⟨.math "begChr", "|"⟩, by simp, ?_⟩
        rcases List.mem_pair.mp ha with rfl | rfl <;> rfl
      · cases hc
  obtain ⟨c⟩ := Xml.nonempty_excerpt equation hnothing
  exact ⟨⟨c⟩, hread, hshielded, latexOfText_of_excerpt c hread hshielded⟩

end OfficeMath
