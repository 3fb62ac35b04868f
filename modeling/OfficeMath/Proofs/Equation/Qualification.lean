import Mathlib
import OfficeMath.Proofs.Equation.Rewriting

/-! The namespaces of attributes. An attribute of office math may as well be written without its namespace, at every
    depth, unless an element would then have two attributes where it had one of each kind; and the attributes of other
    namespaces do not count at all, wherever they stand. -/

namespace OfficeMath

open Xml (KeepsMath)

namespace Xml

/-- The attribute, without its namespace if that is the one of office math. -/
def Attribute.unqualified (a : Attribute) : Attribute :=
  if a.name.isMath then { a with name := ⟨none, a.name.localName⟩ } else a

/-- The attribute has a namespace, and it is not that of office math. -/
def Attribute.isForeign (a : Attribute) : Bool := !a.name.isMath && a.name.uri.isSome

/-- The element with the attributes of office math written without their namespace, at every depth. -/
def Element.unqualified (e : Element) : Element := e.rewrite id (List.map Attribute.unqualified)

/-- The element without the attributes of other namespaces, at every depth. -/
def Element.withoutForeign (e : Element) : Element := e.rewrite id (List.filter fun a => !a.isForeign)

/-- No two of the attributes have one local name, one of them in the namespace of office math and the other in none. -/
def Attribute.AreUnambiguous (as : List Attribute) : Prop :=
  ∀ a ∈ as, ∀ b ∈ as, a.name.isMath = true → b.name.uri = none → a.name.localName ≠ b.name.localName

theorem keepsMath_id : KeepsMath id := fun _ => ⟨rfl, rfl⟩

namespace Attribute

variable {as : List Attribute} {localName : String}

theorem value_unqualified (a : Attribute) : a.unqualified.value = a.value := by
  unfold unqualified
  split <;> rfl

theorem name_unqualified_beq_math (a : Attribute) : (a.unqualified.name == .math localName) = false := by
  unfold unqualified
  split
  · rfl
  · next hmath =>
    rw [beq_eq_false_iff_ne]
    intro hname
    rw [hname, Name.isMath_math] at hmath
    exact hmath rfl

theorem name_unqualified_beq_none (a : Attribute) :
    (a.unqualified.name == ⟨none, localName⟩) = (a.name == .math localName || a.name == ⟨none, localName⟩) := by
  obtain ⟨⟨uri, l⟩, v⟩ := a
  rw [Bool.eq_iff_iff]
  by_cases huri : uri = some mathNamespace
  · simp [unqualified, Name.isMath, Name.math, huri]
  · simp [unqualified, Name.isMath, Name.math, huri]

/-- Among attributes that are not ambiguous, those with a local name are all in the namespace of office math, or none
    of them is. -/
theorem AreUnambiguous.find?_or (h : AreUnambiguous as) :
    as.find? (fun a => a.name == .math localName || a.name == ⟨none, localName⟩) =
      (as.find? (·.name == .math localName)).or (as.find? (·.name == ⟨none, localName⟩)) := by
  cases hfound : as.find? (·.name == .math localName) with
  | some a =>
    have ha : a.name = .math localName := by simpa using List.find?_some hfound
    rw [Option.some_or, ← hfound]
    refine List.find?_congr fun b hb => ?_
    have hne : b.name ≠ ⟨none, localName⟩ := by
      intro hb'
      refine h a (List.mem_of_find?_eq_some hfound) b hb ?_ (by rw [hb']) ?_
      · rw [ha, Name.isMath_math]
      · rw [ha, hb']
        rfl
    simp [hne]
  | none =>
    rw [Option.none_or]
    refine List.find?_congr fun b hb => ?_
    rw [Bool.eq_false_iff.mpr (List.find?_eq_none.mp hfound b hb), Bool.false_or]

end Attribute

theorem Element.attribute?_unqualified {x : Element} (h : Attribute.AreUnambiguous x.attributes) (localName : String) :
    x.unqualified.attribute? localName = x.attribute? localName := by
  have hmath : x.attributes.find? ((·.name == .math localName) ∘ Attribute.unqualified) = none :=
    List.find?_eq_none.mpr fun a _ => Bool.eq_false_iff.mp a.name_unqualified_beq_math
  have hnone : ((·.name == ⟨none, localName⟩) ∘ Attribute.unqualified) =
      fun a : Attribute => a.name == .math localName || a.name == ⟨none, localName⟩ :=
    funext fun a => a.name_unqualified_beq_none
  rw [attribute?_eq, attribute?_eq, unqualified, attributes_rewrite, List.find?_map, List.find?_map, hmath, hnone,
    h.find?_or, Option.map_none, Option.none_or, Option.map_map]
  exact Option.map_congr fun a _ => a.value_unqualified

theorem Element.attribute?_withoutForeign (x : Element) (localName : String) :
    x.withoutForeign.attribute? localName = x.attribute? localName := by
  have hkept (name : Name) (hname : name.isMath = true ∨ name.uri = none) :
      (x.attributes.filter fun a => !a.isForeign).find? (·.name == name) = x.attributes.find? (·.name == name) := by
    rw [List.find?_filter]
    refine List.find?_congr fun a _ => ?_
    rw [Bool.eq_iff_iff]
    simp only [decide_eq_true_eq, beq_iff_eq, and_iff_right_iff_imp]
    rintro rfl
    rcases hname with hname | hname <;> simp [Attribute.isForeign, hname]
  rw [attribute?_eq, attribute?_eq, withoutForeign, attributes_rewrite, hkept _ (.inl (Name.isMath_math _)),
    hkept _ (.inr rfl)]

end Xml

namespace Equation

variable {e : Xml.Element}

theorem ofElement_withoutForeign (limit : Nat) (e : Xml.Element) :
    ofElement limit e.withoutForeign = ofElement limit e :=
  ofElement_rewrite Xml.keepsMath_id (fun x _ _ localName _ => x.attribute?_withoutForeign localName) limit

/-- An element gives the same equation, or the same error, whether its attributes of office math are written with their
    namespace or without one, if no element in it has both kinds of attribute with one local name. Either way, attributes
    of other namespaces may be put in and left out anywhere. -/
theorem ofElement_unqualified (h : ∀ x : Xml.Element, x.Within e → Xml.Attribute.AreUnambiguous x.attributes)
    (limit : Nat) :
    ofElement limit e.unqualified = ofElement limit e ∧
      (∀ e', e'.withoutForeign = e.withoutForeign → ofElement limit e' = ofElement limit e) ∧
      ∀ e', e'.withoutForeign = e.unqualified.withoutForeign → ofElement limit e' = ofElement limit e := by
  have hunqualified : ofElement limit e.unqualified = ofElement limit e :=
    ofElement_rewrite Xml.keepsMath_id (fun x hx _ localName _ => x.attribute?_unqualified (h x hx) localName) limit
  refine ⟨hunqualified, fun e' he' => ?_, fun e' he' => ?_⟩
  · rw [← ofElement_withoutForeign limit e', he', ofElement_withoutForeign]
  · rw [← ofElement_withoutForeign limit e', he', ofElement_withoutForeign, hunqualified]

/-- An accent with its character written with the namespace of office math, and the same with the character written
    without a namespace, before and after an attribute of another namespace. -/
theorem ofElement_unqualified_of_accent :
    let foreign : Xml.Attribute := ⟨⟨some "urn:w", "val"⟩, "~"⟩
    let accent (as : List Xml.Attribute) : Xml.Element :=
      .mk (.math "acc") [] [.element (.mk (.math "accPr") [] [.element (.mk (.math "chr") as [])])]
    let qualified := accent [⟨.math "val", "^"⟩]
    (∀ x : Xml.Element, x.Within qualified → Xml.Attribute.AreUnambiguous x.attributes) ∧
      ofElement 3 (accent [⟨⟨none, "val"⟩, "^"⟩]) = ofElement 3 qualified ∧
      ofElement 3 (accent [foreign, ⟨.math "val", "^"⟩]) = ofElement 3 qualified ∧
      ofElement 3 (accent [foreign, ⟨⟨none, "val"⟩, "^"⟩, foreign]) = ofElement 3 qualified := by
  intro foreign accent qualified
  have hunambiguous : ∀ x : Xml.Element, x.Within qualified → Xml.Attribute.AreUnambiguous x.attributes := by
    have hempty : Xml.Attribute.AreUnambiguous [] := fun a ha => by cases ha
    rintro _ (_ | ⟨hc, h⟩)
    · exact hempty
    · obtain rfl := List.mem_singleton.mp hc
      rcases h with _ | ⟨hc, h⟩
      · exact hempty
      · obtain rfl := List.mem_singleton.mp hc
        rcases h with _ | ⟨hc, h⟩
        · intro a ha b hb _ hnone
          rw [List.mem_singleton.mp hb] at hnone
          cases hnone
        · cases hc
  obtain ⟨hplain, hforeign, hboth⟩ := ofElement_unqualified hunambiguous 3
  exact ⟨hunambiguous, hplain, hforeign _ rfl, hboth _ rfl⟩

end Equation
end OfficeMath
