import OfficeMath.Proofs.Equation.Source
import OfficeMath.Proofs.Xml.Sieve

/-! What the form of an element takes from it: the name, the two attributes that may name fences, the values of the
    properties that a construct reads, and the texts of a run. Elements that agree on these have one form, whatever
    else they hold, and a sieve that lets them through leaves the form as it is. -/

namespace OfficeMath

/-- The tags of the elements of properties that constructs read. -/
def propertyTags : List String :=
  ["rPr", "fPr", "radPr", "dPr", "naryPr", "accPr", "barPr", "groupChrPr", "phantPr"]

/-- The attributes that constructs read, by their local names. -/
def attributeTags : List String := ["val", "begChr", "endChr"]

/-- The element is one of properties, but no construct reads it. -/
def Xml.Element.isIdleProperty (e : Xml.Element) : Bool :=
  e.isMath && isPropertyTag e.tag && !propertyTags.contains e.tag

theorem Xml.Element.isIdleProperty_congr {e e' : Xml.Element} (h : e.name = e'.name) :
    e.isIdleProperty = e'.isIdleProperty := by
  unfold isIdleProperty isMath tag
  rw [h]

/-- The texts of a run, one for each of its elements `t`. -/
def Xml.Element.runTexts (e : Xml.Element) : List String := (e.elements.filter (·.isTag "t")).map (·.text)

/-- The two elements agree on all that a form takes from an element. -/
structure Form.SameSource (e e' : Xml.Element) : Prop where
  name_eq : e.name = e'.name
  attribute?_eq : ∀ localName ∈ attributeTags, e.attribute? localName = e'.attribute? localName
  property?_eq : ∀ properties ∈ propertyTags, ∀ name, isPropertyTag name = false →
    (property? e properties name).map Xml.Element.val? = (property? e' properties name).map Xml.Element.val?
  runTexts_eq : e.isTag "r" = true → e.runTexts = e'.runTexts

/-! ### Properties by their values -/

theorem isOn_eq_any (switch : Option Xml.Element) : isOn switch = (switch.map Xml.Element.val?).any isOnValue := by
  cases switch <;> rfl

theorem propertyValue?_eq_join (e : Xml.Element) (properties name : String) :
    propertyValue? e properties name = ((property? e properties name).map Xml.Element.val?).join := by
  unfold propertyValue?
  cases property? e properties name <;> rfl

/-- A style only depends on the values of the properties. -/
theorem RunStyle.ofProperties_congr {properties properties' : Xml.Element}
    (h : ∀ name, isPropertyTag name = false →
      (properties.child? name).map Xml.Element.val? = (properties'.child? name).map Xml.Element.val?) :
    ofProperties properties = ofProperties properties' := by
  have hisOn (name : String) (hname : isPropertyTag name = false) :
      isOn (properties.child? name) = isOn (properties'.child? name) := by
    rw [isOn_eq_any, isOn_eq_any, h name hname]
  have hbind {β : Type} (name : String) (hname : isPropertyTag name = false) (f : Option String → Option β) :
      (properties.child? name).bind (fun e => f e.val?) = (properties'.child? name).bind (fun e => f e.val?) := by
    have hval := congrArg (Option.bind · f) (h name hname)
    simpa only [Option.bind_map, Function.comp_def] using hval
  have hsty : (properties.child? "sty").bind Xml.Element.val? = (properties'.child? "sty").bind Xml.Element.val? :=
    hbind "sty" (by decide) id
  have halphabet : alphabetOf properties = alphabetOf properties' := by
    unfold alphabetOf
    rw [hbind "scr" (by decide) Alphabet.ofValue?, hisOn "frak" (by decide)]
  unfold ofProperties
  rw [halphabet, hisOn "b" (by decide), hisOn "i" (by decide), hsty]

namespace Form

variable {e e' : Xml.Element}

/-- A run without properties has the style of one with none in them. -/
theorem style_ofElement (e : Xml.Element) :
    (Run.ofElement e).style = RunStyle.ofProperties ((e.child? "rPr").getD (.math "rPr")) := by
  unfold Run.ofElement
  cases e.child? "rPr" <;> rfl

theorem property?_eq_child? (e : Xml.Element) (properties name : String) :
    property? e properties name = ((e.child? properties).getD (.math properties)).child? name := by
  unfold property?
  cases e.child? properties <;> rfl

namespace SameSource

variable (h : SameSource e e')

include h

theorem propertyValue?_eq {properties name : String} (hproperties : properties ∈ propertyTags)
    (hname : isPropertyTag name = false) : propertyValue? e properties name = propertyValue? e' properties name := by
  rw [propertyValue?_eq_join, propertyValue?_eq_join, h.property?_eq properties hproperties name hname]

theorem hasProperty_eq {properties name : String} (hproperties : properties ∈ propertyTags)
    (hname : isPropertyTag name = false) : hasProperty e properties name = hasProperty e' properties name := by
  unfold hasProperty
  rw [isOn_eq_any, isOn_eq_any, h.property?_eq properties hproperties name hname]

theorem run_eq (hr : e.isTag "r" = true) : Run.ofElement e = Run.ofElement e' := by
  have hstyle : (Run.ofElement e).style = (Run.ofElement e').style := by
    rw [style_ofElement, style_ofElement]
    refine RunStyle.ofProperties_congr fun name hname => ?_
    rw [← property?_eq_child?, ← property?_eq_child?]
    exact h.property?_eq "rPr" (by decide) name hname
  have hsource : (Run.ofElement e).source = (Run.ofElement e').source := congrArg String.join (h.runTexts_eq hr)
  rw [Run.mk.injEq]
  exact ⟨hsource, hstyle⟩

theorem fence_eq : Fence.ofElement e = Fence.ofElement e' := by
  unfold Fence.ofElement
  rw [h.propertyValue?_eq (by decide) (by decide), h.propertyValue?_eq (by decide) (by decide),
    h.propertyValue?_eq (by decide) (by decide), h.hasProperty_eq (by decide) (by decide),
    h.attribute?_eq "begChr" (by decide), h.attribute?_eq "endChr" (by decide)]

theorem largeOperator_eq : LargeOperator.ofElement e = LargeOperator.ofElement e' := by
  unfold LargeOperator.ofElement
  rw [h.propertyValue?_eq (by decide) (by decide), h.propertyValue?_eq (by decide) (by decide),
    h.hasProperty_eq (by decide) (by decide), h.hasProperty_eq (by decide) (by decide)]

theorem isShown_eq : ((property? e "phantPr" "show").all fun s => isOn (some s)) =
    (property? e' "phantPr" "show").all fun s => isOn (some s) := by
  have hall (switch : Option Xml.Element) :
      (switch.all fun s => isOn (some s)) = (switch.map Xml.Element.val?).all isOnValue := by
    cases switch <;> rfl
  rw [hall, hall, h.property?_eq "phantPr" (by decide) "show" (by decide)]

end SameSource

/-- Elements that agree on what a form takes have one form. -/
theorem ofElement_congr (h : SameSource e e') : ofElement e = ofElement e' := by
  have hconstruct : construct? e = construct? e' := by
    unfold construct? Xml.Element.isMath Xml.Element.tag
    rw [h.name_eq]
  unfold ofElement
  rw [← hconstruct]
  cases hc : construct? e with
  | none => rfl
  | some c =>
    cases c with
    | run =>
      obtain ⟨tag, htag, hr⟩ := construct?_eq_some_iff.mp hc
      obtain rfl : tag = "r" := by simpa [Construct.tags] using htag
      exact congrArg run (h.run_eq hr)
    | delimiter => exact congrArg delimiter h.fence_eq
    | nary => exact congrArg nary h.largeOperator_eq
    | phantom => exact congrArg phantom h.isShown_eq
    | fraction => exact congrArg (fun v => fraction (.ofValue v)) (h.propertyValue?_eq (by decide) (by decide))
    | radical => exact congrArg radical (h.hasProperty_eq (by decide) (by decide))
    | accent => exact congrArg accent (h.propertyValue?_eq (by decide) (by decide))
    | bar =>
      exact congrArg (fun v => bar ((VerticalPosition.ofValue? v).getD .top))
        (h.propertyValue?_eq (by decide) (by decide))
    | groupCharacter =>
      simp only [ofConstruct]
      rw [h.propertyValue?_eq (by decide) (by decide), h.propertyValue?_eq (by decide) (by decide)]
    -- the other constructs read nothing of their element but its name
    | _ => rfl

end Form

/-! ### Sifting -/

namespace Xml.Sieve

/-- The sieve lets through all that a form may take. -/
structure KeepsSource (s : Sieve) : Prop where
  attributes : ∀ a : Attribute, a.name.localName ∈ attributeTags → s.keepsAttribute a = true
  elements : ∀ outer name e, e.isMath = true → e.isIdleProperty = false → s.keepsContent outer name (.element e) = true
  texts : ∀ t, s.keepsContent (some (.math "r")) (.math "t") (.text t) = true

namespace KeepsSource

variable {s : Sieve} (hs : s.KeepsSource) {outer : Option Name} (e : Element)

include hs

theorem keepsContent_of_isTag {name : Name} {tag : String} (htag : isPropertyTag tag = false ∨ tag ∈ propertyTags)
    {c : Element} (hc : c.isTag tag = true) : s.keepsContent outer name (.element c) = true := by
  refine hs.elements outer name c (Bool.and_eq_true_iff.mp hc).1 ?_
  obtain rfl : c.tag = tag := eq_of_beq (Bool.and_eq_true_iff.mp hc).2
  rcases htag with htag | htag <;> simp [Element.isIdleProperty, htag]

theorem attribute?_sift {localName : String} (h : localName ∈ attributeTags) :
    (e.sift s outer).attribute? localName = e.attribute? localName :=
  Element.attribute?_sift e fun a ha => hs.attributes a (ha ▸ h)

theorem map_val?_sift (o : Option Element) (outer : Option Name) :
    (o.map (Element.sift s outer)).map Element.val? = o.map Element.val? := by
  rw [Option.map_map]
  exact Option.map_congr fun c _ => hs.attribute?_sift c (by decide)

theorem property?_sift {properties name : String} (hproperties : properties ∈ propertyTags)
    (hname : isPropertyTag name = false) :
    (property? (e.sift s outer) properties name).map Element.val? = (property? e properties name).map Element.val? := by
  unfold property?
  rw [Element.child?_sift e fun c => hs.keepsContent_of_isTag (.inr hproperties)]
  cases e.child? properties with
  | none => rfl
  | some pr =>
    rw [Option.map_some, Option.bind_some, Option.bind_some,
      Element.child?_sift pr fun c => hs.keepsContent_of_isTag (.inl hname), hs.map_val?_sift]

theorem runTexts_sift (hr : e.isTag "r" = true) : (e.sift s outer).runTexts = e.runTexts := by
  unfold Element.runTexts
  rw [Element.filter_isTag_elements_sift e fun c => hs.keepsContent_of_isTag (.inl (by decide)), List.map_map]
  refine List.map_congr_left fun t ht => Element.text_sift t fun text => ?_
  rw [Element.isTag_iff.mp hr, Element.isTag_iff.mp (List.mem_filter.mp ht).2]
  exact hs.texts text

theorem sameSource_sift (outer : Option Name) : Form.SameSource (e.sift s outer) e where
  name_eq := Element.name_sift e
  attribute?_eq _ h := hs.attribute?_sift e h
  property?_eq _ hproperties _ hname := hs.property?_sift e hproperties hname
  runTexts_eq hr := hs.runTexts_sift e (by simpa using hr)

/-- What an element says of itself as a node is what it said before sifting. -/
theorem head_sift (outer : Option Name) : Head.ofElement (e.sift s outer) = Head.ofElement e := by
  have hform := Form.ofElement_congr (hs.sameSource_sift e outer)
  unfold Head.ofElement Element.tag Element.isMath
  rw [hform, Element.name_sift]

end KeepsSource

end Xml.Sieve

end OfficeMath
