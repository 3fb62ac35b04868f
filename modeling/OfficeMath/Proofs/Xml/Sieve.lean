import OfficeMath.Xml.Element

/-! Leaving things out of an element. A sieve says which attributes stay, and which items stay in an element of one
    name inside an element of another; names stay as they are, at every depth. What is found in an element by name
    is found in it after sifting, if the sieve lets it through. -/

namespace OfficeMath
namespace Xml

/-- What stays: attributes, and items by the name of the element that holds them and that of the element around
    it. -/
structure Sieve where
  keepsAttribute : Attribute → Bool
  keepsContent : Option Name → Name → Content → Bool

mutual

/-- The element, inside an element of the outer name, with only what stays in it. -/
def Element.sift (s : Sieve) (outer : Option Name) : Element → Element
  | .mk name attributes content =>
    .mk name (attributes.filter s.keepsAttribute) (Content.siftAll s outer name content)

/-- The item, inside an element of the name, with only what stays in it. -/
def Content.sift (s : Sieve) (name : Name) : Content → Content
  | .element e => .element (Element.sift s (some name) e)
  | .text t => .text t
  | .comment t => .comment t
  | .instruction t => .instruction t

/-- The items that stay, with only what stays in them. -/
def Content.siftAll (s : Sieve) (outer : Option Name) (name : Name) : List Content → List Content
  | [] => []
  | c :: content =>
    if s.keepsContent outer name c then Content.sift s name c :: Content.siftAll s outer name content
    else Content.siftAll s outer name content

end

theorem Content.siftAll_eq (s : Sieve) (outer : Option Name) (name : Name) (content : List Content) :
    siftAll s outer name content = (content.filter (s.keepsContent outer name)).map (sift s name) := by
  induction content with
  | nil => rfl
  | cons c content ih =>
    rw [siftAll, ih]
    split
    · next h => rw [List.filter_cons_of_pos h, List.map_cons]
    · next h => rw [List.filter_cons_of_neg h]

theorem Content.siftAll_append (s : Sieve) (outer : Option Name) (name : Name) (content content' : List Content) :
    siftAll s outer name (content ++ content') = siftAll s outer name content ++ siftAll s outer name content' := by
  simp [siftAll_eq]

@[simp] theorem Content.directText_sift (s : Sieve) (name : Name) (c : Content) :
    (c.sift s name).directText = c.directText := by
  cases c <;> rfl

namespace Element

variable {s : Sieve} {outer : Option Name}

theorem isTag_iff {e : Element} {tag : String} : e.isTag tag = true ↔ e.name = .math tag := by
  unfold isTag
  rw [Bool.and_eq_true, beq_iff_eq]
  constructor
  · rintro ⟨hmath, rfl⟩
    exact Name.isMath_iff.mp hmath
  · intro hname
    simp [isMath, Element.tag, hname, Name.math, Name.isMath]

@[simp] theorem name_sift (e : Element) : (e.sift s outer).name = e.name := by
  cases e
  rfl

@[simp] theorem isTag_sift (e : Element) (tag : String) : (e.sift s outer).isTag tag = e.isTag tag := by
  cases e
  rfl

theorem content_sift (e : Element) :
    (e.sift s outer).content = (e.content.filter (s.keepsContent outer e.name)).map (Content.sift s e.name) := by
  cases e
  exact Content.siftAll_eq ..

theorem attribute?_sift (e : Element) {localName : String}
    (h : ∀ a : Attribute, a.name.localName = localName → s.keepsAttribute a = true) :
    (e.sift s outer).attribute? localName = e.attribute? localName := by
  obtain ⟨name, attributes, content⟩ := e
  have hnamed : (attributes.filter s.keepsAttribute).filter (fun a => a.name.localName == localName) =
      attributes.filter fun a => a.name.localName == localName := by
    rw [List.filter_filter]
    refine List.filter_congr fun a _ => ?_
    cases hlocal : a.name.localName == localName with
    | false => rfl
    | true => rw [h a (eq_of_beq hlocal), Bool.and_self]
  unfold attribute?
  rw [sift, attributes_mk, attributes_mk, hnamed]

/-! ### Elements -/

theorem elements_sift (e : Element) : (e.sift s outer).elements =
    (e.elements.filter fun c => s.keepsContent outer e.name (.element c)).map (sift s (some e.name)) := by
  unfold elements
  rw [content_sift, List.filterMap_map, List.filterMap_filter, List.filter_filterMap, List.map_filterMap]
  congr 1
  funext c
  cases c with
  | element c =>
    cases hkeep : s.keepsContent outer e.name (.element c) <;>
      simp [hkeep, Content.element?, Content.sift, Option.filter_some]
  | _ => simp [Content.element?, Content.sift]

/-- The elements with a tag that the sieve lets through are those there were. -/
theorem filter_isTag_elements_sift (e : Element) {tag : String}
    (h : ∀ c : Element, c.isTag tag = true → s.keepsContent outer e.name (.element c) = true) :
    (e.sift s outer).elements.filter (·.isTag tag) =
      (e.elements.filter (·.isTag tag)).map (sift s (some e.name)) := by
  rw [elements_sift, List.filter_map, List.filter_filter]
  congr 1
  refine List.filter_congr fun c _ => ?_
  rw [Function.comp_apply, isTag_sift]
  cases htag : c.isTag tag with
  | false => rfl
  | true => rw [h c htag, Bool.and_self]

theorem child?_sift (e : Element) {tag : String}
    (h : ∀ c : Element, c.isTag tag = true → s.keepsContent outer e.name (.element c) = true) :
    (e.sift s outer).child? tag = (e.child? tag).map (sift s (some e.name)) := by
  unfold child?
  rw [← List.head?_filter, ← List.head?_filter, filter_isTag_elements_sift e h, List.head?_map]

/-! ### Text -/

theorem text_sift (e : Element) (h : ∀ t, s.keepsContent outer e.name (.text t) = true) :
    (e.sift s outer).text = e.text := by
  unfold text
  rw [content_sift, List.map_map]
  induction e.content with
  | nil => rfl
  | cons c content ih =>
    by_cases hkeep : s.keepsContent outer e.name c
    · simpa [hkeep] using ih
    · have htext : c.directText = "" := by
        cases c with
        | text t => exact absurd (h t) hkeep
        | _ => rfl
      simpa [hkeep, htext] using ih

end Element

end Xml
end OfficeMath
