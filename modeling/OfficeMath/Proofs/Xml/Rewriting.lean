import OfficeMath.Proofs.Xml.Sieve

/-! Rewriting names and attributes. The names of all elements and the lists of attributes of all elements are
    rewritten, at every depth, and everything else stays: the elements with a tag are found where they were as long as
    the names of office math stay what they are. -/

namespace OfficeMath
namespace Xml

mutual

/-- The element with the names and the attributes of all elements rewritten, at every depth. -/
def Element.rewrite (f : Name → Name) (g : List Attribute → List Attribute) : Element → Element
  | .mk name attributes content => .mk (f name) (g attributes) (Content.rewriteAll f g content)

/-- The item with the names and the attributes of all elements in it rewritten. -/
def Content.rewrite (f : Name → Name) (g : List Attribute → List Attribute) : Content → Content
  | .element e => .element (Element.rewrite f g e)
  | .text t => .text t
  | .comment t => .comment t
  | .instruction t => .instruction t

/-- The items with the names and the attributes of all elements in them rewritten. -/
def Content.rewriteAll (f : Name → Name) (g : List Attribute → List Attribute) : List Content → List Content
  | [] => []
  | c :: content => Content.rewrite f g c :: Content.rewriteAll f g content

end

/-- The element is the other one, or it stands in it at any depth. -/
inductive Element.Within (x : Element) : Element → Prop
  | self : Within x x
  | inside {e c : Element} (hc : c ∈ e.elements) (h : Within x c) : Within x e

/-- Rewriting leaves names as they are, up to the namespaces that are not that of office math. -/
def KeepsMath (f : Name → Name) : Prop := ∀ n, (f n).isMath = n.isMath ∧ (f n).localName = n.localName

variable {f : Name → Name} {g : List Attribute → List Attribute}

theorem Content.rewriteAll_eq_map (content : List Content) :
    rewriteAll f g content = content.map (rewrite f g) := by
  induction content with
  | nil => rfl
  | cons c content ih => rw [rewriteAll, ih, List.map_cons]

@[simp] theorem Content.directText_rewrite (c : Content) : (c.rewrite f g).directText = c.directText := by
  cases c <;> rfl

theorem Content.element?_rewrite (c : Content) : (c.rewrite f g).element? = c.element?.map (Element.rewrite f g) := by
  cases c <;> rfl

namespace Element

theorem name_rewrite (e : Element) : (e.rewrite f g).name = f e.name := by
  cases e
  rfl

theorem attributes_rewrite (e : Element) : (e.rewrite f g).attributes = g e.attributes := by
  cases e
  rfl

theorem content_rewrite (e : Element) : (e.rewrite f g).content = e.content.map (Content.rewrite f g) := by
  cases e
  exact Content.rewriteAll_eq_map _

theorem elements_rewrite (e : Element) : (e.rewrite f g).elements = e.elements.map (rewrite f g) := by
  unfold elements
  rw [content_rewrite, List.filterMap_map, List.map_filterMap]
  congr 1
  funext c
  exact Content.element?_rewrite c

theorem text_rewrite (e : Element) : (e.rewrite f g).text = e.text := by
  unfold text
  rw [content_rewrite, List.map_map]
  exact congrArg String.join (List.map_congr_left fun c _ => Content.directText_rewrite c)

section
variable (hf : KeepsMath f)

include hf

theorem isTag_rewrite (e : Element) (tag : String) : (e.rewrite f g).isTag tag = e.isTag tag := by
  obtain ⟨hmath, hlocal⟩ := hf e.name
  unfold isTag isMath Element.tag
  rw [name_rewrite, hmath, hlocal]

theorem filter_isTag_elements_rewrite (e : Element) (tag : String) :
    (e.rewrite f g).elements.filter (·.isTag tag) = (e.elements.filter (·.isTag tag)).map (rewrite f g) := by
  rw [elements_rewrite, List.filter_map]
  exact congrArg _ (List.filter_congr fun c _ => isTag_rewrite hf c tag)

theorem child?_rewrite (e : Element) (tag : String) : (e.rewrite f g).child? tag = (e.child? tag).map (rewrite f g) := by
  unfold child?
  rw [← List.head?_filter, ← List.head?_filter, filter_isTag_elements_rewrite hf, List.head?_map]

end

theorem mem_elements_of_child? {e c : Element} {tag : String} (h : e.child? tag = some c) :
    c ∈ e.elements ∧ c.isTag tag = true :=
  ⟨List.mem_of_find?_eq_some h, by simpa using List.find?_some h⟩

end Element

/-! ### Rewriting nothing -/

mutual

theorem Element.rewrite_id : ∀ e : Element, e.rewrite id id = e
  | .mk name attributes content => congrArg (Element.mk name attributes) (Content.rewriteAll_id content)

theorem Content.rewrite_id : ∀ c : Content, c.rewrite id id = c
  | .element e => congrArg Content.element (Element.rewrite_id e)
  | .text _ | .comment _ | .instruction _ => rfl

theorem Content.rewriteAll_id : ∀ content : List Content, Content.rewriteAll id id content = content
  | [] => rfl
  | c :: content => by rw [Content.rewriteAll, Content.rewrite_id c, Content.rewriteAll_id content]

end

/-! ### Looking up attributes -/

namespace Element

/-- The value of an attribute is that of the first with its name in the namespace of office math, or else of the
    first with its name in none. -/
theorem attribute?_eq (e : Element) (localName : String) :
    e.attribute? localName =
      ((e.attributes.find? (·.name == .math localName)).or
        (e.attributes.find? (·.name == ⟨none, localName⟩))).map Attribute.value := by
  have hmath : (fun a : Attribute => decide ((a.name.localName == localName) = true ∧ a.name.isMath = true)) =
      fun a => a.name == .math localName := by
    funext ⟨⟨uri, l⟩, v⟩
    rw [Bool.eq_iff_iff]
    simp [Name.isMath, Name.math, and_comm]
  have hnone : (fun a : Attribute => decide ((a.name.localName == localName) = true ∧ a.name.uri.isNone = true)) =
      fun a => a.name == ⟨none, localName⟩ := by
    funext ⟨⟨uri, l⟩, v⟩
    rw [Bool.eq_iff_iff]
    simp [and_comm]
  unfold attribute?
  dsimp only
  rw [List.find?_filter, List.find?_filter, hmath, hnone]

end Element

end Xml
end OfficeMath
