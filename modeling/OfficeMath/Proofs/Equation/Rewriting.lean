import OfficeMath.Proofs.Equation.FormSource
import OfficeMath.Proofs.Xml.Rewriting

/-! Equations of rewritten elements. An element says the same of itself when names and attributes are rewritten, as long
    as the names of office math stay and its elements of office math have the same values for the attributes that
    constructs read. It then gives the same equation. -/

namespace OfficeMath

open Xml (KeepsMath)

variable {f : Xml.Name → Xml.Name} {g : List Xml.Attribute → List Xml.Attribute} {e : Xml.Element}

/-- Rewriting leaves the attributes that constructs read at their values, in all elements of office math in the
    element. -/
def Xml.Element.KeepsValues (f : Xml.Name → Xml.Name) (g : List Xml.Attribute → List Xml.Attribute)
    (e : Xml.Element) : Prop :=
  ∀ x : Xml.Element, x.Within e → x.isMath = true → ∀ localName ∈ attributeTags,
    (x.rewrite f g).attribute? localName = x.attribute? localName

namespace Xml.Element.KeepsValues

theorem of_mem (h : e.KeepsValues f g) {c : Xml.Element} (hc : c ∈ e.elements) : c.KeepsValues f g :=
  fun x hx => h x (.inside hc hx)

variable (hf : KeepsMath f) (h : e.KeepsValues f g)

include hf h

theorem property?_rewrite (properties name : String) :
    (property? (e.rewrite f g) properties name).map Xml.Element.val? =
      (property? e properties name).map Xml.Element.val? := by
  unfold property?
  rw [child?_rewrite hf]
  cases hpr : e.child? properties with
  | none => rfl
  | some pr =>
    have hpr := h.of_mem (mem_elements_of_child? hpr).1
    rw [Option.map_some, Option.bind_some, Option.bind_some, child?_rewrite hf]
    cases hc : pr.child? name with
    | none => rfl
    | some c =>
      obtain ⟨hmem, htag⟩ := mem_elements_of_child? hc
      have hmath : c.isMath = true := (Bool.and_eq_true_iff.mp htag).1
      exact congrArg some (hpr.of_mem hmem c .self hmath "val" (by decide))

theorem sameSource_rewrite (hmath : e.isMath = true) : Form.SameSource (e.rewrite f g) e where
  name_eq := by
    have hname : (f e.name).isMath = true := (hf e.name).1.trans hmath
    rw [name_rewrite, Name.isMath_iff.mp hname, (hf e.name).2]
    exact (Name.isMath_iff.mp hmath).symm
  attribute?_eq _ hname := h e .self hmath _ hname
  property?_eq properties _ name _ := h.property?_rewrite hf properties name
  runTexts_eq _ := by
    unfold runTexts
    rw [filter_isTag_elements_rewrite hf, List.map_map]
    exact List.map_congr_left fun t _ => text_rewrite t

/-- What an element says of itself as a node is what it said before it was rewritten. -/
theorem head_rewrite : Head.ofElement (e.rewrite f g) = Head.ofElement e := by
  have hisMath : (e.rewrite f g).isMath = e.isMath := by rw [isMath, name_rewrite, (hf e.name).1]; rfl
  have htag : (e.rewrite f g).tag = e.tag := by rw [tag, name_rewrite, (hf e.name).2]; rfl
  have hform : Form.ofElement (e.rewrite f g) = Form.ofElement e := by
    cases hmath : e.isMath with
    | true => exact Form.ofElement_congr (h.sameSource_rewrite hf hmath)
    | false =>
      -- an element of another namespace is no construct
      unfold Form.ofElement Form.construct?
      rw [hisMath, hmath]
      rfl
  unfold Head.ofElement
  rw [hform, hisMath, htag]

end Xml.Element.KeepsValues

namespace Node

variable {limit : Nat}

mutual

theorem read_rewrite (hf : KeepsMath f) (depth : Nat) :
    ∀ e : Xml.Element, e.KeepsValues f g → read limit depth (e.rewrite f g) = read limit depth e
  | .mk name attributes content, h => by
    have hhead := h.head_rewrite hf
    have hcontent := readAll_rewriteAll hf (depth + 1) content fun c hc => h.of_mem hc
    rw [Xml.Element.rewrite] at hhead ⊢
    rw [read, read, hhead, hcontent]

theorem readAll_rewriteAll (hf : KeepsMath f) (depth : Nat) :
    ∀ content : List Xml.Content, (∀ c ∈ content.filterMap Xml.Content.element?, c.KeepsValues f g) →
      readAll limit depth (Xml.Content.rewriteAll f g content) = readAll limit depth content
  | [], _ => rfl
  | .element e :: content, h => by
    obtain ⟨he, hcontent⟩ := List.forall_mem_cons.mp h
    rw [Xml.Content.rewriteAll, Xml.Content.rewrite, readAll, readAll, read_rewrite hf depth e he,
      readAll_rewriteAll hf depth content hcontent]
  | .text _ :: content, h | .comment _ :: content, h | .instruction _ :: content, h =>
    readAll_rewriteAll hf depth content h

end

end Node

/-- An element gives the same equation, or the same error, once it has been rewritten. -/
theorem Equation.ofElement_rewrite (hf : KeepsMath f) (h : e.KeepsValues f g) (limit : Nat) :
    ofElement limit (e.rewrite f g) = ofElement limit e := by
  obtain ⟨name, attributes, content⟩ := e
  unfold ofElement
  rw [Xml.Element.isTag_rewrite hf, Node.read_rewrite hf 0 _ h, Xml.Element.rewrite, Xml.Element.content_mk,
    Xml.Element.content_mk, Node.readAll_rewriteAll hf 1 content fun c hc => h.of_mem hc]

end OfficeMath
