import OfficeMath.Proofs.Equation.FormSource

/-! What is read of an element. All elements are, but of their attributes only three, and text only where it is that
    of a run. Everything else can be erased, at any depth, and the element still gives the same equation or the same
    error. -/

namespace OfficeMath

namespace Xml

/-- Lets through what is read: every element, the attributes that constructs read, and the text in an element `t`
    of a run. -/
def Sieve.read : Sieve where
  keepsAttribute a := attributeTags.contains a.name.localName
  keepsContent outer name c :=
    match c with
    | .element _ => true
    | .text _ => name == .math "t" && outer == some (.math "r")
    | .comment _ => false
    | .instruction _ => false

/-- The element without all that is not read: comments, processing instructions, text outside of runs, and
    attributes by which no property is given. -/
def Element.erase (e : Element) : Element := e.sift .read none

theorem Sieve.keepsSource_read : Sieve.read.KeepsSource where
  attributes _ ha := List.contains_iff_mem.mpr ha
  elements _ _ _ _ _ := rfl
  texts _ := rfl

end Xml

namespace Node

variable {s : Xml.Sieve} {limit : Nat}

mutual

/-- A sieve that lets through all elements, and all that forms take, leaves what is read of an element as it is. -/
theorem read_sift (hs : s.KeepsSource) (helements : ∀ outer name e, s.keepsContent outer name (.element e) = true)
    (outer : Option Xml.Name) (depth : Nat) :
    ∀ e : Xml.Element, read limit depth (e.sift s outer) = read limit depth e
  | .mk name attributes content => by
    have hhead := hs.head_sift (.mk name attributes content) outer
    rw [Xml.Element.sift] at hhead ⊢
    rw [read, read, hhead, readAll_siftAll hs helements outer name (depth + 1) content]

theorem readAll_siftAll (hs : s.KeepsSource)
    (helements : ∀ outer name e, s.keepsContent outer name (.element e) = true) (outer : Option Xml.Name)
    (name : Xml.Name) (depth : Nat) :
    ∀ content : List Xml.Content, readAll limit depth (Xml.Content.siftAll s outer name content) =
      readAll limit depth content
  | [] => rfl
  | .element e :: content => by
    rw [Xml.Content.siftAll, if_pos (helements outer name e), Xml.Content.sift, readAll, readAll,
      read_sift hs helements (some name) depth e, readAll_siftAll hs helements outer name depth content]
  | .text _ :: content | .comment _ :: content | .instruction _ :: content => by
    have ih := readAll_siftAll hs helements outer name depth content
    rw [Xml.Content.siftAll]
    split <;> exact ih

end

end Node

namespace Equation

/-- An element gives the same equation, or the same error, once all that is not read is erased from it. -/
theorem ofElement_erase (limit : Nat) (e : Xml.Element) : ofElement limit e.erase = ofElement limit e := by
  have hread : Node.read limit 0 (e.sift .read none) = Node.read limit 0 e :=
    Node.read_sift Xml.Sieve.keepsSource_read (fun _ _ _ => rfl) none 0 e
  obtain ⟨name, attributes, content⟩ := e
  have hcontent : Node.readAll limit 1 (Xml.Content.siftAll .read none name content) = Node.readAll limit 1 content :=
    Node.readAll_siftAll Xml.Sieve.keepsSource_read (fun _ _ _ => rfl) none name 1 content
  unfold ofElement Xml.Element.erase
  rw [Xml.Element.isTag_sift, hread, Xml.Element.sift, Xml.Element.content_mk, Xml.Element.content_mk, hcontent]

/-- In a run, a comment parts two texts, and an attribute and some text mean nothing. -/
example :
    let note : Xml.Attribute := ⟨⟨none, "note"⟩, "1"⟩
    let text : Xml.Element := .mk (.math "t") [note] [.text "a", .comment "b", .text "c"]
    let run : Xml.Element := .mk (.math "r") [] [.text "\n", .element text, .instruction "d"]
    run.erase = .mk (.math "r") [] [.element (.mk (.math "t") [] [.text "a", .text "c"])] := rfl

end Equation
end OfficeMath
