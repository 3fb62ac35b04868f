import OfficeMath.Equation.Form

/-! The tree of an equation. Every element is a node, with its tag, its form and its children; a node can carry a
    note, such as its number or its LaTeX. Elements of properties never count as content. -/

namespace OfficeMath

/-- What a node says by itself. -/
structure Head where
  tag : String
  isMath : Bool
  form : Form
  deriving DecidableEq, Repr

namespace Head

/-- What an element says by itself. -/
def ofElement (e : Xml.Element) : Head := ⟨e.tag, e.isMath, Form.ofElement e⟩

/-- The node is the element of office math with the given tag. -/
def isTag (h : Head) (tag : String) : Bool := h.isMath && h.tag == tag

/-- The node is an element of properties. -/
def isProperty (h : Head) : Bool := h.isMath && isPropertyTag h.tag

end Head

/-- A node of an equation, with a note. -/
inductive Node (α : Type) where
  | mk (head : Head) (note : α) (children : List (Node α))

namespace Node

variable {α : Type}

/-! ### Parts of a node -/

/-- What the node says by itself. -/
def head : Node α → Head
  | mk head _ _ => head

/-- The note that the node carries. -/
def note : Node α → α
  | mk _ note _ => note

/-- The children of the node, in order. -/
def children : Node α → List (Node α)
  | mk _ _ children => children

/-- The form of the node. -/
def form (n : Node α) : Form := n.head.form

/-- The node is the element of office math with the given tag. -/
def isTag (n : Node α) (tag : String) : Bool := n.head.isTag tag

/-- The node is an element of properties. -/
def isProperty (n : Node α) : Bool := n.head.isProperty

@[simp] theorem head_mk (head : Head) (note : α) (children : List (Node α)) : (mk head note children).head = head := rfl

@[simp] theorem note_mk (head : Head) (note : α) (children : List (Node α)) : (mk head note children).note = note := rfl

@[simp] theorem children_mk (head : Head) (note : α) (children : List (Node α)) :
    (mk head note children).children = children := rfl

/-! ### Content -/

/-- The children of the node that are no elements of properties. -/
def contentChildren (n : Node α) : List (Node α) := n.children.filter fun c => !c.isProperty

/-- The node has a child that is no element of properties. -/
def hasContent (n : Node α) : Bool := n.children.any fun c => !c.isProperty

/-- The first child that is the element of office math with the given tag. -/
def child? (n : Node α) (tag : String) : Option (Node α) := n.children.find? (·.isTag tag)

/-- The first child with the given tag, if it has content; a later one does not take its place. -/
def contentChild? (n : Node α) (tag : String) : Option (Node α) := (n.child? tag).filter hasContent

/-- The children with the given tag. -/
def childrenTagged (n : Node α) (tag : String) : List (Node α) := n.children.filter (·.isTag tag)

/-- The run that the node is, if it is one. -/
def run? (n : Node α) : Option Run :=
  match n.form with
  | .run r => some r
  | _ => none

/-- The text of a run, or of a node whose content is one run or more and nothing else. -/
def plainText? (n : Node α) : Option String :=
  match n.run?, n.contentChildren with
  | some r, _ => some r.source
  | none, [] => none
  | none, cs => (cs.mapM run?).map fun rs => String.join (rs.map Run.source)

theorem hasContent_iff {n : Node α} : n.hasContent = true ↔ n.contentChildren ≠ [] := by
  simp [hasContent, contentChildren, List.filter_eq_nil_iff]

/-! ### Size -/

mutual

/-- The number of nodes, with the node itself. -/
def size : Node α → Nat
  | mk _ _ children => sizeAll children + 1

/-- The number of nodes in a list of trees. -/
def sizeAll : List (Node α) → Nat
  | [] => 0
  | n :: ns => n.size + sizeAll ns

end

mutual

/-- The node and those below it, a node before its children. -/
def preorder : Node α → List (Node α)
  | n@(mk _ _ children) => n :: preorderAll children

/-- The nodes of a list of trees, a node before its children. -/
def preorderAll : List (Node α) → List (Node α)
  | [] => []
  | n :: ns => n.preorder ++ preorderAll ns

end

mutual

theorem length_preorder : ∀ n : Node α, n.preorder.length = n.size
  | mk _ _ children => by simp [preorder, size, length_preorderAll children]

theorem length_preorderAll : ∀ ns : List (Node α), (preorderAll ns).length = sizeAll ns
  | [] => rfl
  | n :: ns => by simp [preorderAll, sizeAll, length_preorder n, length_preorderAll ns]

end

end Node

end OfficeMath
