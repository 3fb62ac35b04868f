import OfficeMath.Equation.Enclosure

/-! Equations and the numbers of their nodes. The nodes are numbered in document order from zero, a node before its
    children. An entry of the outline is a numbered node with its parent and with how it stands to the delimiters
    around it. -/

namespace OfficeMath

/-- An equation is a row of trees. -/
structure Equation where
  roots : List (Node Unit)

/-- A numbered node and where it stands. -/
structure Entry where
  node : Node Nat
  parent : Option (Node Nat)
  enclosure : Enclosure Nat

namespace Node

variable {α : Type}

mutual

/-- Numbers the node and those below it in document order, from `first` on. -/
def number (first : Nat) : Node α → Node Nat
  | mk head _ children => mk head first (numberAll (first + 1) children)

/-- Numbers the nodes of a list of trees in document order, from `first` on. -/
def numberAll (first : Nat) : List (Node α) → List (Node Nat)
  | [] => []
  | n :: ns => n.number first :: numberAll (first + n.size) ns

end

mutual

/-- The entries of the node and those below it, in document order. -/
def entries (parent : Option (Node Nat)) (enclosure : Enclosure Nat) : Node Nat → List Entry
  | n@(mk _ _ children) => ⟨n, parent, enclosure⟩ :: entriesAll (some n) (enclosure.inside n) children

/-- The entries of a list of trees, in document order. -/
def entriesAll (parent : Option (Node Nat)) (enclosure : Enclosure Nat) : List (Node Nat) → List Entry
  | [] => []
  | n :: ns => n.entries parent enclosure ++ entriesAll parent enclosure ns

end

end Node

namespace Entry

/-- The number of the node. -/
def id (e : Entry) : Nat := e.node.note

/-- The number of the parent. -/
def parentId? (e : Entry) : Option Nat := e.parent.map Node.note

/-- The numbers of the children. -/
def childIds (e : Entry) : List Nat := e.node.children.map Node.note

end Entry

namespace Equation

/-- The trees with their nodes numbered. -/
def numbered (q : Equation) : List (Node Nat) := Node.numberAll 0 q.roots

/-- All nodes in document order, so that a node's number is its place in the list. -/
def outline (q : Equation) : List Entry := Node.entriesAll none .none q.numbered

/-- The number of nodes. -/
def size (q : Equation) : Nat := Node.sizeAll q.roots

/-- The numbers of the roots. -/
def rootIds (q : Equation) : List Nat := q.numbered.map Node.note

/-- The entry of the node with the number. -/
def entry? (q : Equation) (id : Nat) : Option Entry := q.outline[id]?

/-- The node should have been a construct or a known container: it is neither that nor has it to do with
    properties. -/
def isUnrecognized (e : Entry) : Bool :=
  e.node.form == .generic && !e.node.isProperty && !(e.node.head.isMath && containerTags.contains e.node.head.tag) &&
    !e.parent.any Node.isProperty

/-- The tags that are not recognized, each once, in the order of their first occurrence. -/
def unrecognizedTags (q : Equation) : List String :=
  ((q.outline.filter isUnrecognized).map fun e => e.node.head.tag).foldl
    (fun tags tag => if tags.contains tag then tags else tags ++ [tag]) []

end Equation

end OfficeMath
