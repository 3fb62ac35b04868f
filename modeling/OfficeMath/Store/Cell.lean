import Mathlib
import OfficeMath.Equation.Kind
import OfficeMath.Error

/-! Stores of nodes. The nodes of an equation stand in one list and refer to each other by their numbers, which are
    their places in the list. Every access to a node is checked, so that it can be proved that none goes amiss. -/

namespace OfficeMath

/-- A node in a store: what it says by itself, the numbers of its parent and its children, and the construct that it
    is, with the numbers of the parts. -/
structure Cell where
  tag : String
  isMath : Bool
  parent : Option Nat
  children : List Nat
  kind : Kind Nat

namespace Cell

/-- The node is the element of office math with the given tag. -/
def isTag (c : Cell) (tag : String) : Bool := c.isMath && c.tag == tag

/-- The node is an element of properties. -/
def isProperty (c : Cell) : Bool := c.isMath && isPropertyTag c.tag

/-- The node is a delimiter. -/
def isDelimiter (c : Cell) : Bool :=
  match c.kind with
  | .delimiter _ _ => true
  | _ => false

/-- The text of the run that the node is, if it is one. -/
def source? (c : Cell) : Option String :=
  match c.kind with
  | .run r => some r.source
  | _ => none

end Cell

/-- Why work on a store comes to nothing: a number that no node has, no steps left, no number left for a new node, or
    an element that is refused. -/
inductive Fault where
  | outOfRange (id : Nat)
  | outOfSteps
  | full
  | refused (error : Error)

/-- Nodes in the order of their numbers, and the numbers of the roots. -/
structure Store where
  cells : List Cell
  roots : List Nat

namespace Store

/-- The store without nodes. -/
def empty : Store := ⟨[], []⟩

/-- The node with the number. -/
def cell (s : Store) (id : Nat) : Except Fault Cell :=
  match s.cells[id]? with
  | some c => .ok c
  | none => .error (.outOfRange id)

/-- How many numbers there are for nodes. -/
def capacity : Nat := 2 ^ 32

/-- Puts a node after those there are. -/
def push (s : Store) (c : Cell) : Except Fault Store :=
  if s.cells.length < capacity then .ok { s with cells := s.cells ++ [c] } else .error .full

/-- Changes the node with the number. -/
def update (s : Store) (id : Nat) (change : Cell → Cell) : Except Fault Store :=
  if id < s.cells.length then .ok { s with cells := s.cells.modify id change } else .error (.outOfRange id)

end Store

end OfficeMath
