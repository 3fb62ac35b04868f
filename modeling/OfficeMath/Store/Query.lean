import OfficeMath.Equation.Enclosure
import OfficeMath.Store.Cell

/-! What is looked up in a store: children by their tags and by being content, plain text, the segments of a delimiter,
    and from both sides how a delimiter and the array in it stand to each other. -/

namespace OfficeMath
namespace Store

variable (s : Store)

/-! ### Children -/

def isTag (id : Nat) (tag : String) : Except Fault Bool := return (← s.cell id).isTag tag

def isContent (id : Nat) : Except Fault Bool := return !(← s.cell id).isProperty

/-- The numbers that pass a test. -/
def select (test : Nat → Except Fault Bool) : List Nat → Except Fault (List Nat)
  | [] => return []
  | id :: ids => do
    let passes ← test id
    let rest ← select test ids
    return if passes then id :: rest else rest

/-- The children of the node with the given tag. -/
def childrenTagged (id : Nat) (tag : String) : Except Fault (List Nat) := do
  let c ← s.cell id
  select (fun child => s.isTag child tag) c.children

/-- The children of the node that are no elements of properties. -/
def contentChildren (id : Nat) : Except Fault (List Nat) := do
  let c ← s.cell id
  select s.isContent c.children

def hasContent (id : Nat) : Except Fault Bool := return !(← s.contentChildren id).isEmpty

/-- The first child with the given tag, if it has content. -/
def contentChild (id : Nat) (tag : String) : Except Fault (Option Nat) := do
  match (← s.childrenTagged id tag).head? with
  | none => return none
  | some child => return if ← s.hasContent child then some child else none

/-- The children with the given tag that have content. -/
def contentChildrenTagged (id : Nat) (tag : String) : Except Fault (List Nat) := do
  select s.hasContent (← s.childrenTagged id tag)

/-- The only child that is no element of properties. -/
def onlyContentChild (id : Nat) : Except Fault (Option Nat) := do
  match ← s.contentChildren id with
  | [child] => return some child
  | _ => return none

/-- The text of the run that the node is, if it is one. -/
def source (id : Nat) : Except Fault (Option String) := return (← s.cell id).source?

/-- The text of a run, or of a node whose content is one run or more and nothing else. -/
def plainText (id : Nat) : Except Fault (Option String) := do
  match ← s.source id with
  | some source => return some source
  | none =>
    match ← s.contentChildren id with
    | [] => return none
    | children =>
      let sources ← children.mapM s.source
      return (sources.mapM fun source => source).map String.join

/-! ### Delimiters -/

/-- Puts loose nodes that have been gathered into a segment before the others. -/
def flush (loose : List Nat) (segments : List (List Nat)) : List (List Nat) :=
  if loose.isEmpty then segments else loose :: segments

/-- The content of a delimiter in segments: every `e` is one, and so are the loose nodes that have been gathered when
    an `e`, a mark or the end comes. -/
def segmentsFrom (loose : List Nat) : List Nat → Except Fault (List (List Nat))
  | [] => return flush loose []
  | child :: children => do
    if ← s.isTag child "e" then return flush loose ([child] :: (← segmentsFrom [] children))
    else if ← s.isTag child "sep" then return flush loose (← segmentsFrom [] children)
    else segmentsFrom (loose ++ [child]) children

/-- The segments of a delimiter. -/
def segments (id : Nat) : Except Fault (List (List Nat)) := do s.segmentsFrom [] (← s.contentChildren id)

/-- The only node in the only segment. -/
def soleContent? : List (List Nat) → Option Nat
  | [[c]] => some c
  | _ => none

/-- What a delimiter wraps, if that is one node: its sole content, or what that holds if it is an `e`. -/
def wrappedContent (segments : List (List Nat)) : Except Fault (Option Nat) := do
  match soleContent? segments with
  | none => return none
  | some sole => if ← s.isTag sole "e" then s.onlyContentChild sole else return some sole

/-- The node in the delimiter that brings the fence itself. -/
def absorbedContent (fence : Fence) (segments : List (List Nat)) : Except Fault (Option Nat) := do
  match ← s.wrappedContent segments with
  | none => return none
  | some content =>
    match (← s.cell content).kind with
    | .matrix _ => return if fence.matrixFence != .none then some content else none
    | .equationArray _ => return if fence.isCases then some content else none
    | _ => return none

/-- The fence of the delimiter that has the number, if its sole content is the node. -/
def fenceAround (delimiter id : Nat) : Except Fault (Option Fence) := do
  match (← s.cell delimiter).kind with
  | .delimiter fence segments => return if soleContent? segments = some id then some fence else none
  | _ => return none

/-- The fence of the delimiter that encloses the node and nothing else, either directly or through one `e`. -/
def enclosingFence (id : Nat) : Except Fault (Option Fence) := do
  match (← s.cell id).parent with
  | none => return none
  | some parent =>
    let c ← s.cell parent
    if c.isDelimiter then s.fenceAround parent id
    else if c.isTag "e" && (← s.onlyContentChild parent).isSome then
      match c.parent with
      | none => return none
      | some grandparent => s.fenceAround grandparent parent
    else return none

end Store
end OfficeMath
