import OfficeMath.Store.Query
import OfficeMath.Xml.Element

/-! Building a store from an element. A node is put into the store before its children, and first without the parts of
    its construct: these are looked up when the children are there, and the construct is then put into the node. -/

namespace OfficeMath
namespace Store

/-- Looks up the parts of a construct among the children of its node. -/
def resolve (s : Store) (id : Nat) : Form → Except Fault (Kind Nat)
  | .generic => return .generic
  | .run r => return .run r
  | .fraction style => return .fraction style (← s.contentChild id "num") (← s.contentChild id "den")
  | .radical hideDegree => return .radical hideDegree (← s.contentChild id "e") (← s.contentChild id "deg")
  | .script => return .script (← s.contentChild id "e") (← s.contentChild id "sub") (← s.contentChild id "sup")
  | .preScript => return .preScript (← s.contentChild id "e") (← s.contentChild id "sub") (← s.contentChild id "sup")
  | .delimiter fence => return .delimiter fence (← s.segments id)
  | .function => return .function (← s.contentChild id "fName") (← s.contentChildrenTagged id "e")
  | .nary operator =>
    return .nary operator (← s.contentChild id "sub") (← s.contentChild id "sup") (← s.contentChild id "e")
  | .matrix => return .matrix (← s.childrenTagged id "mr")
  | .matrixRow => return .matrixRow (← s.childrenTagged id "e")
  | .limit upper => return .limit upper (← s.contentChild id "e") (← s.contentChild id "lim")
  | .equationArray => return .equationArray (← s.contentChildrenTagged id "e")
  | .accent mark => return .accent mark (← s.contentChild id "e")
  | .bar position => return .bar position (← s.contentChild id "e")
  | .box bordered => return .box bordered (← s.contentChild id "e")
  | .groupCharacter sign position => return .groupCharacter sign position (← s.contentChild id "e")
  | .phantom isShown => return .phantom isShown (← s.contentChild id "e")

/-- A node without children and without parts. -/
def placeholder (e : Xml.Element) (parent : Option Nat) : Cell := ⟨e.tag, e.isMath, parent, [], .generic⟩

mutual

/-- Adds the nodes of an element at the depth, which must be below the limit, and gives the number of its node. -/
def add (limit depth : Nat) (parent : Option Nat) (s : Store) : Xml.Element → Except Fault (Store × Nat)
  | .mk name attributes content => do
    if limit ≤ depth then throw (.refused (.tooDeep limit))
    let form := Form.ofElement (.mk name attributes content)
    let id := s.cells.length
    let s ← s.push (placeholder (.mk name attributes content) parent)
    let s ← if form.isRun then pure s else addAll limit (depth + 1) id s content
    let kind ← s.resolve id form
    let s ← s.update id fun c => { c with kind := kind }
    return (s, id)

/-- Adds the nodes of the elements among the items of a node. -/
def addAll (limit depth id : Nat) (s : Store) : List Xml.Content → Except Fault Store
  | [] => return s
  | .element e :: content => do
    let (s, child) ← add limit depth (some id) s e
    let s ← s.update id fun c => { c with children := c.children ++ [child] }
    addAll limit depth id s content
  | _ :: content => addAll limit depth id s content

end

/-- Adds the elements among the items as roots. -/
def addRoots (limit : Nat) (s : Store) : List Xml.Content → Except Fault Store
  | [] => return s
  | .element e :: content => do
    let (s, root) ← add limit 1 none s e
    addRoots limit { s with roots := s.roots ++ [root] } content
  | _ :: content => addRoots limit s content

/-- The store of the equation that an element holds or is. -/
def ofElement (limit : Nat) (e : Xml.Element) : Except Fault Store := do
  if e.isTag "oMath" then addRoots limit empty e.content
  else
    let (s, root) ← add limit 0 none empty e
    return { s with roots := [root] }

end Store
end OfficeMath
