import OfficeMath.Store.Query
import OfficeMath.Typeset.Application
import OfficeMath.Typeset.Array
import OfficeMath.Typeset.Decoration
import OfficeMath.Typeset.Text

/-! The LaTeX of the nodes in a store. A node is set from the nodes that it refers to as its content or as the parts of
    its construct, and these in the same way; the number of steps bounds how far this goes. -/

namespace OfficeMath
namespace Store

variable (s : Store)

section Parts

-- how the nodes that a construct refers to are set
variable (render : Nat → Except Fault String)

def renderPart : Option Nat → Except Fault (Option String)
  | none => return none
  | some id => return some (← render id)

/-! ### Functions -/

/-- The operator of a node that is typed as plain text. -/
def plainName (id : Nat) : Except Fault (Option String) := return (← s.plainText id).bind Latex.plainOperator?

/-- The operator of a name that holds nothing but scripts on a plain name. -/
def scriptedName (id : Nat) : Except Fault (Option String) := do
  match ← s.onlyContentChild id with
  | none => return none
  | some child =>
    match (← s.cell child).kind with
    | .script (some base) sub sup =>
      match ← s.plainName base with
      | none => return none
      | some name => return some (name ++ Typeset.scripts (← renderPart render sub) (← renderPart render sup))
    | _ => return none

/-- The LaTeX of the name of a function. -/
def functionName (id : Nat) : Except Fault String := do
  match ← s.plainName id with
  | some name => return name
  | none =>
    match ← s.scriptedName render id with
    | some name => return name
    | none => return Typeset.renderedName (← render id)

/-- The argument is one delimiter, so that it has fences of its own. -/
def isFencedArgument (id : Nat) : Except Fault Bool := do
  match ← s.onlyContentChild id with
  | none => return false
  | some child => return (← s.cell child).isDelimiter

/-- A named function with its arguments, of which a single one is looked at for fences. -/
def renderApplication (name : String) (arguments : List Nat) (latex : List String) : Except Fault String := do
  match arguments, latex with
  | [id], [argument] =>
    if name = "\\lim" then return Latex.command "\\lim_" argument
    else if name.toList.contains '_' then return name ++ " " ++ argument
    else if ← s.isFencedArgument id then return Latex.pushFragment name argument
    else return name ++ "(" ++ argument ++ ")"
  | _, [] => return name
  | _, _ =>
    if name.toList.contains '_' then return name ++ " " ++ " ".intercalate latex
    else return name ++ "(" ++ ", ".intercalate latex ++ ")"

def renderFunction (name : Option Nat) (arguments : List Nat) : Except Fault String := do
  let latex ← arguments.mapM render
  match name with
  | none => return Typeset.namelessFunction latex
  | some id => s.renderApplication (← s.functionName render id) arguments latex

/-! ### Constructs -/

/-- The LaTeX of the cells of a node in a matrix, if it is a row. -/
def renderCells (id : Nat) : Except Fault (List String) := do
  match (← s.cell id).kind with
  | .matrixRow cells => cells.mapM render
  | _ => return []

/-- The operator that the base of a limit names. -/
def limitFunction : Option Nat → Except Fault (Option String)
  | none => return none
  | some id => return (← s.plainText id).bind Latex.functionCommand?

/-- The LaTeX of a delimiter, which leaves out its fences if what it encloses brings them. -/
def renderDelimiter (fence : Fence) (segments : List (List Nat)) : Except Fault String := do
  match ← s.absorbedContent fence segments with
  | some content => render content
  | none =>
    let latex ← segments.mapM fun segment => segment.mapM render
    return Typeset.fenced fence (Typeset.joinSegments (Typeset.segmentSeparator fence.separator) latex)

/-- The LaTeX of the construct that the node with the number is. -/
def renderKind (choice : ArrayEnvironment) (id : Nat) : Kind Nat → Except Fault String
  | .generic => return Latex.joinFragments (← (← s.contentChildren id).mapM render)
  | .run r => return Typeset.run r
  | .fraction style num den => return Typeset.fraction style (← renderPart render num) (← renderPart render den)
  | .radical hideDegree base degree =>
    return Typeset.radical hideDegree (← renderPart render base) (← renderPart render degree)
  | .script base sub sup =>
    return Typeset.script (← renderPart render base) (← renderPart render sub) (← renderPart render sup)
  | .preScript base sub sup =>
    return Typeset.preScript (← renderPart render base) (← renderPart render sub) (← renderPart render sup)
  | .delimiter fence segments => s.renderDelimiter render fence segments
  | .function name arguments => s.renderFunction render name arguments
  | .nary operator sub sup base =>
    return Typeset.nary operator (← renderPart render sub) (← renderPart render sup) (← renderPart render base)
  | .matrix rows => do
    let latex ← rows.mapM (s.renderCells render)
    return Typeset.matrix (← s.enclosingFence id) latex
  | .matrixRow cells => return Latex.row (← cells.mapM render)
  | .limit upper base limit =>
    return Typeset.limit upper (← s.limitFunction base) (← renderPart render base) (← renderPart render limit)
  | .equationArray rows => return Typeset.equationArray choice (← s.enclosingFence id) (← rows.mapM render)
  | .accent mark base => return Typeset.accent mark (← renderPart render base)
  | .bar position base => return Typeset.bar position (← renderPart render base)
  | .box _ base => return Typeset.box (← renderPart render base)
  | .groupCharacter sign position base => return Typeset.groupCharacter sign position (← renderPart render base)
  | .phantom isShown base => return Typeset.phantom isShown (← renderPart render base)

end Parts

/-! ### Stores -/

/-- The LaTeX of the node with the number, in no more than the given number of steps from a node to one it refers
    to. -/
def render (choice : ArrayEnvironment) : Nat → Nat → Except Fault String
  | 0, _ => throw .outOfSteps
  | steps + 1, id => do s.renderKind (render choice steps) choice id (← s.cell id).kind

/-- The number of steps that are enough from the node with the number on. -/
def stepsFrom (id : Nat) : Nat := s.cells.length - id

/-- The LaTeX of the roots, one pushed after the other. -/
def latex (choice : ArrayEnvironment) : Except Fault String :=
  return Latex.joinFragments (← s.roots.mapM fun root => s.render choice (s.stepsFrom root) root)

/-- The LaTeX of the node with the number, and the empty text for a number that no node has. -/
def nodeLatex (choice : ArrayEnvironment) (id : Nat) : Except Fault String :=
  match s.cells[id]? with
  | none => return ""
  | some _ => s.render choice (s.stepsFrom id) id

/-! ### Unrecognized tags -/

/-- The node should have been a construct or a known container, but it is neither, nor has it to do with
    properties. -/
def isUnrecognized (c : Cell) : Except Fault Bool := do
  match c.kind with
  | .generic =>
    if c.isProperty || c.isMath && containerTags.contains c.tag then return false
    match c.parent with
    | none => return true
    | some parent => return !(← s.cell parent).isProperty
  | _ => return false

/-- Adds the tags of the nodes that are not recognized, each once. -/
def unrecognizedFrom (tags : List String) : List Cell → Except Fault (List String)
  | [] => return tags
  | c :: cells => do
    if ← s.isUnrecognized c then unrecognizedFrom (if tags.contains c.tag then tags else tags ++ [c.tag]) cells
    else unrecognizedFrom tags cells

/-- The tags that are not recognized, each once, in the order of their first occurrence. -/
def unrecognizedTags : Except Fault (List String) := s.unrecognizedFrom [] s.cells

end Store
end OfficeMath
