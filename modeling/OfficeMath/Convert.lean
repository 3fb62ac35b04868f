import OfficeMath.Equation.Reading
import OfficeMath.Typeset.Application
import OfficeMath.Typeset.Array
import OfficeMath.Typeset.Decoration
import OfficeMath.Typeset.Text

/-! From an equation of office math to LaTeX. A tree is set from its leaves up: every node gets its LaTeX as its note,
    from the LaTeX of its children and from the fence that encloses it and nothing else. The conversions of texts and
    elements always give a text: where there is no equation, it is the marker of the error. -/

namespace OfficeMath

/-- The choices of a conversion: how deep elements may nest, and the environment of an array of equations that is no
    distinction of cases. -/
structure Options where
  maxDepth : Nat := 1000
  equationArray : ArrayEnvironment := .aligned
  deriving DecidableEq, Repr

namespace Node

/-- The LaTeX of the rows of a matrix, cell by cell. -/
def cellsOf (rows : List (Node String)) : List (List String) :=
  rows.map fun r =>
    match r.kind with
    | .matrixRow cells => cells.map note
    | _ => []

/-- The LaTeX of a node whose children carry theirs; the note of the node itself is not looked at. -/
def latexOf (choice : ArrayEnvironment) (fence : Option Fence) (n : Node String) : String :=
  match n.kind with
  | .generic => Latex.joinFragments (n.contentChildren.map note)
  | .run r => Typeset.run r
  | .fraction style num den => Typeset.fraction style (num.map note) (den.map note)
  | .radical hideDegree base degree => Typeset.radical hideDegree (base.map note) (degree.map note)
  | .script base sub sup => Typeset.script (base.map note) (sub.map note) (sup.map note)
  | .preScript base sub sup => Typeset.preScript (base.map note) (sub.map note) (sup.map note)
  | .delimiter own segments =>
    Typeset.delimiter own ((n.absorbedContent? own).map note) (segments.map fun s => s.map note)
  | .function name arguments => Typeset.function name arguments
  | .nary operator sub sup base => Typeset.nary operator (sub.map note) (sup.map note) (base.map note)
  | .matrix rows => Typeset.matrix fence (cellsOf rows)
  | .matrixRow cells => Latex.row (cells.map note)
  | .limit upper base limit =>
    Typeset.limit upper ((base.bind plainText?).bind Latex.functionCommand?) (base.map note) (limit.map note)
  | .equationArray rows => Typeset.equationArray choice fence (rows.map note)
  | .accent mark base => Typeset.accent mark (base.map note)
  | .bar position base => Typeset.bar position (base.map note)
  | .box _ base => Typeset.box (base.map note)
  | .groupCharacter sign position base => Typeset.groupCharacter sign position (base.map note)
  | .phantom isShown base => Typeset.phantom isShown (base.map note)

variable {α : Type}

mutual

/-- The tree with the LaTeX of every node as its note. -/
def typeset (choice : ArrayEnvironment) (enclosure : Enclosure α) : Node α → Node String
  | n@(mk head _ children) =>
    let inner := typesetAll choice (enclosure.inside n) children
    mk head (latexOf choice enclosure.fence? (mk head "" inner)) inner

/-- The trees with the LaTeX of every node as its note. -/
def typesetAll (choice : ArrayEnvironment) (enclosure : Enclosure α) : List (Node α) → List (Node String)
  | [] => []
  | n :: ns => n.typeset choice enclosure :: typesetAll choice enclosure ns

end

end Node

namespace Equation

/-- The trees of the equation with the LaTeX of every node as its note. -/
def typeset (options : Options) (q : Equation) : List (Node String) :=
  Node.typesetAll options.equationArray .none q.roots

/-- The LaTeX of the equation. -/
def latex (options : Options) (q : Equation) : String :=
  Latex.joinFragments ((q.typeset options).map Node.note)

/-- The LaTeX of the node with the number, and the empty text for a number that no node has. -/
def nodeLatex (options : Options) (q : Equation) (id : Nat) : String :=
  ((Node.preorderAll (q.typeset options))[id]?.map Node.note).getD ""

end Equation

/-- The LaTeX of an equation, or the marker of the error in its place. -/
def latexOrMarker (options : Options) (q : Except Error Equation) : String :=
  match q with
  | .ok q => q.latex options
  | .error e => e.marker

/-- The LaTeX of the equation that a text describes. -/
def latexOfText (options : Options) (xml : String) : String :=
  latexOrMarker options (Equation.read options.maxDepth xml)

/-- The LaTeX of an `oMath` element. -/
def latexOfMathElement (e : Xml.Element) : String := latexOrMarker {} (Equation.ofMathElement ({} : Options).maxDepth e)

/-- The LaTeX of an element of any kind. -/
def latexOfElement (e : Xml.Element) : String := latexOrMarker {} (Equation.ofElement ({} : Options).maxDepth e)

end OfficeMath
