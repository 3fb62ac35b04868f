import OfficeMath.Equation.Node

/-! The constructs of an equation with their parts. The form of a node says what construct it is, and its parts are
    found among its children by their tags: a part in one container is the first child with that tag if it has
    content, the rows and arguments are all children with a tag, and a delimiter cuts its content into segments. -/

namespace OfficeMath

/-- A construct and its parts, which are given by references of the type `ρ`. -/
inductive Kind (ρ : Type) where
  | generic
  | run (run : Run)
  | fraction (style : FractionStyle) (numerator denominator : Option ρ)
  | radical (hideDegree : Bool) (base degree : Option ρ)
  | script (base sub sup : Option ρ)
  | preScript (base sub sup : Option ρ)
  | delimiter (fence : Fence) (segments : List (List ρ))
  | function (name : Option ρ) (arguments : List ρ)
  | nary (operator : LargeOperator) (sub sup base : Option ρ)
  | matrix (rows : List ρ)
  | matrixRow (cells : List ρ)
  | limit (upper : Bool) (base limit : Option ρ)
  | equationArray (rows : List ρ)
  | accent (mark : Option String) (base : Option ρ)
  | bar (position : VerticalPosition) (base : Option ρ)
  | box (bordered : Bool) (base : Option ρ)
  | groupCharacter (sign : Option String) (position : Option VerticalPosition) (base : Option ρ)
  | phantom (isShown : Bool) (base : Option ρ)

namespace Node

variable {α : Type}

/-- The node belongs to a segment of a delimiter that it shares with its neighbours: it is neither an `e`, which
    is a segment by itself, nor a mark between segments. -/
def isLoose (n : Node α) : Bool := !n.isTag "e" && !n.isTag "sep"

/-- The content of a delimiter in segments: every `e` is one, and so is every run of loose nodes. -/
def segments (n : Node α) : List (List (Node α)) :=
  (n.contentChildren.splitBy fun a b => a.isLoose && b.isLoose).filter fun s => !s.any (·.isTag "sep")

/-- The only node in the only segment of a delimiter. -/
def soleContent? (n : Node α) : Option (Node α) :=
  match n.segments with
  | [[c]] => some c
  | _ => none

/-- The construct that the node is, with its parts. -/
def kind (n : Node α) : Kind (Node α) :=
  match n.form with
  | .generic => .generic
  | .run r => .run r
  | .fraction style => .fraction style (n.contentChild? "num") (n.contentChild? "den")
  | .radical hideDegree => .radical hideDegree (n.contentChild? "e") (n.contentChild? "deg")
  | .script => .script (n.contentChild? "e") (n.contentChild? "sub") (n.contentChild? "sup")
  | .preScript => .preScript (n.contentChild? "e") (n.contentChild? "sub") (n.contentChild? "sup")
  | .delimiter fence => .delimiter fence n.segments
  | .function => .function (n.contentChild? "fName") ((n.childrenTagged "e").filter hasContent)
  | .nary operator => .nary operator (n.contentChild? "sub") (n.contentChild? "sup") (n.contentChild? "e")
  | .matrix => .matrix (n.childrenTagged "mr")
  | .matrixRow => .matrixRow (n.childrenTagged "e")
  | .limit upper => .limit upper (n.contentChild? "e") (n.contentChild? "lim")
  | .equationArray => .equationArray ((n.childrenTagged "e").filter hasContent)
  | .accent mark => .accent mark (n.contentChild? "e")
  | .bar position => .bar position (n.contentChild? "e")
  | .box bordered => .box bordered (n.contentChild? "e")
  | .groupCharacter sign position => .groupCharacter sign position (n.contentChild? "e")
  | .phantom isShown => .phantom isShown (n.contentChild? "e")

end Node

end OfficeMath
