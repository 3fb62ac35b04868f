import OfficeMath.Equation.Construct
import OfficeMath.Equation.RunStyle
import OfficeMath.Latex.Symbol

/-! What an element says by itself of the construct that it is: the construct, and the properties that are read
    from its element of properties and its attributes. The parts of the construct come from its children. -/

namespace OfficeMath

/-- A piece of text and its style. -/
structure Run where
  source : String
  style : RunStyle
  deriving DecidableEq, Repr

/-- The text of the run in LaTeX, before its style is applied. -/
def Run.latex (r : Run) : String := Latex.convertText r.source

/-- The ways to write a fraction: with a bar, without one, in a line, or with a slanted bar. -/
inductive FractionStyle where
  | bar | noBar | linear | skewed
  deriving DecidableEq, Repr

/-- The fences of a delimiter, the separator of its segments, and whether the fences grow with what they
    enclose. A closing fence or a separator is present if it is given. -/
structure Fence where
  opening : String
  closing? : Option String
  separator : Option String
  grows : Bool
  deriving DecidableEq, Repr

/-- The closing fence, which is a parenthesis where none is given. -/
def Fence.closing (f : Fence) : String := f.closing?.getD ")"

/-- Where the limits of a large operator stand: under and over it, or beside it. -/
inductive LimitLocation where
  | underOver | subSup
  deriving DecidableEq, Repr

/-- A large operator, with the limits that are not shown. -/
structure LargeOperator where
  sign : Option String
  limits : Option LimitLocation
  hideSub : Bool
  hideSup : Bool
  deriving DecidableEq, Repr

/-- Above or below. -/
inductive VerticalPosition where
  | top | bottom
  deriving DecidableEq, Repr

/-- A construct with what its element says of it. -/
inductive Form where
  | generic
  | run (run : Run)
  | fraction (style : FractionStyle)
  | radical (hideDegree : Bool)
  | script
  | preScript
  | delimiter (fence : Fence)
  | function
  | nary (operator : LargeOperator)
  | matrix
  | matrixRow
  | limit (upper : Bool)
  | equationArray
  | accent (mark : Option String)
  | bar (position : VerticalPosition)
  | box (bordered : Bool)
  | groupCharacter (sign : Option String) (position : Option VerticalPosition)
  | phantom (isShown : Bool)
  deriving DecidableEq, Repr

/-- The fraction style that a value names; a fraction has a bar unless another style is named. -/
def FractionStyle.ofValue : Option String → FractionStyle
  | some "noBar" => noBar
  | some "lin" => linear
  | some "skw" => skewed
  | _ => bar

/-- The place of limits that a value names. -/
def LimitLocation.ofValue? : Option String → Option LimitLocation
  | some "undOvr" => some underOver
  | some "subSup" => some subSup
  | _ => none

/-- The position that a value names. -/
def VerticalPosition.ofValue? : Option String → Option VerticalPosition
  | some "top" => some top
  | some "bot" => some bottom
  | _ => none

/-- The text of a run is that of its elements `t`; its style is plain italic unless it has properties. -/
def Run.ofElement (e : Xml.Element) : Run where
  source := String.join ((e.elements.filter (·.isTag "t")).map (·.text))
  style := ((e.child? "rPr").map RunStyle.ofProperties).getD {}

/-- The fences stand in the properties, or else on the element itself. -/
def Fence.ofElement (e : Xml.Element) : Fence where
  opening := ((propertyValue? e "dPr" "begChr").or (e.attribute? "begChr")).getD "("
  closing? := (propertyValue? e "dPr" "endChr").or (e.attribute? "endChr")
  separator := propertyValue? e "dPr" "sepChr"
  grows := hasProperty e "dPr" "grow"

/-- The operator that the properties describe. -/
def LargeOperator.ofElement (e : Xml.Element) : LargeOperator where
  sign := propertyValue? e "naryPr" "chr"
  limits := LimitLocation.ofValue? (propertyValue? e "naryPr" "limLoc")
  hideSub := hasProperty e "naryPr" "subHide"
  hideSup := hasProperty e "naryPr" "supHide"

namespace Form

/-- What an element says of the construct. -/
def ofConstruct (c : Construct) (e : Xml.Element) : Form :=
  match c with
  | .run => run (Run.ofElement e)
  | .fraction => fraction (FractionStyle.ofValue (propertyValue? e "fPr" "type"))
  | .radical => radical (hasProperty e "radPr" "degHide")
  | .subscript | .superscript | .subSuperscript => script
  | .preScript => preScript
  | .delimiter => delimiter (Fence.ofElement e)
  | .function => function
  | .nary => nary (LargeOperator.ofElement e)
  | .matrix => matrix
  | .matrixRow => matrixRow
  | .lowerLimit => limit false
  | .upperLimit => limit true
  | .equationArray => equationArray
  | .accent => accent (propertyValue? e "accPr" "chr")
  | .bar => bar ((VerticalPosition.ofValue? (propertyValue? e "barPr" "pos")).getD .top)
  | .box => box false
  | .borderBox => box true
  | .groupCharacter =>
    groupCharacter (propertyValue? e "groupChrPr" "chr")
      (VerticalPosition.ofValue? (propertyValue? e "groupChrPr" "pos"))
  | .phantom => phantom ((property? e "phantPr" "show").all fun s => isOn (some s))

/-- The construct of an element: the one that its tag stands for, if it is an element of office math. -/
def construct? (e : Xml.Element) : Option Construct := if e.isMath then Construct.ofTag? e.tag else none

/-- The form of an element; one that is no construct only holds other elements. -/
def ofElement (e : Xml.Element) : Form :=
  match construct? e with
  | some c => ofConstruct c e
  | none => generic

/-- The form is that of a run, whose children are read as its text and not as constructs. -/
def isRun : Form → Bool
  | run _ => true
  | _ => false

end Form

end OfficeMath
