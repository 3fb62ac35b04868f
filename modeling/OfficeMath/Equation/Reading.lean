import OfficeMath.Equation.Outline
import OfficeMath.Xml.Document

/-! Equations from elements. Every element becomes a node, and so do the elements in it unless it is a run, whose
    text has been read already. The content of an `oMath` makes up an equation, and any other element is an
    equation of one tree. Elements that nest too deep are refused. -/

namespace OfficeMath

namespace Node

mutual

/-- The tree of an element at the depth, which must be below the limit. -/
def read (limit depth : Nat) : Xml.Element → Except Error (Node Unit)
  | .mk name attributes content =>
    if limit ≤ depth then .error (.tooDeep limit)
    else
      let head := Head.ofElement (.mk name attributes content)
      if head.form.isRun then .ok (.mk head () [])
      else
        match readAll limit (depth + 1) content with
        | .error e => .error e
        | .ok children => .ok (.mk head () children)

/-- The trees of the elements among the items that an element holds, all at the depth. -/
def readAll (limit depth : Nat) : List Xml.Content → Except Error (List (Node Unit))
  | [] => .ok []
  | .element e :: content =>
    match read limit depth e with
    | .error e => .error e
    | .ok n =>
      match readAll limit depth content with
      | .error e => .error e
      | .ok ns => .ok (n :: ns)
  | _ :: content => readAll limit depth content

end

end Node

namespace Equation

/-- The equation that an element holds or is. -/
def ofElement (limit : Nat) (e : Xml.Element) : Except Error Equation :=
  if e.isTag "oMath" then (Node.readAll limit 1 e.content).map Equation.mk
  else (Node.read limit 0 e).map fun n => ⟨[n]⟩

/-- The equation of an element that must be an `oMath`. -/
def ofMathElement (limit : Nat) (e : Xml.Element) : Except Error Equation :=
  if e.isTag "oMath" then ofElement limit e else .error (.notMath e.name)

/-- The equation that a text describes. -/
def read (limit : Nat) (xml : String) : Except Error Equation :=
  if Text.isBlankText xml then .error .emptyInput
  else (Xml.Element.read limit xml).bind (ofElement limit)

end Equation

end OfficeMath
