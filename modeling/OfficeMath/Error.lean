import OfficeMath.Xml.Malformed
import OfficeMath.Xml.Name

/-! What can go wrong between the text of an equation and its LaTeX, in words and as the marker that takes the
    place of the LaTeX. -/

namespace OfficeMath

/-- Why there is no equation. -/
inductive Error where
  | malformed (cause : Xml.Malformed)
  | undefinedEntity (name : String)
  | unexpectedClosingTag
  | textOutsideRoot
  | contentAfterRoot
  | emptyInput
  | unclosedElements (count : Nat)
  | tooDeep (limit : Nat)
  | notMath (found : Xml.Name)
  deriving DecidableEq, Repr

namespace Error

/-- What is wrong with text that is not well-formed, where that is the error. -/
def complaint? : Error → Option String
  | malformed cause => some cause.message
  | undefinedEntity name => some ("undefined entity: &" ++ name ++ ";")
  | unexpectedClosingTag => some "unexpected closing tag"
  | textOutsideRoot => some "text content outside the root element"
  | contentAfterRoot => some "junk after document element"
  | _ => none

/-- The error in words. -/
def message (e : Error) : String :=
  match e with
  | emptyInput => "Empty XML input"
  | unclosedElements count => "Unclosed elements detected, final depth: " ++ toString count
  | tooDeep limit => "XML depth limit exceeded: " ++ toString limit
  | notMath found => "Expected an oMath element, found " ++ found.clark
  | e => "XML parsing error: " ++ e.complaint?.getD ""

/-- The marker for text that is not well-formed. -/
def parseMarker : String := "[OMML Parse Error]"

/-- The marker for an equation that cannot be converted. -/
def conversionMarker : String := "[OMML Conversion Error]"

/-- The marker for an element that is no equation. -/
def notMathMarker : String := "[Error: Not an oMath element]"

/-- The marker that takes the place of the LaTeX. -/
def marker : Error → String
  | tooDeep _ => conversionMarker
  | notMath _ => notMathMarker
  | _ => parseMarker

end Error

end OfficeMath
