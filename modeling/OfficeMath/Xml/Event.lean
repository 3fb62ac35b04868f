import OfficeMath.Xml.Scope
import OfficeMath.Xml.Token

/-! Events of XML text: tokens of which the tags have been looked into. The names of elements are resolved by
    the namespaces in scope, and every end tag is checked against the start tag it closes, so the events nest. -/

namespace OfficeMath
namespace Xml

/-- A start tag: the qualified name as written, the bindings in scope inside the element, the name, and the
    attributes up to the first fault in them. -/
structure StartTag where
  qualified : List Char
  scope : Scope
  attributes : List RawAttribute
  fault : Option Malformed

namespace StartTag

/-- Looks into the body of a start tag that stands in the scope. -/
def ofBody (outer : Scope) (body : List Char) : Except Malformed StartTag :=
  let (attributes, fault) := RawAttribute.scan (body.dropWhile fun c => !isSpace c)
  (outer.declareAll attributes).map fun scope =>
    { qualified := body.takeWhile fun c => !isSpace c, scope, attributes, fault }

/-- The name of the element. -/
def name (tag : StartTag) : Name := tag.scope.elementName tag.qualified

end StartTag

/-- An event. -/
inductive Event where
  | start (tag : StartTag)
  | empty (tag : StartTag)
  | close
  | text (s : String)
  | reference (name : List Char)
  | comment (s : String)
  | instruction (s : String)

/-- The events of a text up to its first fault, and that fault if there is one. -/
structure Events where
  events : List Event
  fault : Option Malformed

namespace Events

/-- No event, and the fault if there is one. -/
def stop (fault : Option Malformed) : Events := ⟨[], fault⟩

/-- The event and those after it. -/
def next (e : Event) (rest : Events) : Events := ⟨e :: rest.events, rest.fault⟩

/-- The bindings in scope inside the innermost of the open elements. -/
def scopeOf : List StartTag → Scope
  | [] => Scope.initial
  | tag :: _ => tag.scope

/-- The events of the tokens inside the open elements, the innermost first. -/
def ofTokens (opened : List StartTag) (tokens : List Token) (fault : Option Malformed) : Events :=
  match tokens with
  | [] => stop fault
  | .startTag body :: tokens =>
    match StartTag.ofBody (scopeOf opened) body with
    | .error e => stop (some e)
    | .ok tag => next (.start tag) (ofTokens (tag :: opened) tokens fault)
  | .emptyTag body :: tokens =>
    match StartTag.ofBody (scopeOf opened) body with
    | .error e => stop (some e)
    | .ok tag => next (.empty tag) (ofTokens opened tokens fault)
  | .endTag name :: tokens =>
    match opened with
    | [] => stop (some (.unmatchedEndTag (String.ofList name)))
    | tag :: opened =>
      if tag.qualified = name then next .close (ofTokens opened tokens fault)
      else stop (some (.mismatchedEndTag (String.ofList tag.qualified) (String.ofList name)))
  | .text chars :: tokens => next (.text (String.ofList chars)) (ofTokens opened tokens fault)
  | .reference name :: tokens => next (.reference name) (ofTokens opened tokens fault)
  | .characterData chars :: tokens => next (.text (String.ofList chars)) (ofTokens opened tokens fault)
  | .comment chars :: tokens => next (.comment (String.ofList chars)) (ofTokens opened tokens fault)
  | .instruction chars :: tokens => next (.instruction (String.ofList chars)) (ofTokens opened tokens fault)
  | .declaration :: tokens => ofTokens opened tokens fault

/-- The text without the byte order mark that it may begin with. -/
def withoutByteOrderMark : List Char → List Char
  | c :: cs => if c == '\ufeff' then cs else c :: cs
  | [] => []

/-- The events of a text. -/
def ofString (xml : String) : Events :=
  let (tokens, fault) := Token.scan (withoutByteOrderMark xml.toList)
  ofTokens [] tokens fault

end Events

end Xml
end OfficeMath
