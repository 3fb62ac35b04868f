import OfficeMath.Xml.Malformed
import OfficeMath.Xml.Name
import OfficeMath.Xml.RawAttribute

/-! Namespaces in scope. A declaration binds a prefix, or the default where no prefix is written, for its element
    and everything in it. A prefix that is not bound, or bound to the empty text, stands for no namespace, but
    the prefix `m` then stands for office math: equations cut out of a document lose its declaration. -/

namespace OfficeMath
namespace Xml

/-- The namespace of the prefix `xml`. -/
def xmlNamespace : String := "http://www.w3.org/XML/1998/namespace"

/-- The namespace of the prefix `xmlns`. -/
def xmlnsNamespace : String := "http://www.w3.org/2000/xmlns/"

/-- The prefix that stands for office math where it is not bound. -/
def mathPrefix : String := "m"

/-- The bindings in scope, the innermost first; `none` is the default. -/
abbrev Scope := List (Option String × String)

/-- A qualified name is cut at its first colon into a prefix and a local name. -/
def splitQualified (qualified : List Char) : Option String × String :=
  match qualified.dropWhile (· != ':') with
  | _ :: localName => (some (String.ofList (qualified.takeWhile (· != ':'))), String.ofList localName)
  | [] => (none, String.ofList qualified)

/-- What a key declares: the default namespace (`none`), a prefix, or nothing if it is no declaration. -/
def declaredPrefix? (key : List Char) : Option (Option String) :=
  match key with
  | 'x' :: 'm' :: 'l' :: 'n' :: 's' :: rest =>
    match rest with
    | [] => some none
    | ':' :: declared => some (some (String.ofList declared))
    | _ => none
  | _ => none

namespace Scope

/-- The bindings outside of every element. -/
def initial : Scope := [(some "xml", xmlNamespace), (some "xmlns", xmlnsNamespace)]

/-- The namespace that the prefix of a name stands for. -/
def namespace? (scope : Scope) (written : Option String) : Option String :=
  match (scope.lookup written).filter (· ≠ "") with
  | some uri => some uri
  | none => if written = some mathPrefix then some mathNamespace else none

/-- The name of an element. -/
def elementName (scope : Scope) (qualified : List Char) : Name :=
  let (written, localName) := splitQualified qualified
  ⟨scope.namespace? written, localName⟩

/-- The name of an attribute, which has no namespace where no prefix is written. -/
def attributeName (scope : Scope) (qualified : List Char) : Name :=
  let (written, localName) := splitQualified qualified
  ⟨written.bind fun p => scope.namespace? (some p), localName⟩

/-- The declaration keeps the reserved prefixes and namespaces as they are: `xml` may only be bound to its own
    namespace, `xmlns` not at all, and no other prefix to either of theirs. -/
def permits (declared uri : String) : Bool :=
  if declared = "xml" then uri == xmlNamespace
  else if declared = "xmlns" then false
  else uri != xmlNamespace && uri != xmlnsNamespace

/-- Adds the binding that an attribute declares, if it declares one. The empty prefix is the default. -/
def declare (scope : Scope) (a : RawAttribute) : Except Malformed Scope :=
  match declaredPrefix? a.key with
  | none => .ok scope
  | some none => .ok ((none, String.ofList a.value) :: scope)
  | some (some declared) =>
    if permits declared (String.ofList a.value) then
      .ok ((if declared = "" then none else some declared, String.ofList a.value) :: scope)
    else .error (.reservedNamespace (String.ofList a.key))

/-- Adds the bindings that the attributes of a tag declare, in order. -/
def declareAll (scope : Scope) (as : List RawAttribute) : Except Malformed Scope := as.foldlM declare scope

end Scope

end Xml
end OfficeMath
