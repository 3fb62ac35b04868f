/-! Names of elements and attributes, with the namespace that their prefix stands for. -/

namespace OfficeMath
namespace Xml

/-- The namespace of the elements and attributes of office math. -/
def mathNamespace : String := "http://schemas.openxmlformats.org/officeDocument/2006/math"

/-- A name is a local name in a namespace or in none. -/
structure Name where
  uri : Option String
  localName : String
  deriving DecidableEq, Repr

namespace Name

/-- The name in the namespace of office math. -/
def math (localName : String) : Name := ⟨some mathNamespace, localName⟩

/-- The name is in the namespace of office math. -/
def isMath (n : Name) : Bool := n.uri == some mathNamespace

/-- The name in Clark notation: the namespace between braces, then the local name. -/
def clark (n : Name) : String :=
  match n.uri with
  | some uri => "\x7b" ++ uri ++ "\x7d" ++ n.localName
  | none => n.localName

@[simp] theorem isMath_math (localName : String) : (math localName).isMath = true := by simp [isMath, math]

theorem isMath_iff {n : Name} : n.isMath = true ↔ n = math n.localName := by
  cases n
  simp [isMath, math]

end Name

end Xml
end OfficeMath
