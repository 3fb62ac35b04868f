import OfficeMath.Xml.Name

/-! Elements and what they hold. An element has a name, its attributes in the order in which they are written,
    and its content: elements, texts, comments and processing instructions. -/

namespace OfficeMath
namespace Xml

/-- An attribute and its value. -/
structure Attribute where
  name : Name
  value : String
  deriving DecidableEq, Repr

mutual

/-- An element. -/
inductive Element where
  | mk (name : Name) (attributes : List Attribute) (content : List Content)

/-- One item of what an element holds. -/
inductive Content where
  | element (e : Element)
  | text (s : String)
  | comment (s : String)
  | instruction (s : String)

end

namespace Content

/-- The element that the item is, if it is one. -/
def element? : Content → Option Element
  | element e => some e
  | _ => none

/-- The text that the item adds to its element. -/
def directText : Content → String
  | text s => s
  | _ => ""

end Content

namespace Element

/-- The name of the element. -/
def name : Element → Name
  | mk name _ _ => name

/-- The attributes of the element, in order. -/
def attributes : Element → List Attribute
  | mk _ attributes _ => attributes

/-- What the element holds, in order. -/
def content : Element → List Content
  | mk _ _ content => content

/-- The element of office math with the given tag and nothing in it. -/
def math (tag : String) : Element := mk (Name.math tag) [] []

/-- Adds an attribute after those the element has. -/
def addAttribute (e : Element) (a : Attribute) : Element := mk e.name (e.attributes ++ [a]) e.content

/-- Adds an item after those the element holds. -/
def addContent (e : Element) (c : Content) : Element := mk e.name e.attributes (e.content ++ [c])

/-- The element is in the namespace of office math. -/
def isMath (e : Element) : Bool := e.name.isMath

/-- The local name of the element. -/
def tag (e : Element) : String := e.name.localName

/-- The element is the one of office math with the given tag. -/
def isTag (e : Element) (tag : String) : Bool := e.isMath && e.tag == tag

/-- The value of the attribute with the local name: the first in the namespace of office math, or else the
    first in no namespace. -/
def attribute? (e : Element) (localName : String) : Option String :=
  let named := e.attributes.filter fun a => a.name.localName == localName
  ((named.find? fun a => a.name.isMath).or (named.find? fun a => a.name.uri.isNone)).map Attribute.value

/-- The value of the attribute `val`, which carries nearly every property. -/
def val? (e : Element) : Option String := e.attribute? "val"

/-- The elements that the element holds, in order. -/
def elements (e : Element) : List Element := e.content.filterMap Content.element?

/-- The first element of office math with the given tag that the element holds. -/
def child? (e : Element) (tag : String) : Option Element := e.elements.find? (·.isTag tag)

/-- The text that the element holds itself, without that of the elements in it. -/
def text (e : Element) : String := String.join (e.content.map Content.directText)

@[simp] theorem name_mk (name : Name) (attributes : List Attribute) (content : List Content) :
    (mk name attributes content).name = name := rfl

@[simp] theorem attributes_mk (name : Name) (attributes : List Attribute) (content : List Content) :
    (mk name attributes content).attributes = attributes := rfl

@[simp] theorem content_mk (name : Name) (attributes : List Attribute) (content : List Content) :
    (mk name attributes content).content = content := rfl

/-- An element is given by its three parts. -/
@[simp] theorem eta (e : Element) : mk e.name e.attributes e.content = e := by cases e; rfl

end Element

end Xml
end OfficeMath
