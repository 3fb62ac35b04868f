import OfficeMath.Error
import OfficeMath.Text.Basic
import OfficeMath.Xml.Element
import OfficeMath.Xml.Event
import OfficeMath.Xml.Reference

/-! The element that a text describes. The events are taken in one by one: elements nest no deeper than a limit,
    pieces of text that follow each other become one text, and outside of the one root there is only blank text. -/

namespace OfficeMath
namespace Xml

/-! ### Attributes of an element -/

/-- Reads the attributes in order. A key that has been seen before is a fault, and so is a reference that stands
    for nothing; declarations of namespaces are left out. -/
def readAttributes (scope : Scope) (seen : List (List Char)) (as : List RawAttribute) :
    Except Malformed (List Attribute) :=
  match as with
  | [] => .ok []
  | a :: as =>
    if seen.contains a.key then .error (.repeatedAttribute (String.ofList a.key))
    else if (declaredPrefix? a.key).isSome then readAttributes scope (a.key :: seen) as
    else
      match expandValue a.value with
      | .error e => .error e
      | .ok value => (readAttributes scope (a.key :: seen) as).map (⟨scope.attributeName a.key, value⟩ :: ·)

/-- The attributes of the element that a tag starts. -/
def StartTag.readAll (tag : StartTag) : Except Malformed (List Attribute) :=
  match readAttributes tag.scope [] tag.attributes, tag.fault with
  | .error e, _ => .error e
  | .ok _, some e => .error e
  | .ok as, none => .ok as

/-! ### Open elements -/

/-- An element whose end has not been read. What it holds so far is kept last first. -/
structure OpenElement where
  name : Name
  attributes : List Attribute
  held : List Content

namespace OpenElement

/-- The element as it is when its end is read. -/
def close (o : OpenElement) : Element := .mk o.name o.attributes o.held.reverse

/-- Adds an item. -/
def add (o : OpenElement) (c : Content) : OpenElement := { o with held := c :: o.held }

/-- Adds text, to the text before it if there is one. -/
def addText (o : OpenElement) (s : String) : OpenElement :=
  match o.held with
  | .text t :: held => { o with held := .text (t ++ s) :: held }
  | _ => o.add (.text s)

end OpenElement

/-- What has been read of a document: the open elements, the innermost first, and the root if it is closed. -/
structure Progress where
  opened : List OpenElement
  root : Option Element

namespace Progress

/-- Nothing read yet. -/
def start : Progress := ⟨[], none⟩

/-- The element that a tag starts, with the limit on the number of elements that may be open around it. -/
def openElement (limit : Nat) (p : Progress) (tag : StartTag) : Except Error OpenElement :=
  if limit ≤ p.opened.length then .error (.tooDeep limit)
  else
    match tag.readAll with
    | .error e => .error (.malformed e)
    | .ok attributes => .ok ⟨tag.name, attributes, []⟩

/-- Takes in an element that is complete: into the one around it, or as the root. -/
def addElement (p : Progress) (e : Element) : Except Error Progress :=
  match p.opened, p.root with
  | o :: opened, root => .ok ⟨o.add (.element e) :: opened, root⟩
  | [], none => .ok ⟨[], some e⟩
  | [], some _ => .error .contentAfterRoot

/-- Takes in a piece of text, which outside of the root must be blank. -/
def addText (p : Progress) (s : String) : Except Error Progress :=
  match p.opened with
  | o :: opened => .ok { p with opened := o.addText s :: opened }
  | [] => if Text.isBlankText s then .ok p else .error .textOutsideRoot

/-- Takes in a comment or a processing instruction, which is dropped outside of the root. -/
def addAside (p : Progress) (c : Content) : Progress :=
  match p.opened with
  | o :: opened => { p with opened := o.add c :: opened }
  | [] => p

/-- Takes in one event. -/
def step (limit : Nat) (p : Progress) : Event → Except Error Progress
  | .start tag => (p.openElement limit tag).map fun o => { p with opened := o :: p.opened }
  | .empty tag => (p.openElement limit tag).bind fun o => p.addElement o.close
  | .close =>
    match p.opened with
    | [] => .error .unexpectedClosingTag
    | o :: opened => { p with opened }.addElement o.close
  | .text s => p.addText s
  | .reference name =>
    match resolveReference name with
    | .ok c => p.addText (String.singleton c)
    | .error .noCharacter => .error (.malformed .invalidCharacterReference)
    | .error .unknownEntity => .error (.undefinedEntity (String.ofList name))
  | .comment s => .ok (p.addAside (.comment s))
  | .instruction s => .ok (p.addAside (.instruction s))

/-- Takes in events in order, up to the first that cannot be taken in. -/
def run (limit : Nat) (p : Progress) (events : List Event) : Except Error Progress := events.foldlM (step limit) p

/-- The root, once everything has been read. -/
def finish (p : Progress) : Except Error Element :=
  match p.opened, p.root with
  | _ :: _, _ => .error (.unclosedElements p.opened.length)
  | [], some e => .ok e
  | [], none => .error .emptyInput

end Progress

/-- The element that the events describe. -/
def Events.element (limit : Nat) (events : Events) : Except Error Element :=
  match Progress.start.run limit events.events, events.fault with
  | .error e, _ => .error e
  | .ok _, some fault => .error (.malformed fault)
  | .ok p, none => p.finish

/-- Reads the element that a text describes, with a limit on the depth of nesting. -/
def Element.read (limit : Nat) (xml : String) : Except Error Element := (Events.ofString xml).element limit

end Xml
end OfficeMath
