import Mathlib
import OfficeMath.Xml.Element
import OfficeMath.Xml.Reference

/-! The ways to write an element. The names and the values of attributes are written in one way, but an element
    that holds nothing has two forms, and a text can be put together from pieces of every kind: characters as
    they stand, sections of character data, and references. -/

namespace OfficeMath
namespace Xml

/-! ### Plain elements -/

/-- The name is in the namespace of office math or in none, and it is a word of ASCII letters and digits. -/
structure Name.IsPlain (n : Name) : Prop where
  uri_eq : n.uri = none ∨ n.uri = some mathNamespace
  ne_empty : n.localName ≠ ""
  isAlphanum : ∀ c ∈ n.localName.toList, c.isAlphanum = true

/-- The attributes of an element have plain names that are distinct, and none of them is written as a
    declaration of the default namespace. -/
structure Attribute.ArePlain (as : List Attribute) : Prop where
  isPlain : ∀ a ∈ as, a.name.IsPlain
  nodup : (as.map Attribute.name).Nodup
  not_declaration : ∀ a ∈ as, a.name ≠ ⟨none, "xmlns"⟩

/-- The first item is a text. -/
def Content.startsWithText : List Content → Bool
  | .text _ :: _ => true
  | _ => false

mutual

/-- The element and those in it can be written without a declaration: names are plain, texts are neither empty nor
    next to each other, comments are without two hyphens in a row, and there are no processing instructions. -/
def Element.IsPlain : Element → Prop
  | .mk name attributes content => name.IsPlain ∧ Attribute.ArePlain attributes ∧ Content.ArePlain content

/-- The items are plain. -/
def Content.ArePlain : List Content → Prop
  | [] => True
  | .element e :: content => e.IsPlain ∧ Content.ArePlain content
  | .text s :: content => s ≠ "" ∧ Content.startsWithText content = false ∧ Content.ArePlain content
  | .comment s :: content => ¬ ['-', '-'] <:+: s.toList ∧ Content.ArePlain content
  | .instruction _ :: _ => False

end

mutual

/-- How deep elements nest in an element, with the element itself. -/
def Element.depth : Element → Nat
  | .mk _ _ content => Content.depthAll content + 1

/-- How deep elements nest in a list of items. -/
def Content.depthAll : List Content → Nat
  | [] => 0
  | .element e :: content => max e.depth (Content.depthAll content)
  | _ :: content => Content.depthAll content

end

/-! ### Texts -/

/-- The character is the digit of the value in the base; a letter may be small or capital. -/
def IsDigit (base : Nat) (c : Char) (value : Nat) : Prop :=
  value < base ∧ (c = value.digitChar ∨ c = value.digitChar.toUpper)

/-- The digits are a numeral of the number in the base, with zeros before it or without. -/
def IsNumeral (base : Nat) (digits : List Char) (n : Nat) : Prop :=
  ∃ values, List.Forall₂ (IsDigit base) digits values ∧ Nat.ofDigits base values.reverse = n

/-- A piece of text as written, and the text that it stands for. XML has no reference for the character with the
    code point zero. -/
inductive Piece : List Char → List Char → Prop
  | literal {cs : List Char} (h : ∀ c ∈ cs, c ≠ '<' ∧ c ≠ '&') : Piece cs cs
  | characterData {cs : List Char} (h : ¬ [']', ']', '>'] <:+: cs) :
      Piece ("<![CDATA[".toList ++ cs ++ "]]>".toList) cs
  | decimal {digits : List Char} {c : Char} (h : IsNumeral 10 digits c.toNat) (hc : c.toNat ≠ 0) :
      Piece ("&#".toList ++ digits ++ ";".toList) [c]
  | hexadecimal {digits : List Char} {c : Char} (h : IsNumeral 16 digits c.toNat) (hc : c.toNat ≠ 0) :
      Piece ("&#x".toList ++ digits ++ ";".toList) [c]
  | entity {name : List Char} {c : Char} (h : (name, c) ∈ predefinedEntities) :
      Piece ("&".toList ++ name ++ ";".toList) [c]

/-- Pieces of text one after the other, and the text that they stand for. -/
inductive Pieces : List Char → List Char → Prop
  | nil : Pieces [] []
  | cons {xs cs ys ds : List Char} (h : Piece xs cs) (hs : Pieces ys ds) : Pieces (xs ++ ys) (cs ++ ds)

/-! ### Elements -/

/-- The name as written: with the prefix `m` if it is in the namespace of office math. -/
def Name.qualified (n : Name) : List Char := (if n.isMath then ['m', ':'] else []) ++ n.localName.toList

/-- A character as written in the value of an attribute. -/
def writeValueChar (c : Char) : List Char :=
  if c = '&' then "&amp;".toList
  else if c = '<' then "&lt;".toList
  else if c = '>' then "&gt;".toList
  else if c = '"' then "&quot;".toList
  else [c]

/-- The value of an attribute as written between the quotes. -/
def writeValue (value : String) : List Char := value.toList.flatMap writeValueChar

/-- The attribute as written, with the space before it. -/
def Attribute.written (a : Attribute) : List Char :=
  [' '] ++ a.name.qualified ++ ['=', '"'] ++ writeValue a.value ++ ['"']

/-- What stands between the brackets of a tag: the name and the attributes. -/
def writeTag (name : Name) (attributes : List Attribute) : List Char :=
  name.qualified ++ attributes.flatMap Attribute.written

mutual

/-- The element can be written so: by the tag of an empty element if it holds nothing, or between two tags. -/
inductive Spelling : List Char → Element → Prop
  | empty {name : Name} {attributes : List Attribute} :
      Spelling (['<'] ++ writeTag name attributes ++ ['/', '>']) (.mk name attributes [])
  | tags {name : Name} {attributes : List Attribute} {xs : List Char} {content : List Content}
      (h : SpellingAll xs content) :
      Spelling (['<'] ++ writeTag name attributes ++ ['>'] ++ xs ++ ['<', '/'] ++ name.qualified ++ ['>'])
        (.mk name attributes content)

/-- The items can be written so, one after the other. -/
inductive SpellingAll : List Char → List Content → Prop
  | nil : SpellingAll [] []
  | element {xs ys : List Char} {e : Element} {content : List Content} (he : Spelling xs e)
      (h : SpellingAll ys content) : SpellingAll (xs ++ ys) (.element e :: content)
  | text {xs ys : List Char} {s : String} {content : List Content} (hs : Pieces xs s.toList)
      (h : SpellingAll ys content) : SpellingAll (xs ++ ys) (.text s :: content)
  | comment {ys : List Char} {s : String} {content : List Content} (h : SpellingAll ys content) :
      SpellingAll ("<!--".toList ++ s.toList ++ "-->".toList ++ ys) (.comment s :: content)

end

end Xml
end OfficeMath
