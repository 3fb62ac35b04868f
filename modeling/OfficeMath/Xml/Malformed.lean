/-! The ways in which a text fails to be well-formed XML. -/

namespace OfficeMath
namespace Xml

/-- What is wrong with the text. -/
inductive Malformed where
  | unclosedMarkup
  | unknownMarkup
  | unclosedTag
  | unclosedComment
  | unclosedCharacterData
  | unclosedInstruction
  | invalidDoctype
  | unterminatedReference
  | invalidCharacterReference
  | unknownEntity (name : String)
  | unmatchedEndTag (found : String)
  | mismatchedEndTag (expected found : String)
  | attributeWithoutValue (key : String)
  | unquotedValue (key : String)
  | unclosedValue (key : String)
  | repeatedAttribute (key : String)
  | reservedNamespace (declared : String)
  deriving DecidableEq, Repr

namespace Malformed

/-- The complaint in words. -/
def message : Malformed → String
  | unclosedMarkup => "markup is not closed"
  | unknownMarkup => "markup of an unknown kind"
  | unclosedTag => "tag is not closed"
  | unclosedComment => "comment is not closed"
  | unclosedCharacterData => "character data section is not closed"
  | unclosedInstruction => "processing instruction is not closed"
  | invalidDoctype => "invalid document type declaration"
  | unterminatedReference => "reference without a semicolon"
  | invalidCharacterReference => "invalid character reference"
  | unknownEntity name => "unknown entity in an attribute: " ++ name
  | unmatchedEndTag found => "end tag without a start tag: " ++ found
  | mismatchedEndTag expected found => "end tag of " ++ expected ++ " expected, found " ++ found
  | attributeWithoutValue key => "attribute without a value: " ++ key
  | unquotedValue key => "attribute value without quotes: " ++ key
  | unclosedValue key => "attribute value is not closed: " ++ key
  | repeatedAttribute key => "repeated attribute: " ++ key
  | reservedNamespace declared => "reserved namespace in " ++ declared

end Malformed

end Xml
end OfficeMath
