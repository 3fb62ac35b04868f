import OfficeMath.Xml.Chars

/-! The extent of a document type declaration. It ends at the first closing angle bracket that is not hidden:
    quotes hide it before the internal subset, and the subset between square brackets hides it until its own
    end, which comments, processing instructions and all other markup inside hide in turn. -/

namespace OfficeMath
namespace Xml

/-- Where a reader stands inside a document type declaration. -/
inductive Doctype where
  | outer (quote : Option Char)
  | subset
  | markup (seen : List Char)
  | bracketed
  | declaration (quote : Option Char)
  | comment (dashes : Nat)
  | instruction (afterQuestion : Bool)
  | afterSubset

namespace Doctype

/-- A step inside the internal subset, outside of all markup. -/
def stepSubset (c : Char) : Doctype :=
  if c == ']' then afterSubset else if c == '<' then markup [] else subset

/-- The words by which the declarations that may hold quotes are known. -/
def quotedWords : List String := ["!ENTITY", "!ATTLIST", "!NOTATION"]

/-- A step inside markup that its first closing angle bracket ends, whatever stands before it. -/
def stepBracketed (c : Char) : Doctype := if c == '>' then subset else bracketed

/-- A step through the start of markup in the internal subset. Markup that is not of a kind with an end of its
    own, such as the declaration of an element, ends at its first closing angle bracket. -/
def stepMarkup (seen : List Char) (c : Char) : Doctype :=
  let word := seen ++ [c]
  if word = ['?'] then instruction false
  else if word = ['!', '-', '-'] then comment 0
  else if quotedWords.any fun w => w.toList == word then declaration none
  else if ("!--" :: quotedWords).any fun w => word.isPrefixOf w.toList then markup word
  else stepBracketed c

/-- The quote that is open after a character. -/
def stepQuote (quote : Option Char) (c : Char) : Option Char :=
  match quote with
  | some q => if c == q then none else some q
  | none => if isQuote c then some c else none

/-- One step over a character, to nowhere if the declaration ends there. -/
def step : Doctype → Char → Option Doctype
  | outer none, '>' => none
  | outer none, '[' => some subset
  | outer quote, c => some (outer (stepQuote quote c))
  | subset, c => some (stepSubset c)
  | markup seen, c => some (stepMarkup seen c)
  | bracketed, c => some (stepBracketed c)
  | declaration none, '>' => some subset
  | declaration quote, c => some (declaration (stepQuote quote c))
  | comment dashes, c =>
    some (if c == '-' then comment (dashes + 1) else if c == '>' && 2 ≤ dashes then subset else comment 0)
  | instruction afterQuestion, c =>
    some (if c == '>' && afterQuestion then subset else instruction (c == '?'))
  | afterSubset, c => if c == '>' then none else some afterSubset

/-- The text after the end of the declaration. -/
def skip : Doctype → List Char → Option (List Char)
  | _, [] => none
  | d, c :: cs =>
    match d.step c with
    | none => some cs
    | some d' => d'.skip cs

theorem length_lt_of_skip {rest : List Char} :
    ∀ {cs : List Char} {d : Doctype}, d.skip cs = some rest → rest.length < cs.length
  | [], _, h => by simp [skip] at h
  | c :: cs, d, h => by
    unfold skip at h
    split at h
    · simp only [Option.some.injEq] at h
      subst h
      simp
    · have := length_lt_of_skip h
      simp only [List.length_cons]
      omega

end Doctype

/-- Reads a document type declaration from the text after the exclamation mark: the keyword in any case, and
    something other than white space before the end. -/
def skipDoctype? (cs : List Char) : Option (List Char) :=
  if (cs.take 7).map Char.toLower == "doctype".toList && ((cs.drop 7).dropWhile isSpace).head? != some '>' then
    (Doctype.outer none).skip (cs.drop 7)
  else none

theorem length_le_of_skipDoctype? {cs rest : List Char} (h : skipDoctype? cs = some rest) :
    rest.length ≤ cs.length := by
  unfold skipDoctype? at h
  split at h
  · have := Doctype.length_lt_of_skip h
    simp only [List.length_drop] at this
    omega
  · simp at h

end Xml
end OfficeMath
