import OfficeMath.Xml.Doctype
import OfficeMath.Xml.Malformed

/-! Tokens of XML text: tags, pieces of text, references, sections of character data, comments and processing
    instructions. A tag is cut out whole, up to the first closing angle bracket outside quotes, and is not looked
    into. Reading a token uses up some of the text, so a text is read to its end or to its first fault. -/

namespace OfficeMath
namespace Xml

/-- A token. A tag is given by what stands between its brackets, less the slash that marks it; nothing is kept
    of XML declarations and document type declarations. -/
inductive Token where
  | startTag (body : List Char)
  | emptyTag (body : List Char)
  | endTag (name : List Char)
  | text (chars : List Char)
  | reference (name : List Char)
  | characterData (chars : List Char)
  | comment (chars : List Char)
  | instruction (chars : List Char)
  | declaration
  deriving DecidableEq, Repr

namespace Token

/-! ### The end of a tag -/

/-- Cuts the text at the first closing angle bracket outside quotes. -/
def cutTag (quote : Option Char) : List Char → Option (List Char × List Char)
  | [] => none
  | c :: cs =>
    if quote.isNone && c == '>' then some ([], cs)
    else (cutTag (Doctype.stepQuote quote c) cs).map fun p => (c :: p.1, p.2)

theorem length_lt_of_cutTag {body rest : List Char} :
    ∀ {cs : List Char} {quote : Option Char}, cutTag quote cs = some (body, rest) → rest.length < cs.length
  | [], _, h => by simp [cutTag] at h
  | c :: cs, quote, h => by
    unfold cutTag at h
    split at h
    · simp only [Option.some.injEq, Prod.mk.injEq] at h
      obtain ⟨-, rfl⟩ := h
      simp
    · simp only [Option.map_eq_some_iff, Prod.mk.injEq, Prod.exists] at h
      obtain ⟨body', rest', hcut, -, rfl⟩ := h
      have := length_lt_of_cutTag hcut
      simp only [List.length_cons]
      omega

/-! ### One token -/

/-- The token of a start tag, which is that of an empty element if it ends in a slash. -/
def ofTagBody (body : List Char) : Token :=
  if body.getLast? = some '/' then emptyTag body.dropLast else startTag body

/-- The name in an end tag, without the white space after it. White space alone is kept: it closes no element,
    not even one without a name. -/
def endTagName (body : List Char) : List Char :=
  if body.all isSpace then body else (body.reverse.dropWhile isSpace).reverse

/-- The token of a processing instruction. What begins with `xml`, alone or before white space, declares the
    version of XML. -/
def ofInstruction (chars : List Char) : Token :=
  match chars with
  | 'x' :: 'm' :: 'l' :: rest => if rest.head?.all isSpace then declaration else instruction chars
  | _ => instruction chars

/-- Reads a comment, a section of character data or a document type declaration, from after `<!`. -/
def readDeclaration (cs : List Char) : Except Malformed (Token × List Char) :=
  match cs with
  | '-' :: '-' :: rest =>
    match cutAt ['-', '-', '>'] rest with
    | some (chars, rest') => .ok (comment chars, rest')
    | none => .error .unclosedComment
  | '[' :: 'C' :: 'D' :: 'A' :: 'T' :: 'A' :: '[' :: rest =>
    match cutAt [']', ']', '>'] rest with
    | some (chars, rest') => .ok (characterData chars, rest')
    | none => .error .unclosedCharacterData
  | c :: _ =>
    if c == 'D' || c == 'd' then
      match skipDoctype? cs with
      | some rest => .ok (declaration, rest)
      | none => .error .invalidDoctype
    else .error .unknownMarkup
  | [] => .error .unclosedMarkup

/-- Reads a processing instruction from after `<?`. The question mark that opens it does not close it. -/
def readInstruction (cs : List Char) : Except Malformed (Token × List Char) :=
  if cs.head? = some '>' then .error .unclosedInstruction
  else
    match cutAt ['?', '>'] cs with
    | some (chars, rest) => .ok (ofInstruction chars, rest)
    | none => .error .unclosedInstruction

/-- Reads a tag, from after the bracket or the slash that opens it. -/
def readTag (token : List Char → Token) (cs : List Char) : Except Malformed (Token × List Char) :=
  match cutTag none cs with
  | some (body, rest) => .ok (token body, rest)
  | none => .error .unclosedTag

/-- Reads markup from after the opening angle bracket. -/
def readMarkup (cs : List Char) : Except Malformed (Token × List Char) :=
  match cs with
  | [] => .error .unclosedMarkup
  | '!' :: rest => readDeclaration rest
  | '?' :: rest => readInstruction rest
  | '/' :: rest => readTag (fun body => endTag (endTagName body)) rest
  | _ => readTag ofTagBody cs

/-- The character goes on a reference: it is no semicolon and starts neither a reference nor markup. -/
def inReference (c : Char) : Bool := c != ';' && c != '&' && c != '<'

/-- Reads a reference from after the ampersand. -/
def readReference (cs : List Char) : Except Malformed (Token × List Char) :=
  match cs.dropWhile inReference with
  | ';' :: rest => .ok (reference (cs.takeWhile inReference), rest)
  | _ => .error .unterminatedReference

/-- The character goes on a piece of text: it starts neither a reference nor markup. -/
def inText (c : Char) : Bool := c != '<' && c != '&'

/-- Reads the token that begins with `c`. -/
def read (c : Char) (cs : List Char) : Except Malformed (Token × List Char) :=
  if c == '<' then readMarkup cs
  else if c == '&' then readReference cs
  else .ok (text (c :: cs.takeWhile inText), cs.dropWhile inText)

/-! ### A token uses up text -/

theorem length_le_of_readTag {token : List Char → Token} {t : Token} {cs rest : List Char}
    (h : readTag token cs = .ok (t, rest)) : rest.length ≤ cs.length := by
  unfold readTag at h
  split at h
  · next hcut =>
    simp only [Except.ok.injEq, Prod.mk.injEq] at h
    obtain ⟨-, rfl⟩ := h
    exact Nat.le_of_lt (length_lt_of_cutTag hcut)
  · simp at h

theorem length_le_of_readInstruction {t : Token} {cs rest : List Char}
    (h : readInstruction cs = .ok (t, rest)) : rest.length ≤ cs.length := by
  unfold readInstruction at h
  split at h
  · simp at h
  · split at h
    · next hcut =>
      simp only [Except.ok.injEq, Prod.mk.injEq] at h
      obtain ⟨-, rfl⟩ := h
      exact length_le_of_cutAt hcut
    · simp at h

theorem length_le_of_readDeclaration {t : Token} {cs rest : List Char}
    (h : readDeclaration cs = .ok (t, rest)) : rest.length ≤ cs.length := by
  unfold readDeclaration at h
  split at h
  · split at h
    · next hcut =>
      simp only [Except.ok.injEq, Prod.mk.injEq] at h
      obtain ⟨-, rfl⟩ := h
      have := length_le_of_cutAt hcut
      simp only [List.length_cons]
      omega
    · simp at h
  · split at h
    · next hcut =>
      simp only [Except.ok.injEq, Prod.mk.injEq] at h
      obtain ⟨-, rfl⟩ := h
      have := length_le_of_cutAt hcut
      simp only [List.length_cons]
      omega
    · simp at h
  · split at h
    · split at h
      · next hskip =>
        simp only [Except.ok.injEq, Prod.mk.injEq] at h
        obtain ⟨-, rfl⟩ := h
        exact length_le_of_skipDoctype? hskip
      · simp at h
    · simp at h
  · simp at h

theorem length_le_of_readMarkup {t : Token} {cs rest : List Char}
    (h : readMarkup cs = .ok (t, rest)) : rest.length ≤ cs.length := by
  unfold readMarkup at h
  split at h
  · simp at h
  · exact Nat.le_succ_of_le (length_le_of_readDeclaration h)
  · exact Nat.le_succ_of_le (length_le_of_readInstruction h)
  · exact Nat.le_succ_of_le (length_le_of_readTag h)
  · exact length_le_of_readTag h

theorem length_le_of_readReference {t : Token} {cs rest : List Char}
    (h : readReference cs = .ok (t, rest)) : rest.length ≤ cs.length := by
  unfold readReference at h
  split at h
  · next hdrop =>
    simp only [Except.ok.injEq, Prod.mk.injEq] at h
    obtain ⟨-, rfl⟩ := h
    have := length_dropWhile_le inReference cs
    rw [hdrop, List.length_cons] at this
    omega
  · simp at h

/-- Reading a token leaves less text than there was. -/
theorem length_le_of_read {c : Char} {t : Token} {cs rest : List Char}
    (h : read c cs = .ok (t, rest)) : rest.length ≤ cs.length := by
  unfold read at h
  split at h
  · exact length_le_of_readMarkup h
  · split at h
    · exact length_le_of_readReference h
    · simp only [Except.ok.injEq, Prod.mk.injEq] at h
      obtain ⟨-, rfl⟩ := h
      exact length_dropWhile_le inText cs

/-! ### All tokens -/

/-- The tokens of a text in order, up to the first fault or to the end of the text. -/
def scan (cs : List Char) : List Token × Option Malformed :=
  match cs with
  | [] => ([], none)
  | c :: cs =>
    match h : read c cs with
    | .error fault => ([], some fault)
    | .ok (t, rest) =>
      have : rest.length ≤ cs.length := length_le_of_read h
      let (ts, fault) := scan rest
      (t :: ts, fault)
termination_by cs.length
decreasing_by simp only [List.length_cons]; omega

@[simp] theorem scan_nil : scan [] = ([], none) := by simp [scan]

theorem scan_cons_of_error {c : Char} {cs : List Char} {fault : Malformed} (h : read c cs = .error fault) :
    scan (c :: cs) = ([], some fault) := by
  rw [scan]
  split <;> simp_all

theorem scan_cons_of_ok {c : Char} {cs rest : List Char} {t : Token} (h : read c cs = .ok (t, rest)) :
    scan (c :: cs) = (t :: (scan rest).1, (scan rest).2) := by
  rw [scan]
  split
  · simp_all
  · next h' =>
    rw [h] at h'
    simp only [Except.ok.injEq, Prod.mk.injEq] at h'
    obtain ⟨rfl, rfl⟩ := h'
    rfl

end Token

end Xml
end OfficeMath
