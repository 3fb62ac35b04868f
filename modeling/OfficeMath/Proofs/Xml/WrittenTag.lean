import Mathlib
import OfficeMath.Proofs.Xml.ReadOn
import OfficeMath.Proofs.Xml.Spelling

/-! Tags as they are read. Without declarations the scope stays as it is outside of every element, so names are
    read back from their qualified form, values from their written form, and the attributes one by one. -/

namespace OfficeMath
namespace Xml

/-! ### Characters of names -/

/-- The character is a letter or a digit, or the colon between a prefix and a local name. -/
def isNameChar (c : Char) : Bool := c.isAlphanum || c == ':'

theorem ne_of_isNameChar {c d : Char} (hc : isNameChar c = true) (hd : isNameChar d = false) : c ≠ d := by
  rintro rfl
  simp [hc] at hd

theorem isSpace_of_isNameChar {c : Char} (hc : isNameChar c = true) : isSpace c = false := by
  have hspace : ' ' ≠ c ∧ '\t' ≠ c ∧ '\r' ≠ c ∧ '\n' ≠ c :=
    ⟨(ne_of_isNameChar hc (by decide)).symm, (ne_of_isNameChar hc (by decide)).symm,
      (ne_of_isNameChar hc (by decide)).symm, (ne_of_isNameChar hc (by decide)).symm⟩
  simp [isSpace, eq_comm (a := c), hspace]

namespace Name
variable {n : Name}

theorem isNameChar_of_mem_qualified (hn : n.IsPlain) {c : Char} (hc : c ∈ n.qualified) : isNameChar c = true := by
  rcases List.mem_append.mp hc with hc | hc
  · cases hmath : n.isMath with
    | true =>
      simp only [hmath, if_true, List.mem_cons, List.not_mem_nil, or_false] at hc
      rcases hc with rfl | rfl <;> rfl
    | false =>
      rw [hmath] at hc
      cases hc
  · simp [isNameChar, hn.isAlphanum c hc]

theorem exists_qualified_eq_cons (hn : n.IsPlain) : ∃ c cs, n.qualified = c :: cs := by
  refine List.exists_cons_of_ne_nil fun h => hn.ne_empty ?_
  exact String.toList_eq_nil_iff.mp (List.append_eq_nil_iff.mp h).2

theorem dropWhile_qualified (hn : n.IsPlain) : n.localName.toList.dropWhile (· != ':') = [] := by
  refine List.dropWhile_eq_nil_iff.mpr fun c hc => ?_
  have hcolon : c ≠ ':' := by
    rintro rfl
    exact absurd (hn.isAlphanum ':' hc) (by decide)
  simpa using hcolon

/-- A name in the namespace of office math has the prefix `m`, and any other plain name has none. -/
theorem splitQualified_qualified (hn : n.IsPlain) :
    splitQualified n.qualified = (if n.isMath then some mathPrefix else none, n.localName) := by
  unfold qualified
  cases n.isMath with
  | true => simp [splitQualified, mathPrefix]
  | false => simp [splitQualified, dropWhile_qualified hn]

end Name

namespace Scope
variable {n : Name}

theorem namespace?_initial (hn : n.IsPlain) :
    initial.namespace? (if n.isMath then some mathPrefix else none) = n.uri := by
  rcases hn.uri_eq with h | h
  · rw [Name.isMath, h]
    rfl
  · rw [Name.isMath, h]
    decide

theorem elementName_qualified (hn : n.IsPlain) : initial.elementName n.qualified = n := by
  rw [elementName, Name.splitQualified_qualified hn]
  dsimp only
  rw [namespace?_initial hn]

theorem attributeName_qualified (hn : n.IsPlain) : initial.attributeName n.qualified = n := by
  have huri := namespace?_initial hn
  rw [attributeName, Name.splitQualified_qualified hn]
  cases hmath : n.isMath with
  | true =>
    rw [hmath] at huri
    exact congrArg (Name.mk · n.localName) huri
  | false =>
    have hnone : n.uri = none := hn.uri_eq.resolve_right fun h => by simp [Name.isMath, h] at hmath
    exact congrArg (Name.mk · n.localName) hnone.symm

end Scope

theorem declaredPrefix?_qualified {n : Name} (hn : n.IsPlain) (hdeclaration : n ≠ ⟨none, "xmlns"⟩) :
    declaredPrefix? n.qualified = none := by
  cases hmath : n.isMath with
  | true => simp [Name.qualified, hmath, declaredPrefix?]
  | false =>
    have hnone : n.uri = none := hn.uri_eq.resolve_right fun h => by simp [Name.isMath, h] at hmath
    have hqualified : n.qualified = n.localName.toList := by simp [Name.qualified, hmath]
    unfold declaredPrefix?
    split
    · next rest hname =>
      rw [hqualified] at hname
      split
      · refine absurd ?_ hdeclaration
        have hlocal : n.localName = "xmlns" := by rw [← String.toList_inj, hname]; rfl
        rw [← hnone, ← hlocal]
      · refine absurd (hn.isAlphanum ':' ?_) (by decide)
        simp [hname]
      · rfl
    · rfl

/-! ### Values -/

theorem not_mem_writeValue (value : String) : '"' ∉ writeValue value := by
  rw [writeValue, List.mem_flatMap]
  rintro ⟨c, -, hc⟩
  unfold writeValueChar at hc
  split_ifs at hc with hamp hlt hgt hquote
  · simp at hc
  · simp at hc
  · simp at hc
  · simp at hc
  · exact hquote (List.mem_singleton.mp hc).symm

theorem expandReferences_writeValueChar (c : Char) (cs : List Char) :
    expandReferences none (writeValueChar c ++ cs) = (expandReferences none cs).map (c :: ·) := by
  unfold writeValueChar
  split_ifs with hamp hlt hgt hquote
  · subst hamp
    rfl
  · subst hlt
    rfl
  · subst hgt
    rfl
  · subst hquote
    rfl
  · simp [expandReferences, hamp]

theorem expandValue_writeValue (value : String) : expandValue (writeValue value) = .ok value := by
  have hexpand : ∀ cs : List Char, expandReferences none (cs.flatMap writeValueChar) = .ok cs := by
    intro cs
    induction cs with
    | nil => rfl
    | cons c cs ih =>
      rw [List.flatMap_cons, expandReferences_writeValueChar, ih]
      rfl
  rw [expandValue, writeValue, hexpand]
  exact congrArg Except.ok (String.ofList_toList)

/-! ### Attributes -/

theorem RawAttribute.read_quoted {c : Char} {key value : List Char} (hkey : ∀ d ∈ key, inKey d = true)
    (hvalue : '"' ∉ value) (rest : List Char) :
    read c (key ++ '=' :: '"' :: (value ++ '"' :: rest)) = .ok (⟨c :: key, value⟩, rest) := by
  have hvalue : ∀ d ∈ value, (d != '"') = true := fun d hd => by
    have hne : d ≠ '"' := fun h => hvalue (h ▸ hd)
    simpa using hne
  have hread : readValue (c :: key) ('"' :: (value ++ '"' :: rest)) = .ok (⟨c :: key, value⟩, rest) := by
    have hdrop : (value ++ '"' :: rest).dropWhile (· != '"') = '"' :: rest := by
      rw [List.dropWhile_append_of_pos hvalue]
      rfl
    have htake : (value ++ '"' :: rest).takeWhile (· != '"') = value := by
      rw [List.takeWhile_append_of_pos hvalue]
      simp
    rw [readValue, List.dropWhile_cons_of_neg (by decide)]
    dsimp only
    rw [if_pos (by decide), hdrop, htake]
  unfold read
  rw [List.takeWhile_append_of_pos hkey, List.dropWhile_append_of_pos hkey]
  simpa [inKey, isSpace] using hread

/-- The attribute as it is found in a tag. -/
def Attribute.raw (a : Attribute) : RawAttribute := ⟨a.name.qualified, writeValue a.value⟩

namespace Attribute
variable {a : Attribute} {as : List Attribute}

theorem ArePlain.tail (h : ArePlain (a :: as)) : ArePlain as where
  isPlain b hb := h.isPlain b (List.mem_cons_of_mem a hb)
  nodup := (List.nodup_cons.mp h.nodup).2
  not_declaration b hb := h.not_declaration b (List.mem_cons_of_mem a hb)

theorem declaredPrefix?_raw (h : ArePlain as) (ha : a ∈ as) : declaredPrefix? a.raw.key = none :=
  declaredPrefix?_qualified (h.isPlain a ha) (h.not_declaration a ha)

theorem read_written {c : Char} {cs : List Char} (ha : a.name.IsPlain) (hname : a.name.qualified = c :: cs)
    (rest : List Char) :
    RawAttribute.read c (cs ++ '=' :: '"' :: (writeValue a.value ++ '"' :: rest)) = .ok (a.raw, rest) := by
  have hkey : ∀ d ∈ cs, RawAttribute.inKey d = true := fun d hd => by
    have hd : isNameChar d = true := Name.isNameChar_of_mem_qualified ha (hname ▸ List.mem_cons_of_mem c hd)
    simp [RawAttribute.inKey, isSpace_of_isNameChar hd, ne_of_isNameChar hd (show isNameChar '=' = false by decide)]
  rw [RawAttribute.read_quoted hkey (not_mem_writeValue a.value), raw, hname]

theorem scan_written (h : ArePlain as) : RawAttribute.scan (as.flatMap Attribute.written) = (as.map raw, none) := by
  induction as with
  | nil => exact RawAttribute.scan_of_blank rfl
  | cons a as ih =>
    have ha : a.name.IsPlain := h.isPlain a (List.mem_cons_self ..)
    obtain ⟨c, cs, hname⟩ := Name.exists_qualified_eq_cons ha
    have hc : isNameChar c = true := Name.isNameChar_of_mem_qualified ha (hname ▸ List.mem_cons_self ..)
    have hwritten : (a :: as).flatMap Attribute.written =
        ' ' :: c :: (cs ++ '=' :: '"' :: (writeValue a.value ++ '"' :: as.flatMap Attribute.written)) := by
      simp [Attribute.written, hname]
    have hspace : ((a :: as).flatMap Attribute.written).dropWhile isSpace =
        c :: (cs ++ '=' :: '"' :: (writeValue a.value ++ '"' :: as.flatMap Attribute.written)) := by
      rw [hwritten]
      simp [isSpace_of_isNameChar hc, show isSpace ' ' = true from rfl]
    rw [RawAttribute.scan_of_ok hspace (read_written ha hname _), ih h.tail]
    rfl

theorem declareAll_raw (h : ArePlain as) (scope : Scope) : scope.declareAll (as.map raw) = .ok scope := by
  induction as with
  | nil => rfl
  | cons a as ih =>
    have hdeclare : scope.declare a.raw = .ok scope := by
      rw [Scope.declare, declaredPrefix?_raw h (List.mem_cons_self ..)]
    rw [List.map_cons, Scope.declareAll, List.foldlM_cons, hdeclare]
    exact ih h.tail

theorem readAttributes_raw (h : ArePlain as) {seen : List (List Char)}
    (hseen : ∀ a ∈ as, a.name.qualified ∉ seen) : readAttributes .initial seen (as.map raw) = .ok as := by
  induction as generalizing seen with
  | nil => rfl
  | cons a as ih =>
    have ha : a.name.IsPlain := h.isPlain a (List.mem_cons_self ..)
    have hfresh : seen.contains a.raw.key = false := by
      simpa [raw] using hseen a (List.mem_cons_self ..)
    have htail : ∀ b ∈ as, b.name.qualified ∉ a.raw.key :: seen := fun b hb hmem => by
      rcases List.mem_cons.mp hmem with heq | hmem
      · -- a key determines the name that it was written for
        have hname := congrArg Scope.initial.attributeName heq
        rw [Scope.attributeName_qualified (h.tail.isPlain b hb)] at hname
        have hname : b.name = a.name := hname.trans (Scope.attributeName_qualified ha)
        exact (List.nodup_cons.mp h.nodup).1 (hname ▸ List.mem_map_of_mem hb)
      · exact hseen b (List.mem_cons_of_mem a hb) hmem
    have hname : Scope.initial.attributeName a.raw.key = a.name := Scope.attributeName_qualified ha
    have hvalue : expandValue a.raw.value = .ok a.value := expandValue_writeValue a.value
    rw [List.map_cons, readAttributes, hfresh, declaredPrefix?_raw h (List.mem_cons_self ..), hvalue,
      ih h.tail htail, hname]
    rfl

end Attribute

/-! ### Tags -/

namespace Token

/-- A tag is not cut inside the characters, and the quote that is open changes over them as given. -/
def PassesOver (cs : List Char) (quote quote' : Option Char) : Prop :=
  ∀ rest, cutTag quote (cs ++ rest) = (cutTag quote' rest).map fun p => (cs ++ p.1, p.2)

theorem PassesOver.nil (quote : Option Char) : PassesOver [] quote quote := fun rest => by
  cases h : cutTag quote rest <;> simp [h]

theorem PassesOver.append {cs ds : List Char} {quote quote' quote'' : Option Char} (h : PassesOver cs quote quote')
    (h' : PassesOver ds quote' quote'') : PassesOver (cs ++ ds) quote quote'' := fun rest => by
  rw [List.append_assoc, h, h', Option.map_map]
  simp [Function.comp_def, List.append_assoc]

theorem PassesOver.singleton {c : Char} {quote : Option Char} (h : (quote.isNone && c == '>') = false) :
    PassesOver [c] quote (Doctype.stepQuote quote c) := fun rest => by
  rw [List.singleton_append, cutTag, h]
  rfl

theorem PassesOver.of_forall {cs : List Char} {quote : Option Char} (h : ∀ c ∈ cs, PassesOver [c] quote quote) :
    PassesOver cs quote quote := by
  induction cs with
  | nil => exact .nil quote
  | cons c cs ih =>
    exact (h c (List.mem_cons_self ..)).append (ih fun d hd => h d (List.mem_cons_of_mem c hd))

/-- Characters that are neither quotes nor closing brackets are passed over, outside quotes and in them. -/
theorem PassesOver.plain {cs : List Char} (h : ∀ c ∈ cs, isQuote c = false ∧ c ≠ '>') {quote : Option Char}
    (hquote : quote.all isQuote = true) : PassesOver cs quote quote := by
  refine .of_forall fun c hc => ?_
  obtain ⟨hc, hend⟩ := h c hc
  have hstep : Doctype.stepQuote quote c = quote := by
    cases quote with
    | none => simp [Doctype.stepQuote, hc]
    | some q =>
      have hne : c ≠ q := by
        rintro rfl
        rw [Option.all_some, hc] at hquote
        cases hquote
      simp [Doctype.stepQuote, hne]
  have hpasses := @PassesOver.singleton c quote (by rw [beq_false_of_ne hend, Bool.and_false])
  rwa [hstep] at hpasses

theorem passesOver_qualified {n : Name} (hn : n.IsPlain) : PassesOver n.qualified none none := by
  refine .plain (fun c hc => ?_) rfl
  have hc : isNameChar c = true := Name.isNameChar_of_mem_qualified hn hc
  refine ⟨?_, ne_of_isNameChar hc (by decide)⟩
  simp [isQuote, ne_of_isNameChar hc (show isNameChar '"' = false by decide),
    ne_of_isNameChar hc (show isNameChar '\x27' = false by decide)]

theorem passesOver_written {a : Attribute} (ha : a.name.IsPlain) : PassesOver a.written none none := by
  have hvalue : PassesOver (writeValue a.value) (some '"') (some '"') := .of_forall fun c hc => by
    have hne : c ≠ '"' := fun h => not_mem_writeValue a.value (h ▸ hc)
    have h := @PassesOver.singleton c (some '"') rfl
    rwa [show Doctype.stepQuote (some '"') c = some '"' by simp [Doctype.stepQuote, hne]] at h
  have hspace : PassesOver [' '] none none := .singleton rfl
  have hopen : PassesOver ['=', '"'] none (some '"') := (PassesOver.singleton rfl).append (.singleton rfl)
  have hclose : PassesOver ['"'] (some '"') none := .singleton rfl
  exact (((hspace.append (passesOver_qualified ha)).append hopen).append hvalue).append hclose

theorem passesOver_writeTag {name : Name} {as : List Attribute} (hname : name.IsPlain)
    (has : Attribute.ArePlain as) : PassesOver (writeTag name as) none none := by
  refine (passesOver_qualified hname).append ?_
  induction as with
  | nil => exact .nil none
  | cons a as ih =>
    rw [List.flatMap_cons]
    exact (passesOver_written (has.isPlain a (List.mem_cons_self ..))).append (ih has.tail)

theorem readTag_of_passesOver {cs : List Char} (h : PassesOver cs none none) (token : List Char → Token)
    (rest : List Char) : readTag token (cs ++ '>' :: rest) = .ok (token cs, rest) := by
  have hcut : cutTag none (cs ++ '>' :: rest) = some (cs, rest) := by
    rw [h, cutTag]
    simp
  rw [readTag, hcut]

section Written
variable {name : Name} {as : List Attribute} (hname : name.IsPlain) (has : Attribute.ArePlain as)

include hname

theorem readMarkup_writeTag (rest : List Char) :
    readMarkup (writeTag name as ++ rest) = readTag ofTagBody (writeTag name as ++ rest) := by
  obtain ⟨c, cs, hqualified⟩ := Name.exists_qualified_eq_cons hname
  have hc : isNameChar c = true := Name.isNameChar_of_mem_qualified hname (hqualified ▸ List.mem_cons_self ..)
  rw [writeTag, hqualified]
  unfold readMarkup
  split
  · next heq => cases heq
  · next heq =>
    cases heq
    cases hc
  · next heq =>
    cases heq
    cases hc
  · next heq =>
    cases heq
    cases hc
  · rfl

theorem getLast?_writeTag : (writeTag name as).getLast? ≠ some '/' := by
  have hlast : ∀ as : List Attribute, (as.flatMap Attribute.written).getLast? = none ∨
      (as.flatMap Attribute.written).getLast? = some '"' := by
    intro as
    induction as with
    | nil => exact .inl rfl
    | cons a as ih =>
      have ha : a.written.getLast? = some '"' := List.getLast?_concat
      rw [List.flatMap_cons, List.getLast?_append, ha]
      rcases ih with h | h
      · exact .inr (by rw [h]; rfl)
      · exact .inr (by rw [h]; rfl)
  intro h
  rw [writeTag, List.getLast?_append] at h
  rcases hlast as with has | has
  · rw [has, Option.none_or] at h
    have hslash : isNameChar '/' = true :=
      Name.isNameChar_of_mem_qualified hname (List.mem_of_getLast? h)
    cases hslash
  · rw [has] at h
    cases h

theorem read_endTag (rest : List Char) :
    Token.read '<' ('/' :: (name.qualified ++ '>' :: rest)) = .ok (.endTag name.qualified, rest) := by
  have hspace : ∀ c ∈ name.qualified, isSpace c = false := fun c hc =>
    isSpace_of_isNameChar (Name.isNameChar_of_mem_qualified hname hc)
  obtain ⟨c, cs, hqualified⟩ := Name.exists_qualified_eq_cons hname
  have hnot : name.qualified.all isSpace = false := by
    rw [hqualified, List.all_cons, hspace c (hqualified ▸ List.mem_cons_self ..), Bool.false_and]
  have htrim : name.qualified.reverse.dropWhile isSpace = name.qualified.reverse := by
    rw [List.dropWhile_eq_self_iff]
    intro hpos
    rw [hspace _ (List.mem_reverse.mp (List.getElem_mem hpos))]
    exact Bool.false_ne_true
  have hend : endTagName name.qualified = name.qualified := by
    rw [endTagName, hnot, if_neg Bool.false_ne_true, htrim, List.reverse_reverse]
  show readTag (fun body => endTag (endTagName body)) (name.qualified ++ '>' :: rest) = _
  rw [readTag_of_passesOver (passesOver_qualified hname), hend]

include has

theorem read_startTag (rest : List Char) :
    Token.read '<' (writeTag name as ++ '>' :: rest) = .ok (.startTag (writeTag name as), rest) := by
  show readMarkup (writeTag name as ++ '>' :: rest) = _
  rw [readMarkup_writeTag hname, readTag_of_passesOver (passesOver_writeTag hname has), ofTagBody,
    if_neg (getLast?_writeTag hname)]

theorem read_emptyTag (rest : List Char) :
    Token.read '<' (writeTag name as ++ '/' :: '>' :: rest) = .ok (.emptyTag (writeTag name as), rest) := by
  have hpasses : PassesOver (writeTag name as ++ ['/']) none none :=
    (passesOver_writeTag hname has).append (.singleton rfl)
  have happend : writeTag name as ++ '/' :: '>' :: rest = writeTag name as ++ ['/'] ++ '>' :: rest := by simp
  show readMarkup (writeTag name as ++ '/' :: '>' :: rest) = _
  rw [readMarkup_writeTag hname, happend, readTag_of_passesOver hpasses, ofTagBody]
  simp

end Written

end Token

/-! ### Start tags -/

namespace StartTag
variable {name : Name} {as : List Attribute}

/-- The start tag that is written with the name and the attributes, where nothing is declared. -/
def written (name : Name) (as : List Attribute) : StartTag := ⟨name.qualified, .initial, as.map Attribute.raw, none⟩

theorem ofBody_writeTag (hname : name.IsPlain) (has : Attribute.ArePlain as) :
    ofBody .initial (writeTag name as) = .ok (written name as) := by
  have hspace : ∀ c ∈ name.qualified, (!isSpace c) = true := fun c hc => by
    rw [isSpace_of_isNameChar (Name.isNameChar_of_mem_qualified hname hc)]
    rfl
  have hattributes : (as.flatMap Attribute.written).dropWhile (fun c => !isSpace c) = as.flatMap Attribute.written ∧
      (as.flatMap Attribute.written).takeWhile (fun c => !isSpace c) = [] := by
    cases as <;> exact ⟨rfl, rfl⟩
  have hdrop : (writeTag name as).dropWhile (fun c => !isSpace c) = as.flatMap Attribute.written := by
    rw [writeTag, List.dropWhile_append_of_pos hspace, hattributes.1]
  have htake : (writeTag name as).takeWhile (fun c => !isSpace c) = name.qualified := by
    rw [writeTag, List.takeWhile_append_of_pos hspace, hattributes.2, List.append_nil]
  rw [ofBody, hdrop, htake, Attribute.scan_written has]
  dsimp only
  rw [Attribute.declareAll_raw has]
  rfl

theorem openElement_written (hname : name.IsPlain) (has : Attribute.ArePlain as) {limit : Nat} {p : Progress}
    (hlimit : p.opened.length < limit) : p.openElement limit (written name as) = .ok ⟨name, as, []⟩ := by
  have hread : (written name as).readAll = .ok as := by
    rw [readAll, written, Attribute.readAttributes_raw has fun a _ => List.not_mem_nil]
  have helement : (written name as).name = name := Scope.elementName_qualified hname
  rw [Progress.openElement, if_neg (Nat.not_le_of_lt hlimit), hread, helement]

end StartTag

/-! ### Reading tags -/

section Reading
variable {name : Name} {as : List Attribute} (hname : name.IsPlain) (has : Attribute.ArePlain as)
variable {limit : Nat} {tags : List StartTag} {p : Progress}

include hname

theorem readOn_endElement (o : OpenElement) (opened : List OpenElement) (root : Option Element) (rest : List Char) :
    readOn limit (.written name as :: tags) ⟨o :: opened, root⟩ (['<', '/'] ++ name.qualified ++ ['>'] ++ rest) =
      (Progress.addElement ⟨opened, root⟩ o.close).bind fun p => readOn limit tags p rest := by
  have hqualified : (StartTag.written name as).qualified = name.qualified := rfl
  have hread : Token.read '<' ('/' :: (name.qualified ++ ['>'] ++ rest)) = .ok (.endTag name.qualified, rest) := by
    rw [List.append_assoc]
    exact Token.read_endTag hname rest
  exact readOn_endTag hread hqualified

include has

theorem readOn_emptyElement (hscope : Events.scopeOf tags = .initial) (hlimit : p.opened.length < limit)
    (rest : List Char) :
    readOn limit tags p (['<'] ++ writeTag name as ++ ['/', '>'] ++ rest) =
      (p.addElement (.mk name as [])).bind fun p => readOn limit tags p rest := by
  have hread : Token.read '<' (writeTag name as ++ ['/', '>'] ++ rest) = .ok (.emptyTag (writeTag name as), rest) := by
    rw [List.append_assoc]
    exact Token.read_emptyTag hname has rest
  have hbody := StartTag.ofBody_writeTag hname has
  rw [← hscope] at hbody
  refine (readOn_emptyTag hread hbody).trans ?_
  rw [StartTag.openElement_written hname has hlimit]
  rfl

theorem readOn_startElement (hscope : Events.scopeOf tags = .initial) (hlimit : p.opened.length < limit)
    (rest : List Char) :
    readOn limit tags p (['<'] ++ writeTag name as ++ ['>'] ++ rest) =
      readOn limit (.written name as :: tags) { p with opened := ⟨name, as, []⟩ :: p.opened } rest := by
  have hread : Token.read '<' (writeTag name as ++ ['>'] ++ rest) = .ok (.startTag (writeTag name as), rest) := by
    rw [List.append_assoc]
    exact Token.read_startTag hname has rest
  have hbody := StartTag.ofBody_writeTag hname has
  rw [← hscope] at hbody
  refine (readOn_startTag hread hbody).trans ?_
  rw [StartTag.openElement_written hname has hlimit]
  rfl

end Reading

end Xml
end OfficeMath
