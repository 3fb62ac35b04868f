import OfficeMath.Proofs.Xml.Prolog
import OfficeMath.Proofs.Xml.WrittenTag

/-! The declaration that the prefix `m` does not need. A root that does not declare it is read as if it bound it to the
    namespace of office math, whatever elements in it declare: the prefix stands for that namespace where nothing is
    bound to it, and every later declaration hides both alike. -/

namespace OfficeMath
namespace Xml

variable {limit : Nat} {tags : List StartTag} {p : Progress}

/-! ### The cut of a tag -/

namespace Token

theorem tagName?_of_readDeclaration {t : Token} {cs rest : List Char} (h : readDeclaration cs = .ok (t, rest)) :
    t.tagName? = none := by
  unfold readDeclaration at h
  split at h
  · split at h <;> cases h
    rfl
  · split at h <;> cases h
    rfl
  · split at h
    · split at h <;> cases h
      rfl
    · cases h
  · cases h

theorem tagName?_ofInstruction (chars : List Char) : (ofInstruction chars).tagName? = none := by
  unfold ofInstruction
  split
  · split <;> rfl
  · rfl

theorem tagName?_of_readInstruction {t : Token} {cs rest : List Char} (h : readInstruction cs = .ok (t, rest)) :
    t.tagName? = none := by
  unfold readInstruction at h
  split at h
  · cases h
  · split at h <;> cases h
    exact tagName?_ofInstruction _

/-- A tag that starts an element is cut out whole. -/
theorem exists_cutTag_of_read {t : Token} {cs rest name : List Char} (h : read '<' cs = .ok (t, rest))
    (hname : t.tagName? = some name) :
    cs.head?.all startsTag = true ∧ ∃ cut, cutTag none cs = some (cut, rest) ∧ t = ofTagBody cut := by
  rw [read_markup] at h
  unfold readMarkup at h
  split at h
  · cases h
  · rw [tagName?_of_readDeclaration h] at hname
    cases hname
  · rw [tagName?_of_readInstruction h] at hname
    cases hname
  · unfold readTag at h
    split at h <;> cases h
    cases hname
  · next hdeclaration hinstruction hend =>
    unfold readTag at h
    split at h
    · next cut rest hcut =>
      cases h
      refine ⟨?_, cut, hcut, rfl⟩
      cases cs with
      | nil => rfl
      | cons c cs => exact startsTag_of_ne hdeclaration hinstruction hend
    · cases h

/-- Up to a place before its end, a tag is passed over, and then it is cut at its end. -/
theorem exists_passesOver_of_cutTag {cs cs' body rest : List Char} {quote : Option Char}
    (h : cutTag quote (cs ++ cs') = some (cs ++ body, rest)) (hquote : quote.all isQuote = true) :
    ∃ quote', quote'.all isQuote = true ∧ PassesOver cs quote quote' ∧ cutTag quote' cs' = some (body, rest) := by
  induction cs generalizing quote with
  | nil => exact ⟨quote, hquote, .nil quote, h⟩
  | cons c cs ih =>
    rw [List.cons_append, cutTag] at h
    split at h
    · cases h
    · next hend =>
      obtain ⟨⟨body', rest'⟩, hcut, heq⟩ := Option.map_eq_some_iff.mp h
      cases heq
      have hstep : (Doctype.stepQuote quote c).all isQuote = true := by
        unfold Doctype.stepQuote
        split
        · split
          · rfl
          · exact hquote
        · split
          · next hc => exact hc
          · rfl
      obtain ⟨quote', hquote', hpasses, hcut⟩ := ih hcut hstep
      exact ⟨quote', hquote', (PassesOver.singleton (Bool.eq_false_iff.mpr hend)).append hpasses, hcut⟩

end Token

/-! ### The declaration in a tag -/

/-- The declaration that binds the prefix `m` to the namespace of office math, as it is found in a tag. -/
def declaredMath : RawAttribute := ⟨"xmlns:m".toList, mathNamespace.toList⟩

/-- The declaration as it is written after the name in a tag. -/
def mathDeclaration : List Char :=
  ' ' :: (declaredMath.key ++ '=' :: '"' :: (declaredMath.value ++ ['"']))

theorem mathDeclaration_append (rest : List Char) :
    mathDeclaration ++ rest =
      ' ' :: (declaredMath.key ++ '=' :: '"' :: (declaredMath.value ++ '"' :: rest)) := by
  simp [mathDeclaration]

namespace Token

/-- A value between double quotes is passed over outside quotes and in them, and leaves them as they are. -/
theorem PassesOver.quoted {before value : List Char} (hbefore : before.all (fun c => !isQuote c && c != '>') = true)
    (hvalue : value.all (fun c => !isQuote c && c != '>') = true) {quote : Option Char}
    (hquote : quote.all isQuote = true) : PassesOver (before ++ '"' :: (value ++ ['"'])) quote quote := by
  have hplain {cs : List Char} (h : cs.all (fun c => !isQuote c && c != '>') = true) :
      ∀ c ∈ cs, isQuote c = false ∧ c ≠ '>' := fun c hc => by simpa using List.all_eq_true.mp h c hc
  have hquote' : (Doctype.stepQuote quote '"').all isQuote = true ∧
      Doctype.stepQuote (Doctype.stepQuote quote '"') '"' = quote := by
    cases quote with
    | none => exact ⟨rfl, rfl⟩
    | some q =>
      rcases (by simpa [isQuote] using hquote : q = '"' ∨ q = '\x27') with rfl | rfl <;> exact ⟨rfl, rfl⟩
  have hopen : PassesOver ['"'] quote (Doctype.stepQuote quote '"') := .singleton (Bool.and_false _)
  have hclose : PassesOver ['"'] (Doctype.stepQuote quote '"') quote := by
    have h := @PassesOver.singleton '"' (Doctype.stepQuote quote '"') (Bool.and_false _)
    rwa [hquote'.2] at h
  exact (PassesOver.plain (hplain hbefore) hquote).append
    (hopen.append ((PassesOver.plain (hplain hvalue) hquote'.1).append hclose))

theorem all_value_declaredMath : declaredMath.value.all (fun c => !isQuote c && c != '>') = true := by decide

theorem passesOver_mathDeclaration {quote : Option Char} (hquote : quote.all isQuote = true) :
    PassesOver mathDeclaration quote quote := by
  have hbefore : (' ' :: (declaredMath.key ++ ['='])).all (fun c => !isQuote c && c != '>') = true := by decide
  exact PassesOver.quoted hbefore all_value_declaredMath hquote

theorem ofTagBody_slash (body : List Char) : ofTagBody (body ++ ['/']) = emptyTag body := by
  rw [ofTagBody, List.getLast?_concat, if_pos rfl, List.dropLast_concat]

theorem ofTagBody_of_ne {body : List Char} (h : body.getLast? ≠ some '/') : ofTagBody body = startTag body := if_neg h

/-- The declaration is cut out with the tag that it stands in. -/
theorem read_of_cutTag {name after body rest : List Char} (hstarts : (name ++ after).head?.all startsTag = true)
    (hcut : cutTag none (name ++ after) = some (name ++ body, rest)) :
    read '<' (name ++ mathDeclaration ++ after) = .ok (ofTagBody (name ++ mathDeclaration ++ body), rest) := by
  obtain ⟨quote, hquote, hpasses, hcut⟩ := exists_passesOver_of_cutTag hcut rfl
  have hcut' : cutTag none (name ++ mathDeclaration ++ after) = some (name ++ mathDeclaration ++ body, rest) := by
    rw [hpasses.append (passesOver_mathDeclaration hquote), hcut]
    rfl
  have hmarkup : readMarkup (name ++ mathDeclaration ++ after) =
      readTag ofTagBody (name ++ mathDeclaration ++ after) := by
    cases name with
    | nil => exact readMarkup_of_startsTag rfl _
    | cons c cs => exact readMarkup_of_startsTag (by simpa using hstarts) _
  rw [read_markup, hmarkup, readTag, hcut']

/-- The declaration ends in a quote, so it does not make a tag one of an empty element. -/
theorem getLast?_mathDeclaration {name body : List Char} (h : (name ++ body).getLast? ≠ some '/') :
    (name ++ mathDeclaration ++ body).getLast? ≠ some '/' := by
  rw [List.getLast?_append] at h ⊢
  cases hlast : body.getLast? with
  | none =>
    have hquote : mathDeclaration.getLast? = some '"' := by decide
    rw [List.getLast?_append, hquote]
    exact Bool.of_decide_false rfl
  | some c =>
    rw [hlast] at h
    exact h

/-- With the declaration after its name, a tag is the same kind of tag. -/
theorem read_tag_mathDeclaration {t : Token} {name after rest : List Char}
    (h : read '<' (name ++ after) = .ok (t, rest)) (hname : t.tagName? = some name) :
    ∃ body, (name ++ body).takeWhile (fun c => !isSpace c) = name ∧
      (t = startTag (name ++ body) ∧
          read '<' (name ++ mathDeclaration ++ after) = .ok (startTag (name ++ mathDeclaration ++ body), rest) ∨
        t = emptyTag (name ++ body) ∧
          read '<' (name ++ mathDeclaration ++ after) = .ok (emptyTag (name ++ mathDeclaration ++ body), rest)) := by
  obtain ⟨hstarts, cut, hcut, rfl⟩ := exists_cutTag_of_read h hname
  -- the slash of an empty element stands after the attributes, so it is not part of the name
  have hsplit {body : List Char} (h : body.takeWhile (fun c => !isSpace c) = name) :
      ∃ attributes, body = name ++ attributes :=
    ⟨body.dropWhile fun c => !isSpace c, by rw [← h, List.takeWhile_append_dropWhile]⟩
  by_cases hslash : cut.getLast? = some '/'
  · obtain ⟨body, rfl⟩ : ∃ body, cut = body ++ ['/'] := List.getLast?_eq_some_iff.mp hslash
    rw [ofTagBody_slash] at hname ⊢
    have hname := Option.some.inj hname
    obtain ⟨attributes, rfl⟩ := hsplit hname
    rw [List.append_assoc] at hcut
    refine ⟨attributes, hname, .inr ⟨rfl, ?_⟩⟩
    rw [read_of_cutTag hstarts hcut, ← List.append_assoc, ofTagBody_slash]
  · rw [ofTagBody_of_ne hslash] at hname ⊢
    have hname := Option.some.inj hname
    obtain ⟨attributes, rfl⟩ := hsplit hname
    refine ⟨attributes, hname, .inl ⟨rfl, ?_⟩⟩
    rw [read_of_cutTag hstarts hcut, ofTagBody_of_ne (getLast?_mathDeclaration hslash)]

end Token

/-! ### What the declaration binds -/

theorem scan_mathDeclaration (cs : List Char) :
    RawAttribute.scan (mathDeclaration ++ cs) =
      (declaredMath :: (RawAttribute.scan cs).1, (RawAttribute.scan cs).2) := by
  have hspace : (mathDeclaration ++ cs).dropWhile isSpace =
      'x' :: ("mlns:m".toList ++ '=' :: '"' :: (declaredMath.value ++ '"' :: cs)) := by
    rw [mathDeclaration_append]
    rfl
  have hkey : ∀ d ∈ "mlns:m".toList, RawAttribute.inKey d = true := List.all_eq_true.mp rfl
  have hvalue : '"' ∉ declaredMath.value := fun h => by
    cases List.all_eq_true.mp Token.all_value_declaredMath _ h
  exact RawAttribute.scan_of_ok hspace (RawAttribute.read_quoted hkey hvalue cs)

theorem declare_declaredMath :
    Scope.initial.declare declaredMath = .ok ((some mathPrefix, mathNamespace) :: Scope.initial) := by
  decide

theorem maps_declaredMath : Scope.Maps some .initial ((some mathPrefix, mathNamespace) :: Scope.initial) := by
  intro written
  rw [Option.bind_fun_some, Scope.namespace?_cons]
  split
  · next hwritten =>
    subst hwritten
    decide
  · rfl

/-- Keys that no attribute has make no difference by having been seen. -/
theorem readAttributes_congr {scope : Scope} {as : List RawAttribute} {seen seen' : List (List Char)}
    (h : ∀ a ∈ as, seen.contains a.key = seen'.contains a.key) :
    readAttributes scope seen as = readAttributes scope seen' as := by
  induction as generalizing seen seen' with
  | nil => rfl
  | cons a as ih =>
    obtain ⟨ha, has⟩ := List.forall_mem_cons.mp h
    have htail : readAttributes scope (a.key :: seen) as = readAttributes scope (a.key :: seen') as :=
      ih fun b hb => by rw [List.contains_cons, List.contains_cons, has b hb]
    rw [readAttributes, readAttributes, ha, htail]

theorem readAll_declaredMath {qualified : List Char} {scope : Scope} {as : List RawAttribute} {fault : Option Malformed}
    (h : ∀ a ∈ as, a.key ≠ declaredMath.key) :
    StartTag.readAll ⟨qualified, scope, declaredMath :: as, fault⟩ = StartTag.readAll ⟨qualified, scope, as, fault⟩ := by
  have hseen : ∀ a ∈ as, [declaredMath.key].contains a.key = [].contains a.key := fun a ha => by simp [h a ha]
  have hread : readAttributes scope [] (declaredMath :: as) = readAttributes scope [] as := by
    rw [readAttributes]
    exact readAttributes_congr hseen
  unfold StartTag.readAll
  rw [hread]

section
variable {name attributes : List Char} (hname : (name ++ attributes).takeWhile (fun c => !isSpace c) = name)

include hname

theorem dropWhile_tag : (name ++ attributes).dropWhile (fun c => !isSpace c) = attributes := by
  have h := List.takeWhile_append_dropWhile (p := fun c => !isSpace c) (l := name ++ attributes)
  rw [hname] at h
  exact List.append_cancel_left h

theorem ofBody_append (outer : Scope) :
    StartTag.ofBody outer (name ++ attributes) =
      (outer.declareAll (RawAttribute.scan attributes).1).map fun scope =>
        ⟨name, scope, (RawAttribute.scan attributes).1, (RawAttribute.scan attributes).2⟩ := by
  unfold StartTag.ofBody
  rw [hname, dropWhile_tag hname]

theorem ofBody_mathDeclaration :
    StartTag.ofBody .initial (name ++ mathDeclaration ++ attributes) =
      (Scope.declareAll ((some mathPrefix, mathNamespace) :: Scope.initial) (RawAttribute.scan attributes).1).map
        fun scope => ⟨name, scope, declaredMath :: (RawAttribute.scan attributes).1, (RawAttribute.scan attributes).2⟩ := by
  have hnospace : ∀ c ∈ name, (!isSpace c) = true := fun c hc => by
    rw [← hname] at hc
    exact List.all_eq_true.mp List.all_takeWhile c hc
  have hname' : (name ++ (mathDeclaration ++ attributes)).takeWhile (fun c => !isSpace c) = name := by
    rw [List.takeWhile_append_of_pos hnospace]
    exact List.append_nil name
  rw [List.append_assoc, ofBody_append hname', scan_mathDeclaration, Scope.declareAll, List.foldlM_cons,
    declare_declaredMath]
  rfl

/-- The tag of a root binds every prefix alike with the declaration and without it. -/
theorem maps_ofBody_mathDeclaration
    (hundeclared : ∀ a ∈ (Token.startTag (name ++ attributes)).attributes, a.key ≠ declaredMath.key) :
    SameOutcome (StartTag.Maps some) (StartTag.ofBody .initial (name ++ attributes))
      (StartTag.ofBody .initial (name ++ mathDeclaration ++ attributes)) := by
  have hundeclared : ∀ a ∈ (RawAttribute.scan ((name ++ attributes).dropWhile fun c => !isSpace c)).1,
      a.key ≠ declaredMath.key := hundeclared
  rw [dropWhile_tag hname] at hundeclared
  rw [ofBody_append hname, ofBody_mathDeclaration hname]
  refine (maps_declaredMath.declareAll fun _ _ => .inl rfl).map fun scope scope' h => ⟨rfl, h, ?_⟩
  rw [readAll_declaredMath hundeclared]
  exact h.readAll _ _ _

end

theorem readOn_eq_of_read {tags' : List StartTag} {p' : Progress} {c c' : Char} {cs cs' rest : List Char} {t t' : Token}
    (hread : Token.read c cs = .ok (t, rest)) (hread' : Token.read c' cs' = .ok (t', rest))
    (ht : SameOutcome (MapsReading some) (takeToken limit tags p t) (takeToken limit tags' p' t')) :
    readOn limit tags' p' (c' :: cs') = readOn limit tags p (c :: cs) := by
  have hrest : ∀ t ∈ (Token.scan rest).1, ∀ a ∈ t.attributes,
      (some : String → Option String) = some ∨ declaredPrefix? a.key = none := fun _ _ _ _ => .inl rfl
  rw [readOn_mapUri_of_read (Scope.Maps.refl _) hread hread' ht hrest, Element.mapUri_some]
  exact congrFun Except.map_id _

/-- A text whose first markup is the tag of the root, in which the prefix `m` is not declared, is read the same as with
    the declaration that binds it to the namespace of office math, whatever is declared further inside. -/
theorem Element.read_mathDeclaration {x x' : String} {before name after rest : List Char} {t : Token}
    (hx : x.toList = before ++ '<' :: (name ++ after))
    (hx' : x'.toList = before ++ '<' :: (name ++ mathDeclaration ++ after)) (hbefore : '<' ∉ before)
    (hroot : Token.read '<' (name ++ after) = .ok (t, rest)) (hname : t.tagName? = some name)
    (hundeclared : ∀ a ∈ t.attributes, a.key ≠ declaredMath.key) (limit : Nat) :
    Element.read limit x' = Element.read limit x := by
  have htag : readOn limit [] .start ('<' :: (name ++ mathDeclaration ++ after)) =
      readOn limit [] .start ('<' :: (name ++ after)) := by
    obtain ⟨attributes, htake, ⟨rfl, hroot'⟩ | ⟨rfl, hroot'⟩⟩ := Token.read_tag_mathDeclaration hroot hname
    · exact readOn_eq_of_read hroot hroot'
        (takeToken_startTag_mapUri .nil (maps_ofBody_mathDeclaration htake hundeclared))
    · exact readOn_eq_of_read hroot hroot'
        (takeToken_emptyTag_mapUri .nil (maps_ofBody_mathDeclaration htake hundeclared))
  have hmark : '<' ∉ Events.withoutByteOrderMark before := fun h => hbefore (Events.withoutByteOrderMark_subset _ h)
  rw [Element.read_eq_readOn, Element.read_eq_readOn, hx, hx', Events.withoutByteOrderMark_append_markup,
    Events.withoutByteOrderMark_append_markup]
  rcases @readOn_before_markup .start limit [] rfl _ hmark with h | ⟨e, h⟩
  · rw [h, h, htag]
  · rw [h, h]

/-- A root with an attribute of its own, and an element in it that binds the prefix to the empty text. -/
theorem Element.read_mathDeclaration_of_unbound :
    let x := " <m:a k=\"\"><m:b xmlns:m=\"\"/></m:a>"
    let x' := " <m:a xmlns:m=\"" ++ mathNamespace ++ "\" k=\"\"><m:b xmlns:m=\"\"/></m:a>"
    let root : Token := .startTag "m:a k=\"\"".toList
    let rest := "<m:b xmlns:m=\"\"/></m:a>".toList
    Token.read '<' "m:a k=\"\"><m:b xmlns:m=\"\"/></m:a>".toList = .ok (root, rest) ∧
      root.tagName? = some "m:a".toList ∧ (∀ a ∈ root.attributes, a.key ≠ declaredMath.key) ∧
      (∀ limit, Element.read limit x' = Element.read limit x) ∧
      Element.read 2 x = .ok (.mk (.math "a") [⟨⟨none, "k"⟩, ""⟩] [.element (.math "b")]) := by
  intro x x' root rest
  have hread : Token.read '<' "m:a k=\"\"><m:b xmlns:m=\"\"/></m:a>".toList = .ok (root, rest) := by rfl
  have hname : root.tagName? = some "m:a".toList := by rfl
  have hundeclared : ∀ a ∈ root.attributes, a.key ≠ declaredMath.key := by
    have hattributes : root.attributes = [⟨['k'], []⟩] := by cbv
    rw [hattributes]
    decide
  have hx' : x'.toList = [' '] ++
      '<' :: ("m:a".toList ++ mathDeclaration ++ " k=\"\"><m:b xmlns:m=\"\"/></m:a>".toList) := by
    rw [String.toList_append, String.toList_append, List.append_assoc _ mathDeclaration, mathDeclaration_append]
    show _ ++ declaredMath.value ++ _ = _
    generalize declaredMath.value = uri
    rw [List.append_assoc]
    rfl
  refine ⟨hread, hname, hundeclared, ?_, by cbv⟩
  have hx : x.toList = [' '] ++ '<' :: ("m:a".toList ++ " k=\"\"><m:b xmlns:m=\"\"/></m:a>".toList) := by cbv
  exact Element.read_mathDeclaration hx hx' (by decide) hread hname hundeclared

end Xml
end OfficeMath
