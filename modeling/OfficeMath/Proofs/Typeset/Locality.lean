import Mathlib
import OfficeMath.Proofs.Equation.DocumentOrder
import OfficeMath.Convert

/-! The LaTeX of a node is that of its element by itself. Only the array that a delimiter encloses looks at what is
    around it, and only through an `e`; every other node is set from the nodes below it alone. -/

namespace OfficeMath

namespace Latex

theorem joinFragments_singleton (fragment : String) : joinFragments [fragment] = fragment := by
  rw [joinFragments_eq, List.foldl_cons, List.foldl_nil, pushFragment_eq]
  simp [endsInControlWord]

end Latex

namespace Form

def isDelimiter : Form → Bool
  | delimiter _ => true
  | _ => false

theorem exists_fence_of_isDelimiter {form : Form} (h : form.isDelimiter = true) : ∃ fence, form = .delimiter fence := by
  cases form with
  | delimiter fence => exact ⟨fence, rfl⟩
  | _ => cases h

theorem isDelimiter_ofElement (e : Xml.Element) : (ofElement e).isDelimiter = e.isTag "d" :=
  test_ofElement isDelimiter .delimiter rfl (fun c => by cases c <;> rfl) (by simp [Construct.tags])

theorem isMatrix_ofElement (e : Xml.Element) : (ofElement e == matrix) = e.isTag "m" :=
  test_ofElement (· == matrix) .matrix rfl (fun c => by cases c <;> rfl) (by simp [Construct.tags])

theorem isMatrixRow_ofElement (e : Xml.Element) : (ofElement e == matrixRow) = e.isTag "mr" :=
  test_ofElement (· == matrixRow) .matrixRow rfl (fun c => by cases c <;> rfl) (by simp [Construct.tags])

theorem isEquationArray_ofElement (e : Xml.Element) : (ofElement e == equationArray) = e.isTag "eqArr" :=
  test_ofElement (· == equationArray) .equationArray rfl (fun c => by cases c <;> rfl) (by simp [Construct.tags])

end Form

namespace Node

variable {α : Type} {choice : ArrayEnvironment}

/-! ### Setting keeps the shape -/

mutual

theorem places_typeset (enclosure : Enclosure α) : ∀ n : Node α, (n.typeset choice enclosure).places = n.places
  | mk head note children => by
    rw [typeset, places, places, placesAll_typesetAll _ children]

theorem placesAll_typesetAll (enclosure : Enclosure α) :
    ∀ ns : List (Node α), placesAll (typesetAll choice enclosure ns) = placesAll ns
  | [] => rfl
  | n :: ns => by
    rw [typesetAll, placesAll, placesAll, places_typeset enclosure n, placesAll_typesetAll enclosure ns]

end

theorem typesetAll_eq_map (enclosure : Enclosure α) (ns : List (Node α)) :
    typesetAll choice enclosure ns = ns.map (typeset choice enclosure) := by
  induction ns with
  | nil => rfl
  | cons n ns ih => rw [typesetAll, List.map_cons, ih]

theorem children_typeset (enclosure : Enclosure α) (n : Node α) :
    (n.typeset choice enclosure).children = n.children.map (typeset choice (enclosure.inside n)) := by
  obtain ⟨head, note, children⟩ := n
  exact typesetAll_eq_map _ children

/-! ### What a node takes from outside -/

def isDelimiter (n : Node α) : Bool := n.form.isDelimiter

/-- The node is an array, which looks for a fence around it. -/
def isArray (n : Node α) : Bool := n.form == .matrix || n.form == .equationArray

theorem latexOf_of_not_isArray {n : Node String} (h : n.isArray = false) (fence fence' : Option Fence) :
    n.latexOf choice fence = n.latexOf choice fence' := by
  unfold latexOf kind
  cases hform : n.form with
  | matrix => simp [isArray, hform] at h
  | equationArray => simp [isArray, hform] at h
  | _ => rfl

end Node

namespace Enclosure

variable {α : Type} {enclosure : Enclosure α} {n : Node α} {parent? grandparent? : Option (Node α)}

/-- The enclosure is one that the nodes right above a node make: a delimiter, or an `e` in a delimiter. -/
inductive IsMadeBy (parent? grandparent? : Option (Node α)) : Enclosure α → Prop
  | none : IsMadeBy parent? grandparent? none
  | direct {d : Node α} (hparent : parent? = some d) (hd : d.isDelimiter = true) :
      IsMadeBy parent? grandparent? (direct d)
  | throughContainer {c d : Node α} (hparent : parent? = some c) (hc : c.isTag "e" = true)
      (hgrandparent : grandparent? = some d) (hd : d.isDelimiter = true) :
      IsMadeBy parent? grandparent? (throughContainer d)

theorem IsMadeBy.inside (h : enclosure.IsMadeBy parent? grandparent?) :
    (enclosure.inside n).IsMadeBy (some n) parent? := by
  unfold Enclosure.inside
  split
  · next fence hform =>
    split
    · exact .direct rfl (by rw [Node.isDelimiter, hform]; rfl)
    · exact .none
  · next d _ =>
    cases h with
    | direct hparent hd =>
      split
      · next he =>
        rw [Bool.and_eq_true] at he
        exact .throughContainer rfl he.1 hparent hd
      · exact .none
  · exact .none

theorem inside_direct {d : Node α} (hn : n.isTag "e" = false) : (direct d).inside n = none.inside n := by
  unfold Enclosure.inside
  cases n.form <;> simp [hn]

theorem inside_throughContainer (d : Node α) : (throughContainer d).inside n = none.inside n := by
  unfold Enclosure.inside
  cases n.form <;> rfl

end Enclosure

namespace Node

variable {α : Type} {choice : ArrayEnvironment} {enclosure : Enclosure α} {parent? grandparent? : Option (Node α)}

/-- What may make the LaTeX of a node depend on the nodes above it: an array in a delimiter or in an `e` in a
    delimiter may bring the fence, and an `e` in a delimiter may hold such an array. -/
def isExposed (parent? grandparent? : Option (Node α)) (n : Node α) : Bool :=
  n.isArray && (parent?.any isDelimiter || parent?.any (·.isTag "e") && grandparent?.any isDelimiter) ||
    n.isTag "e" && parent?.any isDelimiter

theorem typeset_congr {n : Node α} {enclosure' : Enclosure α} (hinside : enclosure.inside n = enclosure'.inside n)
    (harray : n.isArray = false) : n.typeset choice enclosure = n.typeset choice enclosure' := by
  obtain ⟨head, note, children⟩ := n
  rw [typeset, typeset, hinside]
  congr 1
  exact latexOf_of_not_isArray harray _ _

theorem typeset_of_isMadeBy (h : enclosure.IsMadeBy parent? grandparent?) {n : Node α}
    (hn : n.isExposed parent? grandparent? = false) : n.typeset choice enclosure = n.typeset choice .none := by
  cases h with
  | none => rfl
  | direct hparent hd =>
    simp only [isExposed, hparent, Option.any_some, hd, Bool.true_or, Bool.and_true, Bool.or_eq_false_iff] at hn
    exact typeset_congr (Enclosure.inside_direct hn.2) hn.1
  | throughContainer hparent hc hgrandparent hd =>
    simp only [isExposed, hparent, hgrandparent, Option.any_some, hc, hd, Bool.and_true, Bool.or_true,
      Bool.or_eq_false_iff] at hn
    exact typeset_congr (Enclosure.inside_throughContainer _) hn.1

/-! ### Looking up -/

/-- At a place among the trees that are set stands the node at the place, set inside what the nodes above it
    make. -/
theorem among?_typesetAll {roots : List (Node α)} {p : Place} {n : Node α}
    (h : Place.among? children roots p = some n) :
    ∃ enclosure, Place.among? children (typesetAll choice .none roots) p = some (n.typeset choice enclosure) ∧
      enclosure.IsMadeBy (Place.among? children roots p.dropLast) (Place.among? children roots p.dropLast.dropLast) := by
  -- from the end of the place: what a node is set inside is made by its parent, whatever that is set inside
  induction p using List.reverseRecOn generalizing n with
  | nil => cases h
  | append_singleton p k ih =>
    rw [List.dropLast_concat]
    by_cases hp : p = []
    · subst hp
      rw [List.nil_append, Place.among?_singleton] at h ⊢
      exact ⟨.none, by rw [typesetAll_eq_map, List.getElem?_map, h, Option.map_some], .none⟩
    · rw [Place.among?_append_singleton hp] at h ⊢
      obtain ⟨m, hm, hk⟩ := Option.bind_eq_some_iff.mp h
      obtain ⟨enclosure, htypeset, hmade⟩ := ih hm
      refine ⟨enclosure.inside m, ?_, hm ▸ hmade.inside⟩
      rw [htypeset, Option.bind_some, children_typeset, List.getElem?_map, hk, Option.map_some]

end Node

/-! ### Elements -/

namespace Node

variable {n : Node Unit} {e : Xml.Element}

theorem isTag_of_head (h : n.head = Head.ofElement e) (tag : String) : n.isTag tag = e.isTag tag := by
  rw [isTag, h]
  rfl

theorem isDelimiter_of_head (h : n.head = Head.ofElement e) : n.isDelimiter = e.isTag "d" := by
  rw [isDelimiter, form, h]
  exact Form.isDelimiter_ofElement e

theorem isArray_of_head (h : n.head = Head.ofElement e) : n.isArray = (e.isTag "m" || e.isTag "eqArr") := by
  rw [isArray, form, h, ← Form.isMatrix_ofElement, ← Form.isEquationArray_ofElement]
  rfl

end Node

namespace Xml.Element

/-- What may make the LaTeX of an element in a forest depend on what holds it: it is an array in a delimiter or in
    an `e` in a delimiter, or it is an `e` in a delimiter. -/
def isExposed (forest : List Element) (p : Place) (e : Element) : Bool :=
  let parent? := Place.among? parts forest p.dropLast
  let grandparent? := Place.among? parts forest p.dropLast.dropLast
  (e.isTag "m" || e.isTag "eqArr") &&
      (parent?.any (·.isTag "d") || parent?.any (·.isTag "e") && grandparent?.any (·.isTag "d")) ||
    e.isTag "e" && parent?.any (·.isTag "d")

end Xml.Element

namespace Equation

variable {options : Options} {limit : Nat} {root : Xml.Element} {q : Equation} {p : Place}

theorem any_among? (h : ofElement limit root = .ok q) (p : Place) {f : Node Unit → Bool} {g : Xml.Element → Bool}
    (hfg : ∀ {n e}, n.head = Head.ofElement e → f n = g e) :
    (Place.among? Node.children q.roots p).any f = (Place.among? Xml.Element.parts root.forest p).any g := by
  have hrel := rel_among?_roots h p
  generalize Place.among? Node.children q.roots p = n at hrel ⊢
  generalize Place.among? Xml.Element.parts root.forest p = e at hrel ⊢
  cases hrel with
  | none => rfl
  | some hread =>
    obtain ⟨depth, hread⟩ := hread
    exact hfg (Node.read_eq_ok_iff.mp hread).2.1

theorem isExposed_roots (h : ofElement limit root = .ok q) {n : Node Unit} {e : Xml.Element}
    (hhead : n.head = Head.ofElement e) :
    n.isExposed (Place.among? Node.children q.roots p.dropLast)
      (Place.among? Node.children q.roots p.dropLast.dropLast) = e.isExposed root.forest p := by
  unfold Node.isExposed Xml.Element.isExposed
  rw [Node.isArray_of_head hhead, Node.isTag_of_head hhead,
    any_among? h p.dropLast Node.isDelimiter_of_head, any_among? h p.dropLast fun hn => Node.isTag_of_head hn "e",
    any_among? h p.dropLast.dropLast Node.isDelimiter_of_head]

theorem nodeLatex_of_places {id : Nat} (hp : q.places[id]? = some p) {m : Node String}
    (hm : Place.among? Node.children (q.typeset options) p = some m) : q.nodeLatex options id = m.note := by
  have hplaces : (Node.placesAll (q.typeset options))[id]? = some p := by
    rw [typeset, Node.placesAll_typesetAll]
    exact hp
  rw [nodeLatex, ← Node.among?_of_placesAll hplaces, hm]
  rfl

theorem latex_singleton (n : Node Unit) :
    latex options ⟨[n]⟩ = (n.typeset options.equationArray .none).note := Latex.joinFragments_singleton _

/-- Setting is compositional: what a node of an equation is written as is what its element by itself is written
    as, unless what holds the element may have it bring a fence. -/
theorem nodeLatex_eq_latex (options : Options) (h : ofElement limit root = .ok q) {id : Nat} (hid : id < q.size) :
    ∃ p e, q.places[id]? = some p ∧ Place.among? Xml.Element.parts root.forest p = some e ∧
      (e.isExposed root.forest p = false → e.isTag "oMath" = false →
        ∃ q', ofElement limit e = .ok q' ∧ q.nodeLatex options id = q'.latex options) := by
  rw [← length_places] at hid
  have hp : q.places[id]? = some q.places[id] := List.getElem?_eq_getElem hid
  generalize q.places[id] = p at hp
  have hmem := (Node.mem_placesAll q.roots p).mp (List.mem_of_getElem? hp)
  obtain ⟨n, hn⟩ := Option.isSome_iff_exists.mp hmem
  have hrel := rel_among?_roots h p
  rw [hn] at hrel
  generalize he : Place.among? Xml.Element.parts root.forest p = e? at hrel
  cases hrel with | some hread =>
  next e =>
  obtain ⟨depth, hread⟩ := hread
  refine ⟨p, e, hp, he, fun hexposed hmath => ⟨⟨[n]⟩, ?_, ?_⟩⟩
  · rw [ofElement, hmath, Node.read_of_le n hread (Nat.zero_le depth)]
    rfl
  · obtain ⟨enclosure, hlookup, hmade⟩ := Node.among?_typesetAll hn
    rw [← isExposed_roots h (Node.read_eq_ok_iff.mp hread).2.1] at hexposed
    rw [nodeLatex_of_places hp hlookup, latex_singleton, Node.typeset_of_isMadeBy hmade hexposed]

/-- A fraction inside an `e` in a delimiter is written as it is by itself. -/
theorem nodeLatex_eq_latex_of_fraction :
    let text : Xml.Element := (Xml.Element.math "t").addContent (.text "x")
    let run : Xml.Element := (Xml.Element.math "r").addContent (.element text)
    let part (tag : String) : Xml.Content := .element ((Xml.Element.math tag).addContent (.element run))
    let fraction : Xml.Element := ((Xml.Element.math "f").addContent (part "num")).addContent (part "den")
    let container : Xml.Element := (Xml.Element.math "e").addContent (.element fraction)
    let delimiter : Xml.Element := (Xml.Element.math "d").addContent (.element container)
    ∃ q q', ofElement 5 delimiter = .ok q ∧ 2 < q.size ∧ ofElement 5 fraction = .ok q' ∧
      q.nodeLatex {} 2 = q'.latex {} := by
  intro text run part fraction container delimiter
  obtain ⟨p, e, hp, he, hlocal⟩ := @nodeLatex_eq_latex 5 delimiter _ {} rfl 2 (by decide)
  obtain rfl : [0, 0, 0] = p := Option.some.inj hp
  obtain rfl : fraction = e := Option.some.inj he
  obtain ⟨q', hq', hlatex⟩ := hlocal (by decide) (by decide)
  exact ⟨_, q', rfl, by decide, hq', hlatex⟩

end Equation

end OfficeMath
