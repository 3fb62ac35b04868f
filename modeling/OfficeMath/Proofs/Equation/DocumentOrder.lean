import Mathlib
import OfficeMath.Proofs.Equation.Source
import OfficeMath.Proofs.Equation.Tree

/-! The outline of an equation against the elements it was read from. Every element that becomes a node has a
    place in the forest of the root; the places in document order are the numbers of the nodes, and parents and
    children by number are those by place. -/

namespace OfficeMath

/-- The kind is the one that nodes of the construct have, or nodes of no construct. -/
def Kind.IsOf {ρ : Type} (c : Option Construct) : Kind ρ → Prop
  | .generic => c = none
  | .run _ => c = some .run
  | .fraction .. => c = some .fraction
  | .radical .. => c = some .radical
  | .script .. => c = some .subscript ∨ c = some .superscript ∨ c = some .subSuperscript
  | .preScript .. => c = some .preScript
  | .delimiter .. => c = some .delimiter
  | .function .. => c = some .function
  | .nary .. => c = some .nary
  | .matrix _ => c = some .matrix
  | .matrixRow _ => c = some .matrixRow
  | .limit upper .. => c = some (if upper then .upperLimit else .lowerLimit)
  | .equationArray _ => c = some .equationArray
  | .accent .. => c = some .accent
  | .bar .. => c = some .bar
  | .box bordered _ => c = some (if bordered then .borderBox else .box)
  | .groupCharacter .. => c = some .groupCharacter
  | .phantom .. => c = some .phantom

theorem Node.kind_isOf {α : Type} {n : Node α} {e : Xml.Element} (h : n.head = Head.ofElement e) :
    n.kind.IsOf (Form.construct? e) := by
  have hform : n.form = Form.ofElement e := congrArg Head.form h
  unfold Node.kind
  rw [hform]
  unfold Form.ofElement
  cases Form.construct? e with
  | none => rfl
  | some c => cases c <;> simp [Form.ofConstruct, Kind.IsOf]

namespace Equation
variable {q : Equation} {i : Nat} {p : Place}

/-- The places of all nodes, in document order. -/
def places (q : Equation) : List Place := Node.placesAll q.roots

/-! ### Numbers and places -/

theorem placesAll_numbered (q : Equation) : Node.placesAll q.numbered = q.places :=
  Node.placesAll_numberAll 0 q.roots

theorem length_places (q : Equation) : q.places.length = q.size := Node.length_placesAll q.roots

theorem note_of_preorder {n : Node Nat} (h : (Node.preorderAll q.numbered)[i]? = some n) : n.note = i := by
  have hnotes := congrArg (·[i]?) (Node.map_note_preorderAll_numberAll 0 q.roots)
  obtain ⟨hlt, -⟩ := List.getElem?_eq_some_iff.mp h
  have hsize : i < Node.sizeAll q.roots := by
    have := Node.map_note_preorderAll_numberAll 0 q.roots
    have := congrArg List.length this
    simp only [List.length_map, List.length_range'] at this
    unfold numbered at hlt
    omega
  simp only [List.getElem?_map, List.getElem?_range' hsize] at hnotes
  unfold numbered at h
  simpa [h] using hnotes

/-- The node with the number `i` is the one at the `i`-th place. -/
theorem places_getElem?_iff :
    q.places[i]? = some p ↔ ∃ n, Place.among? Node.children q.numbered p = some n ∧ n.note = i := by
  rw [← placesAll_numbered]
  constructor
  · intro h
    have hat := Node.among?_of_placesAll h
    have hmem := (Node.mem_placesAll q.numbered p).mp (List.mem_of_getElem? h)
    obtain ⟨n, hn⟩ := Option.isSome_iff_exists.mp hmem
    exact ⟨n, hn, note_of_preorder (hat.symm.trans hn)⟩
  · rintro ⟨n, hn, rfl⟩
    have hmem := (Node.mem_placesAll q.numbered p).mpr (Option.isSome_of_eq_some hn)
    obtain ⟨j, hj⟩ := List.mem_iff_getElem?.mp hmem
    have hnote := note_of_preorder ((Node.among?_of_placesAll hj).symm.trans hn)
    rw [hnote]
    exact hj

theorem places_getElem?_note {n : Node Nat} (h : Place.among? Node.children q.numbered p = some n) :
    q.places[n.note]? = some p :=
  places_getElem?_iff.mpr ⟨n, h, rfl⟩

theorem places_getElem?_inj {j : Nat} (hi : q.places[i]? = some p) (hj : q.places[j]? = some p) : i = j := by
  obtain ⟨n, hn, rfl⟩ := places_getElem?_iff.mp hi
  obtain ⟨m, hm, rfl⟩ := places_getElem?_iff.mp hj
  rw [hn] at hm
  cases hm
  rfl

/-- The entry of a number is about the node at its place and names the node above it. -/
theorem entry?_of_places (h : q.places[i]? = some p) :
    ∃ entry, q.entry? i = some entry ∧ Place.among? Node.children q.numbered p = some entry.node ∧
      entry.parent = Node.above? none q.numbered p := by
  have hnode := congrArg (·[i]?) (Node.map_node_entriesAll none .none q.numbered)
  have hparent := congrArg (·[i]?) (Node.map_parent_entriesAll none .none q.numbered)
  rw [← placesAll_numbered] at h
  have hat := Node.among?_of_placesAll h
  simp only [List.getElem?_map, h, Option.map_some, ← hat] at hnode hparent
  unfold entry? outline
  cases hentry : (Node.entriesAll none .none q.numbered)[i]? with
  | none => simp [hentry] at hparent
  | some entry =>
    simp only [hentry, Option.map_some, Option.some.injEq] at hnode hparent
    exact ⟨entry, rfl, hnode.symm, hparent⟩

/-! ### Parents and children -/

theorem parentId?_iff {entry : Entry} (hentry : entry.parent = Node.above? none q.numbered p) (j : Nat) :
    entry.parentId? = some j ↔ q.places[j]? = some p.dropLast := by
  unfold Entry.parentId?
  rw [hentry, Option.map_eq_some_iff, places_getElem?_iff, Node.above?]
  by_cases hp : p.dropLast = []
  · rw [if_pos hp, hp]
    simp
  · rw [if_neg hp]

theorem childIds_places {entry : Entry} (hnode : Place.among? Node.children q.numbered p = some entry.node) :
    entry.childIds.map (q.places[·]?) =
      (List.range entry.node.children.length).map fun k => some (p ++ [k]) := by
  have hp : p ≠ [] := by
    rintro rfl
    cases hnode
  unfold Entry.childIds
  apply List.ext_getElem?
  intro k
  simp only [List.map_map, List.getElem?_map]
  cases hk : entry.node.children[k]? with
  | none =>
    rw [List.getElem?_eq_none_iff] at hk
    simp [hk]
  | some n =>
    have hlt := (List.getElem?_eq_some_iff.mp hk).1
    have hn : Place.among? Node.children q.numbered (p ++ [k]) = some n := by
      rw [Place.among?_append_singleton hp, hnode]
      exact hk
    simp [List.getElem?_range hlt, places_getElem?_note hn]

theorem rootIds_places (q : Equation) :
    q.rootIds.map (q.places[·]?) = (List.range q.roots.length).map fun k => some [k] := by
  unfold rootIds
  apply List.ext_getElem?
  intro k
  simp only [List.map_map, List.getElem?_map]
  have hlength : q.numbered.length = q.roots.length := Node.length_numberAll 0 q.roots
  cases hk : q.numbered[k]? with
  | none =>
    rw [List.getElem?_eq_none_iff] at hk
    simp [← hlength, hk]
  | some n =>
    have hlt := (List.getElem?_eq_some_iff.mp hk).1
    have hn : Place.among? Node.children q.numbered [k] = some n := Place.among?_singleton.trans hk
    simp [List.getElem?_range (hlength ▸ hlt), places_getElem?_note hn]

theorem mem_of_map_places {ids : List Nat} {n : Nat} {f : Nat → Place}
    (h : ids.map (q.places[·]?) = (List.range n).map fun k => some (f k)) (hi : q.places[i]? = some p) :
    i ∈ ids ↔ ∃ k < n, p = f k := by
  constructor
  · intro hmem
    have hp := List.mem_map_of_mem (f := (q.places[·]?)) hmem
    rw [h, hi] at hp
    simpa [eq_comm] using hp
  · rintro ⟨k, hk, rfl⟩
    have hp : some (f k) ∈ ids.map (q.places[·]?) := by
      rw [h]
      exact List.mem_map.mpr ⟨k, List.mem_range.mpr hk, rfl⟩
    obtain ⟨j, hj, hplace⟩ := List.mem_map.mp hp
    rwa [places_getElem?_inj hi hplace]

/-! ### Elements -/

/-- The numbered node at a place says what the element at that place says, and has a child for each of its
    parts. -/
theorem source_of_numbered {limit : Nat} {root : Xml.Element} (h : ofElement limit root = .ok q) {n : Node Nat}
    (hn : Place.among? Node.children q.numbered p = some n) :
    ∃ e, Place.among? Xml.Element.parts root.forest p = some e ∧ n.head = Head.ofElement e ∧
      n.children.length = e.parts.length := by
  have hnumber := Node.rel_among?_numberAll 0 q.roots p
  rw [show Node.numberAll 0 q.roots = q.numbered from rfl, hn] at hnumber
  have hroots := rel_among?_roots h p
  generalize Place.among? Node.children q.roots p = m at hnumber hroots
  generalize Place.among? Xml.Element.parts root.forest p = e at hroots
  cases hnumber with | some hfirst => cases hroots with | some hread =>
  obtain ⟨first, rfl⟩ := hfirst
  obtain ⟨depth, hread⟩ := hread
  obtain ⟨-, hhead, hparts⟩ := Node.read_eq_ok_iff.mp hread
  exact ⟨_, rfl, (Node.head_number _ _).trans hhead, (Node.length_children_number _ _).trans hparts.length_eq.symm⟩

theorem mem_places_iff {limit : Nat} {root : Xml.Element} (h : ofElement limit root = .ok q) :
    p ∈ q.places ↔ (Place.among? Xml.Element.parts root.forest p).isSome := by
  rw [places, Node.mem_placesAll]
  have hroots := rel_among?_roots h p
  generalize Place.among? Node.children q.roots p = m at hroots
  generalize Place.among? Xml.Element.parts root.forest p = e at hroots
  cases hroots <;> simp

/-- An entry of an equation against the element that stands at its place. -/
structure EntryMirrors (q : Equation) (entry : Entry) (i : Nat) (p : Place) (e : Xml.Element) : Prop where
  id_eq : entry.id = i
  tag_eq : entry.node.head.tag = e.tag
  isMath_eq : entry.node.head.isMath = e.isMath
  kind_isOf : entry.node.kind.IsOf (if e.isMath then Construct.ofTag? e.tag else none)
  parentId?_iff : ∀ j, entry.parentId? = some j ↔ q.places[j]? = some p.dropLast
  childIds_places : entry.childIds.map (q.places[·]?) = (List.range e.parts.length).map fun k => some (p ++ [k])

/-- The equation is the preorder of the forest: the places at which an element stands, in document order, are
    the numbers of the nodes, and a node says of itself, its parent and its children what the element at its
    place says. Every node but the roots thus is a child once and of one node. -/
structure Mirrors (q : Equation) (forest : List Xml.Element) : Prop where
  ordered : q.places.Pairwise Place.Before
  mem_places_iff : ∀ p, p ∈ q.places ↔ (Place.among? Xml.Element.parts forest p).isSome
  size_eq : q.size = q.places.length
  length_outline : q.outline.length = q.places.length
  entries : ∀ i p, q.places[i]? = some p → ∃ entry e, q.entry? i = some entry ∧
    Place.among? Xml.Element.parts forest p = some e ∧ EntryMirrors q entry i p e
  rootIds_places : q.rootIds.map (q.places[·]?) = (List.range forest.length).map fun k => some [k]
  parent_lt : ∀ parent ∈ q.outline, ∀ id ∈ parent.childIds, parent.id < id
  child_once : ∀ parent ∈ q.outline, ∀ child ∈ q.outline,
    parent.childIds.count child.id = if child.parentId? = some parent.id then 1 else 0
  mem_rootIds_iff : ∀ entry ∈ q.outline, entry.id ∈ q.rootIds ↔ entry.parentId? = none

theorem length_outline (q : Equation) : q.outline.length = q.places.length := by
  have h := congrArg List.length (Node.map_parent_entriesAll none .none q.numbered)
  rwa [List.length_map, List.length_map, placesAll_numbered] at h

theorem entryMirrors {limit : Nat} {root : Xml.Element} (h : ofElement limit root = .ok q)
    (hp : q.places[i]? = some p) :
    ∃ entry e, q.entry? i = some entry ∧ Place.among? Xml.Element.parts root.forest p = some e ∧
      EntryMirrors q entry i p e := by
  obtain ⟨entry, hentry, hnode, hparent⟩ := entry?_of_places hp
  obtain ⟨e, he, hhead, hlength⟩ := source_of_numbered h hnode
  refine ⟨entry, e, hentry, he, ?_, ?_, ?_, ?_, ?_, ?_⟩
  · exact places_getElem?_inj (places_getElem?_note hnode) hp
  · rw [hhead]; rfl
  · rw [hhead]; rfl
  · exact Node.kind_isOf hhead
  · exact parentId?_iff hparent
  · rw [childIds_places hnode, hlength]

theorem entryMirrors_of_mem {limit : Nat} {root : Xml.Element} (h : ofElement limit root = .ok q) {entry : Entry}
    (hentry : entry ∈ q.outline) :
    ∃ p e, q.places[entry.id]? = some p ∧ Place.among? Xml.Element.parts root.forest p = some e ∧
      EntryMirrors q entry entry.id p e := by
  obtain ⟨i, hi⟩ := List.mem_iff_getElem?.mp hentry
  have hlt := (List.getElem?_eq_some_iff.mp hi).1
  rw [length_outline] at hlt
  have hp : q.places[i]? = some q.places[i] := List.getElem?_eq_getElem hlt
  obtain ⟨_, e, hentry', he, hmirrors⟩ := entryMirrors h hp
  cases hi.symm.trans hentry'
  have hid := hmirrors.id_eq
  subst hid
  exact ⟨_, e, hp, he, hmirrors⟩

theorem childIds_nodup {entry : Entry} {n : Nat} (h : entry.childIds.map (q.places[·]?) =
    (List.range n).map fun k => some (p ++ [k])) : entry.childIds.Nodup := by
  refine List.Nodup.of_map (q.places[·]?) ?_
  rw [h]
  refine List.Nodup.map (fun j k hjk => ?_) List.nodup_range
  simpa using hjk

theorem lt_of_before {j : Nat} {r : Place} (hp : q.places[i]? = some p) (hr : q.places[j]? = some r)
    (hbefore : p.Before r) (hafter : ¬ r.Before p) : i < j := by
  have hpairwise := List.pairwise_iff_getElem.mp (Node.pairwise_placesAll q.roots)
  obtain ⟨hi, rfl⟩ := List.getElem?_eq_some_iff.mp hp
  obtain ⟨hj, rfl⟩ := List.getElem?_eq_some_iff.mp hr
  rcases Nat.lt_trichotomy i j with hlt | rfl | hlt
  · exact hlt
  · exact absurd hbefore hafter
  · exact absurd (hpairwise j i hj hi hlt) hafter

section Relations

variable {limit : Nat} {root : Xml.Element} {entry parent child : Entry}

/-- There is a root for each tree of the forest. -/
theorem rootIds_places_forest (h : ofElement limit root = .ok q) :
    q.rootIds.map (q.places[·]?) = (List.range root.forest.length).map fun k => some [k] := by
  obtain ⟨depth, hread⟩ := forall₂_of_ofElement h
  rw [rootIds_places, hread.length_eq]

theorem id_lt_of_mem_childIds (h : ofElement limit root = .ok q) (hparent : parent ∈ q.outline)
    (hi : i ∈ parent.childIds) : parent.id < i := by
  obtain ⟨p, e, hp, he, hmirrors⟩ := entryMirrors_of_mem h hparent
  have hmem := List.mem_map_of_mem (f := (q.places[·]?)) hi
  rw [hmirrors.childIds_places] at hmem
  obtain ⟨k, -, hk⟩ := List.mem_map.mp hmem
  exact lt_of_before hp hk.symm (Place.before_append_singleton p k) (Place.not_append_before p [k])

theorem mem_childIds_iff (h : ofElement limit root = .ok q) (hparent : parent ∈ q.outline)
    (hchild : child ∈ q.outline) : child.id ∈ parent.childIds ↔ child.parentId? = some parent.id := by
  obtain ⟨p, e, hp, he, hmirrors⟩ := entryMirrors_of_mem h hparent
  obtain ⟨r, e', hr, he', hmirrors'⟩ := entryMirrors_of_mem h hchild
  rw [mem_of_map_places hmirrors.childIds_places hr, hmirrors'.parentId?_iff, hp, Option.some.injEq]
  constructor
  · rintro ⟨k, -, rfl⟩
    exact List.dropLast_concat.symm
  · rintro rfl
    have hne : r ≠ [] := Node.ne_nil_of_mem_placesAll (List.mem_of_getElem? hr)
    refine ⟨r.getLast hne, ?_, (List.dropLast_append_getLast hne).symm⟩
    rw [← Place.among?_append_isSome_iff he, List.dropLast_append_getLast hne, he']
    rfl

/-- A node is a child of its parent once, and of no other node. -/
theorem count_childIds (h : ofElement limit root = .ok q) (hparent : parent ∈ q.outline) (hchild : child ∈ q.outline) :
    parent.childIds.count child.id = if child.parentId? = some parent.id then 1 else 0 := by
  obtain ⟨p, e, hp, he, hmirrors⟩ := entryMirrors_of_mem h hparent
  rw [(childIds_nodup hmirrors.childIds_places).count]
  simp only [mem_childIds_iff h hparent hchild]

/-- The roots are the nodes without a parent. -/
theorem id_mem_rootIds_iff (h : ofElement limit root = .ok q) (hentry : entry ∈ q.outline) :
    entry.id ∈ q.rootIds ↔ entry.parentId? = none := by
  obtain ⟨p, e, hp, he, hmirrors⟩ := entryMirrors_of_mem h hentry
  rw [mem_of_map_places (rootIds_places_forest h) hp, Option.eq_none_iff_forall_ne_some]
  simp only [ne_eq, hmirrors.parentId?_iff]
  constructor
  · rintro ⟨k, -, rfl⟩ j hj
    exact Node.ne_nil_of_mem_placesAll (List.mem_of_getElem? hj) rfl
  · intro hnone
    have hne : p ≠ [] := Node.ne_nil_of_mem_placesAll (List.mem_of_getElem? hp)
    have hlast := List.dropLast_append_getLast hne
    by_cases hdrop : p.dropLast = []
    · rw [hdrop, List.nil_append] at hlast
      rw [← hlast, Place.among?_singleton] at he
      exact ⟨_, (List.getElem?_eq_some_iff.mp he).1, hlast.symm⟩
    · have habove : (Place.among? Xml.Element.parts root.forest p.dropLast).isSome := by
        refine Place.among?_append_isSome (k := p.getLast hne) ?_ hdrop
        rw [hlast, he]
        rfl
      obtain ⟨j, hj⟩ := List.mem_iff_getElem?.mp ((mem_places_iff h).mpr habove)
      exact absurd hj (hnone j)

end Relations

/-- The outline of the equation of an element mirrors the forest of the element. -/
theorem mirrors_forest {limit : Nat} {root : Xml.Element} {q : Equation} (h : ofElement limit root = .ok q) :
    q.Mirrors root.forest where
  ordered := Node.pairwise_placesAll q.roots
  mem_places_iff _ := mem_places_iff h
  size_eq := (length_places q).symm
  length_outline := length_outline q
  entries _ _ hp := entryMirrors h hp
  rootIds_places := rootIds_places_forest h
  parent_lt _ hparent _ hid := id_lt_of_mem_childIds h hparent hid
  child_once _ hparent _ hchild := count_childIds h hparent hchild
  mem_rootIds_iff _ hentry := id_mem_rootIds_iff h hentry

/-- An `oMath` that holds a fraction, with a run and an element from elsewhere in it, and a run. -/
theorem mirrors_forest_of_fraction :
    let text : Xml.Element := (Xml.Element.math "t").addContent (.text "1")
    let run : Xml.Element := (Xml.Element.math "r").addContent (.element text)
    let numerator : Xml.Element := (Xml.Element.math "num").addContent (.element run)
    let fraction : Xml.Element := (Xml.Element.math "f").addContent (.element numerator)
    let fraction : Xml.Element := fraction.addContent (.element (.mk ⟨some "urn:other", "den"⟩ [] []))
    let root : Xml.Element := .mk (.math "oMath") [] [.element fraction, .comment "", .element run]
    ∃ q, ofElement 4 root = .ok q ∧ q.Mirrors root.forest ∧ q.places = [[0], [0, 0], [0, 0, 0], [0, 1], [1]] :=
  ⟨_, rfl, @mirrors_forest 4 _ _ rfl, rfl⟩

end Equation
end OfficeMath
