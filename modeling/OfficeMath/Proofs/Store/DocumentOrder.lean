import OfficeMath.Proofs.Equation.DocumentOrder
import OfficeMath.Proofs.Store.Sound

/-! The store of an element against the elements it was built from. Every element that becomes a node has a place in the
    forest of the root, and the cells in the order of their numbers are the elements in document order: a cell says of
    itself, its parent and its children what the element at its place says. -/

namespace OfficeMath

open Node (note)

theorem Kind.isOf_map {ρ σ : Type} {c : Option Construct} (f : ρ → σ) (k : Kind ρ) :
    (k.map f).IsOf c ↔ k.IsOf c := by
  cases k <;> rfl

/-- A cell against the element that stands at its place. -/
structure Cell.Mirrors (places : List Place) (c : Cell) (p : Place) (e : Xml.Element) : Prop where
  tag_eq : c.tag = e.tag
  isMath_eq : c.isMath = e.isMath
  kind_isOf : c.kind.IsOf (if e.isMath then Construct.ofTag? e.tag else none)
  parent_iff : ∀ j, c.parent = some j ↔ places[j]? = some p.dropLast
  children_places : c.children.map (places[·]?) = (List.range e.parts.length).map fun k => some (p ++ [k])

namespace Store

/-- The cells of the store are the preorder of the forest, at whose places in document order their elements stand. Every
    node but the roots thus is a child once and of one node. -/
structure Mirrors (s : Store) (places : List Place) (forest : List Xml.Element) : Prop where
  ordered : places.Pairwise Place.Before
  mem_places_iff : ∀ p, p ∈ places ↔ (Place.among? Xml.Element.parts forest p).isSome
  length_cells : s.cells.length = places.length
  cells : ∀ i p, places[i]? = some p → ∃ c e, s.cell i = .ok c ∧
    Place.among? Xml.Element.parts forest p = some e ∧ c.Mirrors places p e
  roots_places : s.roots.map (places[·]?) = (List.range forest.length).map fun k => some [k]
  parent_lt : ∀ id c, s.cell id = .ok c → ∀ i ∈ c.children, id < i
  child_once : ∀ id c id' c', s.cell id = .ok c → s.cell id' = .ok c' →
    c.children.count id' = if c'.parent = some id then 1 else 0
  mem_roots_iff : ∀ id c, s.cell id = .ok c → (id ∈ s.roots ↔ c.parent = none)

variable {limit : Nat} {root : Xml.Element} {s : Store}

/-- The store of an element mirrors the forest of the element. -/
theorem mirrors_of_ofElement (h : ofElement limit root = .ok s) : ∃ places, s.Mirrors places root.forest := by
  obtain ⟨q, hq, -, rfl⟩ := ofElement_eq_ok_iff.mp h
  refine ⟨q.places, {
    ordered := Node.pairwise_placesAll q.roots
    mem_places_iff := fun p => Equation.mem_places_iff hq
    length_cells := by rw [length_store, Equation.length_places]
    cells := fun i p hp => ?_
    roots_places := Equation.rootIds_places_forest hq
    parent_lt := fun id c hc i hi => ?_
    child_once := fun id c id' c' hc hc' => ?_
    mem_roots_iff := fun id c hc => ?_ }⟩
  · obtain ⟨entry, e, hentry, he, hmirrors⟩ := Equation.entryMirrors hq hp
    have hcell := Equation.holds_store q entry (List.mem_of_getElem? hentry)
    rw [hmirrors.id_eq] at hcell
    exact ⟨entry.cell, e, hcell, he, hmirrors.tag_eq, hmirrors.isMath_eq, (Kind.isOf_map note _).mpr hmirrors.kind_isOf,
      hmirrors.parentId?_iff, hmirrors.childIds_places⟩
  · obtain ⟨entry, hentry, rfl, rfl⟩ := exists_entry_of_cell hc
    exact Equation.id_lt_of_mem_childIds hq hentry hi
  · obtain ⟨parent, hparent, rfl, rfl⟩ := exists_entry_of_cell hc
    obtain ⟨child, hchild, rfl, rfl⟩ := exists_entry_of_cell hc'
    exact Equation.count_childIds hq hparent hchild
  · obtain ⟨entry, hentry, rfl, rfl⟩ := exists_entry_of_cell hc
    exact Equation.id_mem_rootIds_iff hq hentry

end Store

end OfficeMath
