import OfficeMath.Equation.Outline
import OfficeMath.Proofs.Equation.Place

/-! The places of the nodes in a row of trees. They stand in document order, and the list of them runs beside the
    nodes in preorder, their numbers and their entries in the outline: what a list says of its `i`-th item is
    thus said of the node at the `i`-th place. -/

namespace OfficeMath
namespace Node

variable {α : Type}

mutual

/-- The places of the node and those below it, in document order. -/
def places : Node α → List Place
  | mk _ _ children => [] :: placesAll children

/-- The places of the nodes in a row of trees, in document order. -/
def placesAll : List (Node α) → List Place
  | [] => []
  | n :: ns => n.places.map (0 :: ·) ++ (placesAll ns).map Place.next

end

/-! ### Which places there are -/

mutual

theorem mem_places : ∀ (n : Node α) (p : Place), p ∈ n.places ↔ (Place.within? children n p).isSome
  | mk head note children, [] => by simp [places]
  | mk head note children, k :: p => by
    rw [Place.within?_cons, children_mk, ← mem_placesAll children (k :: p)]
    simp [places]

theorem mem_placesAll : ∀ (ns : List (Node α)) (p : Place), p ∈ placesAll ns ↔ (Place.among? children ns p).isSome
  | [], p => by simp [placesAll, Place.among?_of_nil]
  | n :: ns, p => by
    simp only [placesAll, List.mem_append, List.mem_map]
    constructor
    · rintro (⟨p, hp, rfl⟩ | ⟨p, hp, rfl⟩)
      · exact (mem_places n p).mp hp
      · rw [Place.among?_next]
        exact (mem_placesAll ns p).mp hp
    · intro h
      match p, h with
      | 0 :: p, h => exact .inl ⟨p, (mem_places n p).mpr h, rfl⟩
      | (k + 1) :: p, h => exact .inr ⟨k :: p, (mem_placesAll ns (k :: p)).mpr h, rfl⟩

end

theorem ne_nil_of_mem_placesAll {ns : List (Node α)} {p : Place} (hp : p ∈ placesAll ns) : p ≠ [] := by
  rintro rfl
  simpa using (mem_placesAll ns []).mp hp

mutual

theorem pairwise_places : ∀ n : Node α, n.places.Pairwise Place.Before
  | mk head note children => by
    simp only [places, List.pairwise_cons]
    refine ⟨fun p hp => ?_, pairwise_placesAll children⟩
    obtain ⟨k, p, rfl⟩ := List.exists_cons_of_ne_nil (ne_nil_of_mem_placesAll hp)
    exact Place.before_cons_of_nil

theorem pairwise_placesAll : ∀ ns : List (Node α), (placesAll ns).Pairwise Place.Before
  | [] => .nil
  | n :: ns => by
    simp only [placesAll, List.pairwise_append, List.pairwise_map]
    refine ⟨?_, ?_, ?_⟩
    · exact (pairwise_places n).imp fun h => .cons h
    · exact (pairwise_placesAll ns).imp Place.Before.next
    · intro p hp q hq
      obtain ⟨p, -, rfl⟩ := List.mem_map.mp hp
      obtain ⟨q', hq', rfl⟩ := List.mem_map.mp hq
      obtain ⟨k, q', rfl⟩ := List.exists_cons_of_ne_nil (ne_nil_of_mem_placesAll hq')
      exact .rel (Nat.succ_pos k)

end

/-! ### Places beside nodes -/

mutual

theorem map_within?_places : ∀ n : Node α, n.places.map (Place.within? children n) = n.preorder.map some
  | mk head note children => by
    simp only [places, preorder, List.map_cons, Place.within?_nil, List.cons.injEq, true_and]
    rw [← map_among?_placesAll children]
    refine List.map_congr_left fun p hp => ?_
    obtain ⟨k, p, rfl⟩ := List.exists_cons_of_ne_nil (ne_nil_of_mem_placesAll hp)
    exact Place.within?_cons

/-- What stands at the places, one after the other, are the nodes in preorder. -/
theorem map_among?_placesAll :
    ∀ ns : List (Node α), (placesAll ns).map (Place.among? children ns) = (preorderAll ns).map some
  | [] => rfl
  | n :: ns => by
    have hzero : (Place.among? children (n :: ns)) ∘ (0 :: ·) = Place.within? children n := rfl
    have hnext : (Place.among? children (n :: ns)) ∘ Place.next = Place.among? children ns :=
      funext fun _ => Place.among?_next
    rw [placesAll, preorderAll, List.map_append, List.map_append, List.map_map, List.map_map, hzero, hnext,
      map_within?_places n, map_among?_placesAll ns]

end

theorem among?_of_placesAll {ns : List (Node α)} {i : Nat} {p : Place} (h : (placesAll ns)[i]? = some p) :
    Place.among? children ns p = (preorderAll ns)[i]? := by
  have hmap := congrArg (·[i]?) (map_among?_placesAll ns)
  simp only [List.getElem?_map, h, Option.map_some] at hmap
  cases hi : (preorderAll ns)[i]? with
  | none => simp [hi] at hmap
  | some n => simpa [hi] using hmap

theorem length_placesAll (ns : List (Node α)) : (placesAll ns).length = sizeAll ns := by
  have h := congrArg List.length (map_among?_placesAll ns)
  simpa [length_preorderAll] using h

/-! ### Numbers -/

mutual

theorem places_number (first : Nat) : ∀ n : Node α, (n.number first).places = n.places
  | mk head note children => by simp [number, places, placesAll_numberAll (first + 1) children]

theorem placesAll_numberAll (first : Nat) : ∀ ns : List (Node α), placesAll (numberAll first ns) = placesAll ns
  | [] => rfl
  | n :: ns => by
    simp [numberAll, placesAll, places_number first n, placesAll_numberAll (first + n.size) ns]

end

mutual

theorem map_note_preorder_number (first : Nat) :
    ∀ n : Node α, (n.number first).preorder.map note = List.range' first n.size
  | mk head note children => by
    simp [number, preorder, size, List.range'_succ, map_note_preorderAll_numberAll (first + 1) children]

/-- The nodes in preorder carry the numbers from the first on, without a gap. -/
theorem map_note_preorderAll_numberAll (first : Nat) :
    ∀ ns : List (Node α), (preorderAll (numberAll first ns)).map note = List.range' first (sizeAll ns)
  | [] => rfl
  | n :: ns => by
    rw [numberAll, preorderAll, sizeAll, List.map_append, map_note_preorder_number first n,
      map_note_preorderAll_numberAll (first + n.size) ns, List.range'_append_1]

end

theorem length_numberAll (first : Nat) (ns : List (Node α)) : (numberAll first ns).length = ns.length := by
  induction ns generalizing first with
  | nil => rfl
  | cons n ns ih => simp [numberAll, ih]

@[simp] theorem head_number (first : Nat) (n : Node α) : (n.number first).head = n.head := by cases n; rfl

@[simp] theorem length_children_number (first : Nat) (n : Node α) :
    (n.number first).children.length = n.children.length := by
  obtain ⟨head, note, children⟩ := n
  exact length_numberAll (first + 1) children

theorem forall₂_numberAll (first : Nat) (ns : List (Node α)) :
    List.Forall₂ (fun n m => ∃ first, m = n.number first) ns (numberAll first ns) := by
  induction ns generalizing first with
  | nil => exact .nil
  | cons n ns ih => exact .cons ⟨first, rfl⟩ (ih (first + n.size))

theorem rel_among?_numberAll (first : Nat) (ns : List (Node α)) (p : Place) :
    Option.Rel (fun n m => ∃ first, m = n.number first) (Place.among? children ns p)
      (Place.among? children (numberAll first ns) p) := by
  refine Place.rel_among? ?_ (forall₂_numberAll first ns) p
  rintro ⟨head, note, children⟩ _ ⟨first, rfl⟩
  exact forall₂_numberAll (first + 1) children

/-! ### Entries -/

mutual

theorem map_node_entries (parent : Option (Node Nat)) (enclosure : Enclosure Nat) :
    ∀ n : Node Nat, (n.entries parent enclosure).map Entry.node = n.preorder
  | mk head note children => by simp [entries, preorder, map_node_entriesAll _ _ children]

theorem map_node_entriesAll (parent : Option (Node Nat)) (enclosure : Enclosure Nat) :
    ∀ ns : List (Node Nat), (entriesAll parent enclosure ns).map Entry.node = preorderAll ns
  | [] => rfl
  | n :: ns => by
    simp [entriesAll, preorderAll, map_node_entries parent enclosure n, map_node_entriesAll parent enclosure ns]

end

/-- What stands right above a place: the node at the place without its last step, or the one given for the
    trees of the row themselves. -/
def above? (parent : Option (Node α)) (ns : List (Node α)) (p : Place) : Option (Node α) :=
  if p.dropLast = [] then parent else Place.among? children ns p.dropLast

mutual

theorem map_parent_entries (parent : Option (Node Nat)) (enclosure : Enclosure Nat) :
    ∀ n : Node Nat, (n.entries parent enclosure).map Entry.parent =
      n.places.map fun p => if p = [] then parent else Place.within? children n p.dropLast
  | mk head note children => by
    simp only [entries, places, List.map_cons, List.cons.injEq, ite_true, true_and]
    rw [map_parent_entriesAll _ _ children]
    refine List.map_congr_left fun p hp => ?_
    rw [above?, if_neg (ne_nil_of_mem_placesAll hp)]
    cases hd : p.dropLast with
    | nil => rfl
    | cons k p => rw [if_neg (List.cons_ne_nil k p), Place.within?_cons]; rfl

theorem map_parent_entriesAll (parent : Option (Node Nat)) (enclosure : Enclosure Nat) :
    ∀ ns : List (Node Nat), (entriesAll parent enclosure ns).map Entry.parent = (placesAll ns).map (above? parent ns)
  | [] => rfl
  | n :: ns => by
    rw [entriesAll, placesAll, List.map_append, List.map_append, map_parent_entries parent enclosure n,
      map_parent_entriesAll parent enclosure ns, List.map_map, List.map_map]
    congr 1
    · refine List.map_congr_left fun p _ => ?_
      cases p with
      | nil => rfl
      | cons k p => rfl
    · refine List.map_congr_left fun p hp => ?_
      obtain ⟨k, p, rfl⟩ := List.exists_cons_of_ne_nil (ne_nil_of_mem_placesAll hp)
      cases p with
      | nil => rfl
      | cons j p => rfl

end

end Node
end OfficeMath
