import OfficeMath.Proofs.Equation.DocumentOrder

/-! The entries of an outline. The children of an entry's node have entries of their own, an entry that is not that of a
    root is one of those, and the nodes of an entry's tree are numbered from its own number on without a gap. -/

namespace OfficeMath

/-- How the children of an entry's node stand to the delimiters around them. -/
abbrev Entry.inner (entry : Entry) : Enclosure Nat := entry.enclosure.inside entry.node

/-- The entry of a child of an entry's node. -/
def Entry.child (entry : Entry) (c : Node Nat) : Entry := ⟨c, some entry.node, entry.inner⟩

namespace Node

variable {α : Type} {parent : Option (Node Nat)} {enclosure : Enclosure Nat} {ns : List (Node Nat)} {entry : Entry}

/-! ### Parents and children -/

theorem mem_entriesAll_of_mem {n : Node Nat} (h : n ∈ ns) :
    ⟨n, parent, enclosure⟩ ∈ entriesAll parent enclosure ns := by
  induction ns with
  | nil => cases h
  | cons m ns ih =>
    rw [entriesAll, List.mem_append]
    rcases List.mem_cons.mp h with rfl | h
    · left
      cases n
      exact List.mem_cons_self
    · exact .inr (ih h)

mutual

theorem child_mem_entries {c : Node Nat} {parent : Option (Node Nat)} {enclosure : Enclosure Nat} :
    ∀ n : Node Nat, entry ∈ n.entries parent enclosure → c ∈ entry.node.children →
      entry.child c ∈ n.entries parent enclosure
  | mk head note children, h, hc => by
    rw [entries, List.mem_cons] at h ⊢
    rcases h with rfl | h
    · exact .inr (mem_entriesAll_of_mem hc)
    · exact .inr (child_mem_entriesAll children h hc)

theorem child_mem_entriesAll {c : Node Nat} {parent : Option (Node Nat)} {enclosure : Enclosure Nat} :
    ∀ ns : List (Node Nat), entry ∈ entriesAll parent enclosure ns → c ∈ entry.node.children →
      entry.child c ∈ entriesAll parent enclosure ns
  | n :: ns, h, hc => by
    rw [entriesAll, List.mem_append] at h ⊢
    rcases h with h | h
    · exact .inl (child_mem_entries n h hc)
    · exact .inr (child_mem_entriesAll ns h hc)

end

mutual

theorem exists_above_of_mem_entries {parent : Option (Node Nat)} {enclosure : Enclosure Nat} :
    ∀ n : Node Nat, entry ∈ n.entries parent enclosure →
      entry = ⟨n, parent, enclosure⟩ ∨
        ∃ above ∈ n.entries parent enclosure, ∃ c ∈ above.node.children, entry = above.child c
  | mk head note children, h => by
    rw [entries, List.mem_cons] at h
    rcases h with rfl | h
    · exact .inl rfl
    · right
      rcases exists_above_of_mem_entriesAll children h with ⟨c, hc, rfl⟩ | ⟨above, habove, hchild⟩
      · exact ⟨⟨mk head note children, parent, enclosure⟩, List.mem_cons_self, c, hc, rfl⟩
      · exact ⟨above, List.mem_cons_of_mem _ habove, hchild⟩

/-- An entry is that of one of the trees, or that of a child of an entry's node. -/
theorem exists_above_of_mem_entriesAll {parent : Option (Node Nat)} {enclosure : Enclosure Nat} :
    ∀ ns : List (Node Nat), entry ∈ entriesAll parent enclosure ns →
      (∃ n ∈ ns, entry = ⟨n, parent, enclosure⟩) ∨
        ∃ above ∈ entriesAll parent enclosure ns, ∃ c ∈ above.node.children, entry = above.child c
  | n :: ns, h => by
    rw [entriesAll, List.mem_append] at h
    rcases h with h | h
    · rcases exists_above_of_mem_entries n h with rfl | ⟨above, habove, hchild⟩
      · exact .inl ⟨n, List.mem_cons_self, rfl⟩
      · exact .inr ⟨above, List.mem_append_left _ habove, hchild⟩
    · rcases exists_above_of_mem_entriesAll ns h with ⟨m, hm, rfl⟩ | ⟨above, habove, hchild⟩
      · exact .inl ⟨m, List.mem_cons_of_mem _ hm, rfl⟩
      · exact .inr ⟨above, List.mem_append_right _ habove, hchild⟩

end

/-! ### Numbers -/

theorem size_pos (n : Node α) : 0 < n.size := by
  cases n
  exact Nat.succ_pos _

@[simp] theorem note_number (first : Nat) (n : Node α) : (n.number first).note = first := by
  cases n
  rfl

mutual

theorem size_number (first : Nat) : ∀ n : Node α, (n.number first).size = n.size
  | mk head note children => by rw [number, size, size, sizeAll_numberAll (first + 1) children]

theorem sizeAll_numberAll (first : Nat) : ∀ ns : List (Node α), sizeAll (numberAll first ns) = sizeAll ns
  | [] => rfl
  | n :: ns => by rw [numberAll, sizeAll, sizeAll, size_number first n, sizeAll_numberAll (first + n.size) ns]

end

theorem length_entriesAll (parent : Option (Node Nat)) (enclosure : Enclosure Nat) (ns : List (Node Nat)) :
    (entriesAll parent enclosure ns).length = sizeAll ns := by
  rw [← length_preorderAll, ← map_node_entriesAll parent enclosure, List.length_map]

/-- The number of an entry is its place, counted from the first number. -/
theorem getElem?_entriesAll {first : Nat} {ns : List (Node α)}
    (h : entry ∈ entriesAll parent enclosure (numberAll first ns)) :
    ∃ i, entry.id = first + i ∧ (entriesAll parent enclosure (numberAll first ns))[i]? = some entry := by
  obtain ⟨i, hi⟩ := List.mem_iff_getElem?.mp h
  refine ⟨i, ?_, hi⟩
  have hnotes := map_note_preorderAll_numberAll first ns
  rw [← map_node_entriesAll parent enclosure, List.map_map] at hnotes
  have hid := congrArg (·[i]?) hnotes
  obtain ⟨hlt, -⟩ := List.getElem?_eq_some_iff.mp hi
  rw [length_entriesAll, sizeAll_numberAll] at hlt
  simpa [hi, hlt, Entry.id] using hid

mutual

theorem id_add_size_le_entries {parent : Option (Node Nat)} {enclosure : Enclosure Nat} (first : Nat) :
    ∀ n : Node α, entry ∈ (n.number first).entries parent enclosure →
      entry.id + entry.node.size ≤ first + n.size
  | mk head note children, h => by
    rw [number, entries, List.mem_cons] at h
    rcases h with rfl | h
    · exact Nat.le_of_eq (congrArg (first + ·) (size_number first (mk head note children)))
    · have hle := id_add_size_le_entriesAll (first + 1) children h
      rw [size]
      omega

/-- The tree of an entry fits between its number and the end. -/
theorem id_add_size_le_entriesAll {parent : Option (Node Nat)} {enclosure : Enclosure Nat} (first : Nat) :
    ∀ ns : List (Node α), entry ∈ entriesAll parent enclosure (numberAll first ns) →
      entry.id + entry.node.size ≤ first + sizeAll ns
  | n :: ns, h => by
    rw [numberAll, entriesAll, List.mem_append] at h
    rw [sizeAll]
    rcases h with h | h
    · have hle := id_add_size_le_entries first n h
      omega
    · have hle := id_add_size_le_entriesAll (first + n.size) ns h
      omega

end

mutual

theorem exists_number_of_mem_entries {parent : Option (Node Nat)} {enclosure : Enclosure Nat} (first : Nat) :
    ∀ n : Node α, entry ∈ (n.number first).entries parent enclosure → ∃ m : Node α, entry.node = m.number entry.id
  | mk head note children, h => by
    rw [number, entries, List.mem_cons] at h
    rcases h with rfl | h
    · exact ⟨mk head note children, rfl⟩
    · exact exists_number_of_mem_entriesAll (first + 1) children h

theorem exists_number_of_mem_entriesAll {parent : Option (Node Nat)} {enclosure : Enclosure Nat} (first : Nat) :
    ∀ ns : List (Node α), entry ∈ entriesAll parent enclosure (numberAll first ns) →
      ∃ m : Node α, entry.node = m.number entry.id
  | n :: ns, h => by
    rw [numberAll, entriesAll, List.mem_append] at h
    rcases h with h | h
    · exact exists_number_of_mem_entries first n h
    · exact exists_number_of_mem_entriesAll (first + n.size) ns h

end

theorem le_note_of_mem_numberAll {first : Nat} {ns : List (Node α)} {c : Node Nat} (h : c ∈ numberAll first ns) :
    first ≤ c.note := by
  induction ns generalizing first with
  | nil => cases h
  | cons n ns ih =>
    rw [numberAll, List.mem_cons] at h
    rcases h with rfl | h
    · exact Nat.le_of_eq (note_number first n).symm
    · exact Nat.le_trans (Nat.le_add_right first n.size) (ih h)

/-- The trees in a row have numbers that increase. -/
theorem pairwise_numberAll (first : Nat) (ns : List (Node α)) : ((numberAll first ns).map note).Pairwise (· < ·) := by
  induction ns generalizing first with
  | nil => exact .nil
  | cons n ns ih =>
    rw [numberAll, List.map_cons, List.pairwise_cons]
    refine ⟨fun id hid => ?_, ih (first + n.size)⟩
    obtain ⟨c, hc, rfl⟩ := List.mem_map.mp hid
    have hle := le_note_of_mem_numberAll hc
    have hsize := n.size_pos
    rw [note_number]
    omega

theorem size_lt_of_mem_children {n c : Node α} (h : c ∈ n.children) : c.size < n.size := by
  obtain ⟨head, note, children⟩ := n
  have hle : ∀ {ns : List (Node α)}, c ∈ ns → c.size ≤ sizeAll ns := by
    intro ns h
    induction ns with
    | nil => cases h
    | cons n ns ih =>
      rw [sizeAll]
      rcases List.mem_cons.mp h with rfl | h
      · exact Nat.le_add_right _ _
      · exact Nat.le_add_left_of_le (ih h)
  rw [size]
  exact Nat.lt_succ_of_le (hle h)

end Node

namespace Equation

variable {q : Equation} {entry : Entry}

theorem child_mem_outline {c : Node Nat} (h : entry ∈ q.outline) (hc : c ∈ entry.node.children) :
    entry.child c ∈ q.outline :=
  Node.child_mem_entriesAll q.numbered h hc

theorem exists_above_of_mem_outline (h : entry ∈ q.outline) :
    (∃ n ∈ q.numbered, entry = ⟨n, none, .none⟩) ∨
      ∃ above ∈ q.outline, ∃ c ∈ above.node.children, entry = above.child c :=
  Node.exists_above_of_mem_entriesAll q.numbered h

theorem outline_getElem?_id (h : entry ∈ q.outline) : q.outline[entry.id]? = some entry := by
  obtain ⟨i, hid, hi⟩ := Node.getElem?_entriesAll h
  rw [hid, Nat.zero_add]
  exact hi

theorem id_add_size_le (h : entry ∈ q.outline) : entry.id + entry.node.size ≤ q.size := by
  have hle := Node.id_add_size_le_entriesAll 0 q.roots h
  rwa [Nat.zero_add] at hle

/-- The numbers of the children come after that of the node. -/
theorem id_lt_of_mem_children (h : entry ∈ q.outline) {c : Node Nat} (hc : c ∈ entry.node.children) :
    entry.id < c.note := by
  obtain ⟨⟨head, note, children⟩, hnode⟩ := Node.exists_number_of_mem_entriesAll 0 q.roots h
  rw [hnode] at hc
  exact Node.le_note_of_mem_numberAll hc

/-- The children of a node have numbers that increase. -/
theorem pairwise_children (h : entry ∈ q.outline) : (entry.node.children.map Node.note).Pairwise (· < ·) := by
  obtain ⟨⟨head, note, children⟩, hnode⟩ := Node.exists_number_of_mem_entriesAll 0 q.roots h
  rw [hnode]
  exact Node.pairwise_numberAll (entry.id + 1) children

theorem exists_mem_outline {id : Nat} (hid : id < q.size) : ∃ entry ∈ q.outline, entry.id = id := by
  rw [← length_places, ← length_outline] at hid
  have hnodes : q.outline.map Entry.node = Node.preorderAll q.numbered := Node.map_node_entriesAll none .none q.numbered
  have hnode : (Node.preorderAll q.numbered)[id]? = some q.outline[id].node := by
    rw [← hnodes, List.getElem?_map, List.getElem?_eq_getElem hid]
    rfl
  exact ⟨q.outline[id], List.getElem_mem hid, note_of_preorder hnode⟩

/-- What a node says by itself is what an element says. -/
theorem exists_head_of_mem_outline {limit : Nat} {root : Xml.Element} (h : ofElement limit root = .ok q)
    (hentry : entry ∈ q.outline) : ∃ e, entry.node.head = Head.ofElement e := by
  have hlt := (List.getElem?_eq_some_iff.mp (outline_getElem?_id hentry)).1
  rw [length_outline] at hlt
  obtain ⟨entry', hentry', hnode, -⟩ := entry?_of_places (List.getElem?_eq_getElem hlt)
  cases (outline_getElem?_id hentry).symm.trans hentry'
  obtain ⟨e, -, hhead, -⟩ := source_of_numbered h hnode
  exact ⟨e, hhead⟩

end Equation

end OfficeMath
