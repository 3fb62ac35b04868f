import OfficeMath.Proofs.Store.Render

/-! What can go wrong with a store: nothing but that the element is refused or has too many nodes. In the store that an
    element is built into every number that is looked up is that of a node, rendering comes to an end, and what is got
    out of the store is what the equation of the element says. -/

namespace OfficeMath

theorem Kind.parts_map {ρ σ : Type} (f : ρ → σ) (k : Kind ρ) : (k.map f).parts = k.parts.map f := by
  have htoList (part : Option ρ) : (part.map f).toList = part.toList.map f := by
    cases part <;> rfl
  cases k <;> simp [Kind.map, Kind.parts, htoList, List.map_flatten]

namespace Store

variable {limit : Nat} {e : Xml.Element} {s : Store} {q : Equation}

/-- What is asked of the store has the answer that the equation gives. A node has a number below those of its children
    and of its parts, so that rendering gets to ever higher numbers, and each number is one of a node. -/
structure QueriesAgree (s : Store) (q : Equation) (options : Options) : Prop where
  length_eq : s.cells.length = q.size
  parent_lt : ∀ id c, s.cell id = .ok c → ∀ p ∈ c.parent, p < id
  lt_parts : ∀ id c, s.cell id = .ok c → ∀ i ∈ c.children ++ c.kind.parts, id < i ∧ i < s.cells.length
  render_eq : ∀ id < s.cells.length, ∀ steps, s.cells.length - id ≤ steps →
    s.render options.equationArray steps id = .ok (q.nodeLatex options id)
  nodeLatex_of_lt : ∀ id < s.cells.length, s.nodeLatex options.equationArray id = .ok (q.nodeLatex options id)
  nodeLatex_of_le : ∀ id, s.cells.length ≤ id → s.nodeLatex options.equationArray id = .ok ""
  latex_eq : s.latex options.equationArray = .ok (q.latex options)
  unrecognizedTags_eq : s.unrecognizedTags = .ok q.unrecognizedTags

theorem exists_entry_of_cell {id : Nat} {c : Cell} (h : q.store.cell id = .ok c) :
    ∃ entry ∈ q.outline, entry.id = id ∧ entry.cell = c := by
  obtain ⟨hid, -⟩ := List.getElem?_eq_some_iff.mp (cell_eq_ok_iff.mp h)
  obtain ⟨entry, hentry, rfl⟩ := Equation.exists_mem_outline (length_store q ▸ hid)
  exact ⟨entry, hentry, rfl, Except.ok.inj ((Equation.holds_store q entry hentry).symm.trans h)⟩

theorem queriesAgree_store (hq : Equation.ofElement limit e = .ok q) (options : Options) :
    q.store.QueriesAgree q options where
  length_eq := length_store q
  parent_lt id c hcell p hp := by
    obtain ⟨entry, hentry, rfl, rfl⟩ := exists_entry_of_cell hcell
    rcases Equation.exists_above_of_mem_outline hentry with ⟨n, -, rfl⟩ | ⟨above, habove, c, hc, rfl⟩
    · cases hp
    · cases hp
      exact Equation.id_lt_of_mem_children habove hc
  lt_parts id c hcell i hi := by
    obtain ⟨entry, hentry, rfl, rfl⟩ := exists_entry_of_cell hcell
    have hchild : ∃ c ∈ entry.node.children, c.note = i := by
      rcases List.mem_append.mp hi with hi | hi
      · exact List.mem_map.mp hi
      · have hi : i ∈ (entry.node.kind.map Node.note).parts := hi
        rw [Kind.parts_map] at hi
        obtain ⟨c, hc, rfl⟩ := List.mem_map.mp hi
        exact ⟨c, Node.mem_children_of_parts hc, rfl⟩
    obtain ⟨c, hc, rfl⟩ := hchild
    refine ⟨Equation.id_lt_of_mem_children hentry hc, ?_⟩
    have hle := Equation.id_add_size_le (Equation.child_mem_outline hentry hc)
    exact length_store q ▸ Nat.lt_of_lt_of_le (Nat.lt_add_of_pos_right c.size_pos) hle
  render_eq id hid steps hsteps := by
    rw [length_store] at hid hsteps
    exact render_eq_nodeLatex hq options hid hsteps
  nodeLatex_of_lt id _ := nodeLatex_eq hq options id
  nodeLatex_of_le id hid := by
    rw [nodeLatex_eq hq, Equation.nodeLatex_of_size_le options (length_store q ▸ hid)]
  latex_eq := latex_eq hq options
  unrecognizedTags_eq := unrecognizedTags_eq q

/-- An element is built into a store that gives the answers of its equation, or else it is refused or has too many
    nodes. -/
theorem queriesAgree_of_ofElement (limit : Nat) (e : Xml.Element) :
    (∀ s, ofElement limit e = .ok s →
      ∃ q, Equation.ofElement limit e = .ok q ∧ q.size ≤ capacity ∧ ∀ options, s.QueriesAgree q options) ∧
    ∀ fault, ofElement limit e = .error fault →
      (fault = .full ∧ ∀ q, Equation.ofElement limit e = .ok q → capacity < q.size) ∨
        ∃ error, fault = .refused error ∧ Equation.ofElement limit e = .error error := by
  constructor
  · intro s hs
    obtain ⟨q, hq, hsize, rfl⟩ := ofElement_eq_ok_iff.mp hs
    exact ⟨q, hq, hsize, queriesAgree_store hq⟩
  · intro fault hfault
    exact eq_of_ofElement_eq_error hfault

/-- A matrix in parentheses, with one `x` in it, is set with the fence that it looks up, and a number that no node has
    gives nothing. -/
theorem queriesAgree_of_ofElement_of_matrix :
    let text : Xml.Element := (Xml.Element.math "t").addContent (.text "x")
    let run : Xml.Element := (Xml.Element.math "r").addContent (.element text)
    let container : Xml.Element := (Xml.Element.math "e").addContent (.element run)
    let row : Xml.Element := (Xml.Element.math "mr").addContent (.element container)
    let matrix : Xml.Element := (Xml.Element.math "m").addContent (.element row)
    let delimiter : Xml.Element := (Xml.Element.math "d").addContent (.element matrix)
    ∃ s, ofElement 6 delimiter = .ok s ∧ s.cells.length = 5 ∧
      s.render .aligned 4 1 = .ok "\\begin\x7bpmatrix\x7d\nx\n\\end\x7bpmatrix\x7d" ∧
      s.nodeLatex .aligned 9 = .ok "" ∧ s.unrecognizedTags = .ok [] := by
  intro text run container row matrix delimiter
  have hread : Equation.ofElement 6 delimiter = .ok _ := rfl
  have hs := ofElement_eq_ok_iff.mpr ⟨_, hread, by decide, rfl⟩
  obtain ⟨q, hq, -, hagree⟩ := (queriesAgree_of_ofElement 6 delimiter).1 _ hs
  rw [hread] at hq
  cases hq
  have hagree := hagree {}
  refine ⟨_, hs, hagree.length_eq, ?_, ?_, ?_⟩
  · exact (hagree.render_eq 1 (by decide) 4 (by decide)).trans (congrArg Except.ok (by decide +kernel))
  · exact hagree.nodeLatex_of_le 9 (by decide)
  · exact hagree.unrecognizedTags_eq.trans (congrArg Except.ok (by decide +kernel))

end Store

end OfficeMath
