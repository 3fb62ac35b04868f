import OfficeMath.Proofs.Store.Fence
import OfficeMath.Proofs.Typeset.Lookup

/-! Rendering from a store. What a construct refers to stands in the tree below its node, at most three levels down, so
    steps that are enough for smaller trees are enough for the node with one step more; what comes out is the LaTeX that
    the node has in the tree. -/

namespace OfficeMath
namespace Store

open Node (note typeset)

section Parts

variable {render : Nat → Except Fault String} {f : Node Nat → Node String} {choice : ArrayEnvironment}

theorem renderPart_eq {part : Option (Node Nat)} (h : ∀ c ∈ part, render c.note = .ok (f c).note) :
    renderPart render (part.map note) = .ok ((part.map f).map note) := by
  cases part with
  | none => rfl
  | some c =>
    rw [Option.map_some, renderPart, h c rfl]
    rfl

theorem mapM_render_eq {ns : List (Node Nat)} (h : ∀ c ∈ ns, render c.note = .ok (f c).note) :
    (ns.map note).mapM render = .ok ((ns.map f).map note) := by
  rw [mapM_map_note h, List.map_map]
  rfl

theorem mapM_segments_eq {segments : List (List (Node Nat))}
    (h : ∀ c ∈ segments.flatten, render c.note = .ok (f c).note) :
    (segments.map (List.map note)).mapM (fun segment => segment.mapM render) =
      .ok ((segments.map (List.map f)).map (List.map note)) := by
  induction segments with
  | nil => rfl
  | cons segment segments ih =>
    rw [List.flatten_cons, List.forall_mem_append] at h
    rw [List.map_cons, List.mapM_cons, mapM_render_eq h.1, ih h.2]
    rfl

/-! ### What is below an entry -/

/-- The nodes of an equation that are smaller than a bound are set right. -/
def Renders (q : Equation) (choice : ArrayEnvironment) (bound : Nat) (render : Nat → Except Fault String) : Prop :=
  ∀ entry ∈ q.outline, entry.node.size < bound → render entry.node.note = .ok (entry.typeset choice).note

variable {q : Equation} {entry : Entry} {bound : Nat} (h : Renders q choice bound render) (hentry : entry ∈ q.outline)

include h hentry

theorem render_child (hsize : entry.node.size ≤ bound) {c : Node Nat} (hc : c ∈ entry.node.children) :
    render c.note = .ok (c.typeset choice entry.inner).note :=
  h (entry.child c) (Equation.child_mem_outline hentry hc) (Nat.lt_of_lt_of_le (Node.size_lt_of_mem_children hc) hsize)

/-! ### Functions -/

omit h in
theorem plainName_eq : q.store.plainName entry.node.note = .ok (Typeset.plainName? (entry.typeset choice)) := by
  rw [plainName, plainText_eq (Equation.holds_store q entry hentry) (Equation.lists_store hentry),
    Typeset.plainName?, Node.plainText?_typeset]
  rfl

theorem scriptedName_eq (hsize : entry.node.size ≤ bound) :
    q.store.scriptedName render entry.node.note = .ok (Typeset.scriptedName? (entry.typeset choice)) := by
  unfold Typeset.scriptedName?
  rw [scriptedName, Node.onlyContentChild?_of_children (Node.children_typeset entry.enclosure entry.node),
    onlyContentChild_eq (Equation.lists_store hentry)]
  cases honly : entry.node.onlyContentChild? with
  | none => rfl
  | some c =>
    have hmem := Node.mem_children_of_onlyContentChild? honly
    have hc := Equation.child_mem_outline hentry hmem
    have hparts : ∀ d ∈ c.kind.parts, (entry.child c).child d ∈ q.outline ∧
        render d.note = .ok (d.typeset choice (entry.inner.inside c)).note := fun d hd =>
      ⟨Equation.child_mem_outline hc (Node.mem_children_of_parts hd),
        render_child h hc (Nat.le_of_lt (Nat.lt_of_lt_of_le (Node.size_lt_of_mem_children hmem) hsize))
          (Node.mem_children_of_parts hd)⟩
    dsimp only [bind, Except.bind, Option.map_some, Option.bind_some]
    rw [Equation.cell_child hentry hmem, Node.kind_of_children (Node.children_typeset _ c) (Node.head_typeset _ c)]
    dsimp only [Node.cell]
    cases hkind : c.kind with
    | script base sub sup =>
      rw [hkind] at hparts
      cases base with
      | none => rfl
      | some base =>
        simp only [Kind.parts, Option.toList_some, List.forall_mem_append, List.forall_mem_singleton,
          Option.mem_toList] at hparts
        obtain ⟨⟨⟨hbase, -⟩, hsub⟩, hsup⟩ := hparts
        have hname : q.store.plainName base.note =
            .ok (Typeset.plainName? (base.typeset choice (entry.inner.inside c))) :=
          plainName_eq hbase
        dsimp only [Kind.map, Option.map_some]
        rw [hname, renderPart_eq fun d hd => (hsub d hd).2, renderPart_eq fun d hd => (hsup d hd).2]
        cases Typeset.plainName? (base.typeset choice (entry.inner.inside c)) <;> rfl
    | _ => rfl

theorem functionName_eq (hsize : entry.node.size < bound) :
    q.store.functionName render entry.node.note = .ok (Typeset.functionName (entry.typeset choice)) := by
  rw [functionName, @plainName_eq choice q entry hentry, Typeset.functionName]
  cases Typeset.plainName? (entry.typeset choice) with
  | some name => rfl
  | none =>
    dsimp only [bind, Except.bind]
    rw [scriptedName_eq h hentry (Nat.le_of_lt hsize), h entry hentry hsize]
    cases Typeset.scriptedName? (entry.typeset choice) with
    | some name => rfl
    | none =>
      dsimp only [bind, Except.bind, pure, Except.pure]
      rw [Option.getD_none]

omit h in
theorem isFencedArgument_eq :
    q.store.isFencedArgument entry.node.note = .ok (Typeset.isFencedArgument (entry.typeset choice)) := by
  unfold Typeset.isFencedArgument
  rw [isFencedArgument, Node.onlyContentChild?_of_children (Node.children_typeset entry.enclosure entry.node),
    onlyContentChild_eq (Equation.lists_store hentry)]
  cases honly : entry.node.onlyContentChild? with
  | none => rfl
  | some c =>
    dsimp only [bind, Except.bind, Option.map_some, Option.any_some]
    rw [Equation.cell_child hentry (Node.mem_children_of_onlyContentChild? honly), Node.form_eq (Node.head_typeset _ c)]
    exact congrArg Except.ok (Node.isDelimiter_cell _ c)

omit h in
theorem renderApplication_eq (name : String) {arguments : List (Node Nat)}
    (harguments : ∀ c ∈ arguments, c ∈ entry.node.children) :
    q.store.renderApplication name (arguments.map note) ((arguments.map (typeset choice entry.inner)).map note) =
      .ok (Typeset.application name (arguments.map (typeset choice entry.inner))) := by
  rcases arguments with _ | ⟨c, _ | ⟨d, arguments⟩⟩
  · rfl
  · have hfenced : q.store.isFencedArgument c.note = .ok (Typeset.isFencedArgument (c.typeset choice entry.inner)) :=
      isFencedArgument_eq (Equation.child_mem_outline hentry (harguments c (List.mem_singleton_self c)))
    simp only [List.map_cons, List.map_nil, renderApplication, Typeset.application, hfenced]
    dsimp only [bind, Except.bind, pure, Except.pure]
    split
    · rfl
    split
    · rfl
    split <;> rfl
  · simp only [List.map_cons, renderApplication, Typeset.application]
    dsimp only [bind, Except.bind, pure, Except.pure]
    split <;> rfl

theorem renderFunction_eq (hsize : entry.node.size ≤ bound) {name : Option (Node Nat)} {arguments : List (Node Nat)}
    (hkind : entry.node.kind = .function name arguments) :
    q.store.renderFunction render (name.map note) (arguments.map note) =
      .ok (Typeset.function (name.map (typeset choice entry.inner)) (arguments.map (typeset choice entry.inner))) := by
  have hparts : ∀ c ∈ name.toList ++ arguments, c ∈ entry.node.children := fun c hc =>
    Node.mem_children_of_parts (by rw [hkind]; exact hc)
  obtain ⟨hname, harguments⟩ := List.forall_mem_append.mp hparts
  rw [renderFunction, mapM_render_eq fun c hc => render_child h hentry hsize (harguments c hc)]
  cases name with
  | none => rfl
  | some c =>
    have hc := hname c (List.mem_singleton_self c)
    have hfunction : q.store.functionName render c.note = .ok (Typeset.functionName (c.typeset choice entry.inner)) :=
      functionName_eq h (Equation.child_mem_outline hentry hc)
        (Nat.lt_of_lt_of_le (Node.size_lt_of_mem_children hc) hsize)
    dsimp only [bind, Except.bind, Option.map_some]
    rw [hfunction]
    exact renderApplication_eq hentry _ harguments

/-! ### Delimiters -/

omit h in
theorem wrappedContent_eq :
    q.store.wrappedContent (entry.node.segments.map (List.map note)) = .ok (entry.node.wrappedContent?.map note) := by
  rw [wrappedContent, soleContent?_map_note, Node.wrappedContent?]
  cases hsole : entry.node.soleContent? with
  | none => rfl
  | some c =>
    have hc := Node.mem_children_of_soleContent? hsole
    dsimp only [Option.map_some, Option.bind_some]
    rw [isTag_eq (Equation.cell_child hentry hc)]
    cases c.isTag "e" with
    | true => exact onlyContentChild_eq (Equation.lists_child hentry hc)
    | false => rfl

omit h in
theorem absorbedContent_eq {fence : Fence} {b : Entry} (hb : b ∈ q.outline)
    (hwrapped : entry.node.wrappedContent? = some b.node) :
    q.store.absorbedContent fence (entry.node.segments.map (List.map note)) =
      .ok (if b.node.absorbs fence then some b.node.note else none) := by
  rw [absorbedContent, wrappedContent_eq hentry, hwrapped]
  dsimp only [bind, Except.bind, Option.map_some]
  rw [show q.store.cell b.node.note = _ from Equation.holds_store q b hb]
  dsimp only [Entry.cell, Node.cell]
  unfold Node.absorbs Node.kind
  cases b.node.form <;> rfl

theorem renderDelimiter_eq (hsize : entry.node.size ≤ bound) {fence : Fence} {m : Node String}
    (hchildren : m.children = entry.node.children.map (typeset choice entry.inner)) :
    q.store.renderDelimiter render fence (entry.node.segments.map (List.map note)) =
      .ok (Typeset.delimiter fence ((m.absorbedContent? fence).map note)
        ((entry.node.segments.map (List.map (typeset choice entry.inner))).map (List.map note))) := by
  have hsegments : ∀ c ∈ entry.node.segments.flatten,
      render c.note = .ok (c.typeset choice entry.inner).note := fun c hc =>
    render_child h hentry hsize (Node.mem_children_of_segments hc)
  rw [renderDelimiter, mapM_segments_eq hsegments, Node.absorbedContent?]
  rcases Equation.exists_wrapped hentry hchildren with ⟨hnone, hnone'⟩ | ⟨b, hb, hlt, hwrapped, hwrapped'⟩
  · rw [absorbedContent, wrappedContent_eq hentry, hnone, hnone']
    rfl
  · rw [absorbedContent_eq hentry hb hwrapped, hwrapped', Option.filter_some,
      Node.absorbs_eq (Node.head_typeset _ b.node)]
    cases b.node.absorbs fence with
    | false => rfl
    | true => exact h b hb (Nat.lt_of_lt_of_le hlt hsize)

/-! ### Constructs -/

omit h in
theorem limitFunction_eq {base : Option (Node Nat)} (hbase : ∀ c ∈ base, c ∈ entry.node.children) :
    q.store.limitFunction (base.map note) =
      .ok (((base.map (typeset choice entry.inner)).bind Node.plainText?).bind Latex.functionCommand?) := by
  cases base with
  | none => rfl
  | some c =>
    dsimp only [Option.map_some, Option.bind_some, limitFunction]
    rw [plainText_eq (Equation.cell_child hentry (hbase c rfl)) (Equation.lists_child hentry (hbase c rfl)),
      Node.plainText?_typeset]
    rfl

theorem renderCells_eq (hsize : entry.node.size ≤ bound) :
    q.store.renderCells render entry.node.note =
      .ok (match (entry.typeset choice).kind with
        | .matrixRow cells => cells.map note
        | _ => []) := by
  have hcell : q.store.cell entry.node.note = .ok entry.cell := Equation.holds_store q entry hentry
  rw [renderCells, hcell, Node.kind_of_children (Node.children_typeset entry.enclosure entry.node)
    (Node.head_typeset entry.enclosure entry.node)]
  have hkind : entry.cell.kind = entry.node.kind.map note := rfl
  cases hnode : entry.node.kind with
  | matrixRow cells =>
    have hcells : ∀ c ∈ cells, render c.note = .ok (c.typeset choice entry.inner).note :=
      fun c hc => render_child h hentry hsize (Node.mem_children_of_parts (by rw [hnode]; exact hc))
    dsimp only [bind, Except.bind]
    rw [hkind, hnode]
    exact mapM_render_eq hcells
  | _ =>
    dsimp only [bind, Except.bind]
    rw [hkind, hnode]
    rfl

theorem renderKind_eq {limit : Nat} {root : Xml.Element} (hq : Equation.ofElement limit root = .ok q)
    (hsize : entry.node.size ≤ bound) {m : Node String} (hhead : m.head = entry.node.head)
    (hchildren : m.children = entry.node.children.map (typeset choice entry.inner)) :
    q.store.renderKind render choice entry.node.note (entry.node.kind.map note) =
      .ok (m.latexOf choice entry.enclosure.fence?) := by
  have hparts : ∀ c ∈ entry.node.kind.parts, render c.note = .ok (c.typeset choice entry.inner).note := fun c hc =>
    render_child h hentry hsize (Node.mem_children_of_parts hc)
  unfold Node.latexOf
  rw [Node.kind_of_children hchildren hhead]
  generalize hkind : entry.node.kind = kind at hparts ⊢
  cases kind with
  | generic =>
    have hcontent : ∀ c ∈ entry.node.contentChildren,
        render c.note = .ok (c.typeset choice entry.inner).note := fun c hc =>
      render_child h hentry hsize (Node.mem_children_of_contentChildren hc)
    rw [Kind.map, renderKind, contentChildren_eq (Equation.lists_store hentry)]
    dsimp only [bind, Except.bind, Kind.map]
    rw [mapM_render_eq hcontent, Node.contentChildren_of_children hchildren]
    rfl
  | run r => rfl
  | delimiter fence segments =>
    obtain rfl := Node.segments_of_kind hkind
    rw [Kind.map, renderKind, renderDelimiter_eq h hentry hsize hchildren]
    rfl
  | function name arguments => exact renderFunction_eq h hentry hsize hkind
  | matrix rows =>
    have hrows : ∀ r ∈ rows, q.store.renderCells render r.note =
        .ok (match (r.typeset choice entry.inner).kind with
          | .matrixRow cells => cells.map note
          | _ => []) := fun r hr =>
      have hr : r ∈ entry.node.children := Node.mem_children_of_parts (by rw [hkind]; exact hr)
      renderCells_eq h (Equation.child_mem_outline hentry hr)
        (Nat.le_of_lt (Nat.lt_of_lt_of_le (Node.size_lt_of_mem_children hr) hsize))
    have hfence : q.store.enclosingFence entry.node.note = .ok entry.enclosure.fence? :=
      enclosingFence_eq hq hentry (Node.isArray_of_kind (.inl ⟨rows, hkind⟩))
    rw [Kind.map, renderKind, mapM_map_note hrows, hfence]
    dsimp only [bind, Except.bind, Kind.map, Node.cellsOf]
    rw [List.map_map]
    rfl
  | matrixRow cells =>
    rw [Kind.parts] at hparts
    rw [Kind.map, renderKind, mapM_render_eq hparts]
    rfl
  | limit upper base limit =>
    have hbase : ∀ c ∈ base, c ∈ entry.node.children := fun c hc =>
      Node.mem_children_of_parts (by rw [hkind]; exact List.mem_append_left _ (Option.mem_toList.mpr hc))
    simp only [Kind.parts, List.forall_mem_append, Option.mem_toList] at hparts
    rw [Kind.map, renderKind, @limitFunction_eq choice q entry hentry _ hbase, renderPart_eq hparts.1,
      renderPart_eq hparts.2]
    rfl
  | equationArray rows =>
    have hfence : q.store.enclosingFence entry.node.note = .ok entry.enclosure.fence? :=
      enclosingFence_eq hq hentry (Node.isArray_of_kind (.inr ⟨rows, hkind⟩))
    rw [Kind.parts] at hparts
    rw [Kind.map, renderKind, mapM_render_eq hparts, hfence]
    rfl
  | fraction _ _ _ | radical _ _ _ =>
    simp only [Kind.parts, List.forall_mem_append, Option.mem_toList] at hparts
    rw [Kind.map, renderKind, renderPart_eq hparts.1, renderPart_eq hparts.2]
    rfl
  | script _ _ _ | preScript _ _ _ | nary _ _ _ _ =>
    simp only [Kind.parts, List.forall_mem_append, Option.mem_toList] at hparts
    rw [Kind.map, renderKind, renderPart_eq hparts.1.1, renderPart_eq hparts.1.2, renderPart_eq hparts.2]
    rfl
  | accent _ _ | bar _ _ | box _ _ | groupCharacter _ _ _ | phantom _ _ =>
    simp only [Kind.parts, Option.mem_toList] at hparts
    rw [Kind.map, renderKind, renderPart_eq hparts]
    rfl

end Parts

/-! ### Stores -/

variable {q : Equation} {entry : Entry} {limit : Nat} {root : Xml.Element} {choice : ArrayEnvironment}

/-- As many steps as a node's tree has nodes are enough, and the LaTeX is that of the node in the tree. -/
theorem render_eq (hq : Equation.ofElement limit root = .ok q) {steps : Nat} (hentry : entry ∈ q.outline)
    (hsteps : entry.node.size ≤ steps) :
    q.store.render choice steps entry.id = .ok (entry.typeset choice).note := by
  -- on the steps: what a node refers to has a smaller tree than the node
  induction steps generalizing entry with
  | zero => exact absurd hsteps (Nat.not_le_of_lt entry.node.size_pos)
  | succ steps ih =>
    have hrenders : Renders q choice (steps + 1) (q.store.render choice steps) := fun entry hentry hsize =>
      ih hentry (Nat.le_of_lt_succ hsize)
    have hkind : entry.cell.kind = entry.node.kind.map note := rfl
    rw [render, show q.store.cell entry.id = _ from Equation.holds_store q entry hentry]
    dsimp only [bind, Except.bind]
    rw [hkind]
    obtain ⟨⟨head, first, children⟩, parent, enclosure⟩ := entry
    rw [Entry.typeset, typeset]
    exact renderKind_eq hrenders hentry hq hsteps rfl (Node.typesetAll_eq_map _ children)

theorem length_store (q : Equation) : q.store.cells.length = q.size := by
  rw [Equation.store, List.length_map, Equation.length_outline, Equation.length_places]

/-- From any node on, as many steps as there are nodes from its number on are enough. -/
theorem render_eq_nodeLatex (hq : Equation.ofElement limit root = .ok q) (options : Options) {id steps : Nat}
    (hid : id < q.size) (hsteps : q.size - id ≤ steps) :
    q.store.render options.equationArray steps id = .ok (q.nodeLatex options id) := by
  obtain ⟨entry, hentry, rfl⟩ := Equation.exists_mem_outline hid
  have hle := Equation.id_add_size_le hentry
  rw [Equation.nodeLatex_id options hentry]
  exact render_eq hq hentry (by omega)

theorem nodeLatex_eq (hq : Equation.ofElement limit root = .ok q) (options : Options) (id : Nat) :
    q.store.nodeLatex options.equationArray id = .ok (q.nodeLatex options id) := by
  unfold nodeLatex
  by_cases hid : id < q.size
  · rw [List.getElem?_eq_getElem (length_store q ▸ hid)]
    exact render_eq_nodeLatex hq options hid (length_store q ▸ Nat.le_refl _)
  · rw [Nat.not_lt] at hid
    rw [List.getElem?_eq_none (length_store q ▸ hid), Equation.nodeLatex_of_size_le options hid]
    rfl

theorem latex_eq (hq : Equation.ofElement limit root = .ok q) (options : Options) :
    q.store.latex options.equationArray = .ok (q.latex options) := by
  have hroots : ∀ n ∈ q.numbered, q.store.render options.equationArray (q.store.stepsFrom n.note) n.note =
      .ok (n.typeset options.equationArray .none).note := by
    intro n hn
    have hentry : (⟨n, none, .none⟩ : Entry) ∈ q.outline := Node.mem_entriesAll_of_mem hn
    have hle : n.note + n.size ≤ q.size := Equation.id_add_size_le hentry
    have hsteps : n.size ≤ q.store.stepsFrom n.note := by
      rw [stepsFrom, length_store]
      omega
    exact render_eq hq hentry hsteps
  rw [latex, show q.store.roots = q.numbered.map note from rfl, mapM_map_note hroots, Equation.latex,
    ← Equation.typeset_numbered, Node.typesetAll_eq_map, List.map_map]
  rfl

/-! ### Unrecognized tags -/

theorem isUnrecognized_eq (hentry : entry ∈ q.outline) :
    q.store.isUnrecognized entry.cell = .ok (Equation.isUnrecognized entry) := by
  have hkind : entry.cell.kind = entry.node.kind.map note := rfl
  have hproperty : entry.cell.isProperty = entry.node.isProperty := rfl
  have hknown : (entry.cell.isMath && containerTags.contains entry.cell.tag) =
    (entry.node.head.isMath && containerTags.contains entry.node.head.tag) := rfl
  unfold isUnrecognized Equation.isUnrecognized
  rw [hkind, hproperty, hknown]
  unfold Node.kind
  cases hform : entry.node.form with
  | generic =>
    dsimp only [Kind.map]
    cases entry.node.isProperty with
    | true => rfl
    | false =>
      cases entry.node.head.isMath && containerTags.contains entry.node.head.tag with
      | true => rfl
      | false =>
        rcases Equation.exists_above_of_mem_outline hentry with ⟨n, -, rfl⟩ | ⟨above, habove, c, -, rfl⟩
        · rfl
        · have hparent : (above.child c).cell.parent = some above.id := rfl
          rw [hparent]
          dsimp only [bind, Except.bind]
          rw [Equation.holds_store q above habove]
          rfl
  | _ => rfl

theorem unrecognizedTags_eq (q : Equation) : q.store.unrecognizedTags = .ok q.unrecognizedTags := by
  have hfrom : ∀ (entries : List Entry) (tags : List String), (∀ entry ∈ entries, entry ∈ q.outline) →
      q.store.unrecognizedFrom tags (entries.map Entry.cell) =
        .ok (((entries.filter Equation.isUnrecognized).map fun e => e.node.head.tag).foldl
          (fun tags tag => if tags.contains tag then tags else tags ++ [tag]) tags) := by
    intro entries
    induction entries with
    | nil => exact fun _ _ => rfl
    | cons entry entries ih =>
      intro tags hentries
      rw [List.forall_mem_cons] at hentries
      rw [List.map_cons, unrecognizedFrom, isUnrecognized_eq hentries.1, List.filter_cons]
      cases Equation.isUnrecognized entry with
      | true => exact ih _ hentries.2
      | false => exact ih _ hentries.2
  exact hfrom q.outline [] fun _ h => h

end Store

end OfficeMath
