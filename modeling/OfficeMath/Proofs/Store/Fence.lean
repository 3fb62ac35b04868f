import OfficeMath.Proofs.Store.Build
import OfficeMath.Proofs.Typeset.Enclosure
import OfficeMath.Store.Render

/-! Looking up from the nodes of an equation in its store: the text that a node spells, and the fence around an array.
    An array goes up to its parent and to the parent of that, and it finds the delimiter that the tree has passed
    down. -/

namespace OfficeMath

namespace Equation

open Node (note)

variable {q : Equation} {entry : Entry}

theorem holds_store (q : Equation) : q.store.Holds q.outline := fun _ hentry => by
  rw [Store.cell_eq_ok_iff, store, List.getElem?_map, outline_getElem?_id hentry]
  rfl

theorem lists_store (h : entry ∈ q.outline) : q.store.Lists entry.node := (holds_store q).lists h

theorem cell_child (h : entry ∈ q.outline) {c : Node Nat} (hc : c ∈ entry.node.children) :
    q.store.cell c.note = .ok (c.cell (some entry.node.note)) :=
  (lists_store h).children c hc

theorem lists_child (h : entry ∈ q.outline) {c : Node Nat} (hc : c ∈ entry.node.children) : q.store.Lists c :=
  lists_store (child_mem_outline h hc)

end Equation

/-- What a delimiter has as its sole content is its only content that is no mark. -/
theorem Node.eq_of_soleContent? {α : Type} {d c c' : Node α} (hsole : d.soleContent? = some c') (hc : c ∈ d.children)
    (hcontent : c.isProperty = false) (hmark : c.isMark = false) : c = c' := by
  have hmem : c ∈ d.contentChildren.filter fun c => !c.isMark :=
    List.mem_filter.mpr ⟨List.mem_filter.mpr ⟨hc, by rw [hcontent]; rfl⟩, by rw [hmark]; rfl⟩
  rwa [contentChildren_of_soleContent? hsole, List.mem_singleton] at hmem

namespace Enclosure

variable {α : Type} {enclosure : Enclosure α} {n d : Node α}

/-- Only what a delimiter has as its sole content is enclosed directly, and by this delimiter. -/
theorem inside_eq_direct_iff :
    enclosure.inside n = direct d ↔ n.form.isDelimiter = true ∧ n.soleContent?.isSome = true ∧ n = d := by
  cases hn : n.form.isDelimiter with
  | true =>
    rw [inside_of_isDelimiter hn]
    split <;> simp [*]
  | false =>
    rw [inside_of_not_isDelimiter hn]
    cases enclosure with
    | direct => dsimp only; split <;> simp
    | _ => simp

/-- The delimiter around the content of a node is the node itself, or it is the one right around an `e` that holds one
    node. -/
theorem delimiter?_inside_eq_some_iff :
    (enclosure.inside n).delimiter? = some d ↔
      n.form.isDelimiter = true ∧ n.soleContent?.isSome = true ∧ n = d ∨
        n.form.isDelimiter = false ∧ n.isTag "e" = true ∧ n.onlyContentChild?.isSome = true ∧
          enclosure = direct d := by
  cases hn : n.form.isDelimiter with
  | true =>
    rw [inside_of_isDelimiter hn]
    split <;> simp [delimiter?, *]
  | false =>
    rw [inside_of_not_isDelimiter hn]
    cases enclosure with
    | direct d' =>
      dsimp only
      split
      · next hsegment => simp [delimiter?, Bool.and_eq_true_iff.mp hsegment]
      · next hsegment =>
        rw [Bool.and_eq_true] at hsegment
        simp [delimiter?, ← and_assoc, hsegment]
    | _ => simp [delimiter?]

end Enclosure

namespace Store

open Node (note)

variable {s : Store} {n : Node Nat} {parent : Option Nat}

theorem mapM_source (ns : List (Node Nat)) :
    ((ns.map fun n => n.run?.map Run.source).mapM fun source => source) =
      (ns.mapM Node.run?).map (List.map Run.source) := by
  induction ns with
  | nil => rfl
  | cons n ns ih =>
    rw [List.map_cons, List.mapM_cons, List.mapM_cons, ih]
    cases n.run? with
    | none => rfl
    | some r => cases ns.mapM Node.run? <;> rfl

theorem source_eq (hcell : s.cell n.note = .ok (n.cell parent)) :
    s.source n.note = .ok (n.run?.map Run.source) := by
  rw [source, hcell]
  exact congrArg Except.ok (Node.source?_cell parent n)

theorem plainText_eq (hcell : s.cell n.note = .ok (n.cell parent)) (h : s.Lists n) :
    s.plainText n.note = .ok n.plainText? := by
  have hsources : ∀ c ∈ n.contentChildren, s.source c.note = .ok (c.run?.map Run.source) := fun c hc =>
    source_eq (h.children c (List.mem_filter.mp hc).1)
  unfold Node.plainText?
  rw [plainText, source_eq hcell]
  cases n.run? with
  | some r => rfl
  | none =>
    rw [contentChildren_eq h]
    cases hcontent : n.contentChildren with
    | nil => rfl
    | cons c cs =>
      rw [hcontent] at hsources
      change (do
        let sources ← ((c :: cs).map note).mapM s.source
        return (sources.mapM fun source => source).map String.join) = _
      rw [mapM_map_note hsources]
      refine congrArg Except.ok ?_
      rw [mapM_source, Option.map_map]
      rfl

/-! ### Enclosures -/

variable {q : Equation} {entry : Entry} {limit : Nat} {root : Xml.Element}

theorem soleContent?_map_note (d : Node Nat) :
    soleContent? (d.segments.map (List.map note)) = d.soleContent?.map note := by
  unfold Node.soleContent?
  rcases d.segments with _ | ⟨_ | ⟨c, _ | ⟨c', cs⟩⟩, _ | ⟨s, segments⟩⟩ <;> rfl

/-- The delimiter that has the number, if its sole content is the node. -/
def delimiterAround (s : Store) (delimiter id : Nat) : Except Fault (Option Nat) := do
  match (← s.cell delimiter).kind with
  | .delimiter _ segments => return if soleContent? segments = some id then some delimiter else none
  | _ => return none

/-- The delimiter that encloses the node and nothing else, either directly or through one `e`. -/
def enclosingDelimiter (s : Store) (id : Nat) : Except Fault (Option Nat) := do
  match (← s.cell id).parent with
  | none => return none
  | some parent =>
    let c ← s.cell parent
    if c.isDelimiter then s.delimiterAround parent id
    else if c.isTag "e" && (← s.onlyContentChild parent).isSome then
      match c.parent with
      | none => return none
      | some grandparent => s.delimiterAround grandparent parent
    else return none

/-- The fence of a delimiter that has been looked up. -/
def fenceOf (s : Store) : Option Nat → Except Fault (Option Fence)
  | none => return none
  | some delimiter => do
    match (← s.cell delimiter).kind with
    | .delimiter fence _ => return some fence
    | _ => return none

theorem fenceAround_eq_bind (s : Store) (delimiter id : Nat) :
    s.fenceAround delimiter id = s.delimiterAround delimiter id >>= s.fenceOf := by
  rw [fenceAround, delimiterAround]
  cases hcell : s.cell delimiter with
  | error fault => rfl
  | ok c =>
    dsimp only [bind, Except.bind]
    cases hkind : c.kind with
    | delimiter fence segments =>
      dsimp only [pure, Except.pure]
      split
      · rw [fenceOf, hcell]
        dsimp only [bind, Except.bind]
        rw [hkind]
        rfl
      · rfl
    | _ => rfl

/-- The fence around a node is that of the delimiter that encloses it. -/
theorem enclosingFence_eq_bind (s : Store) (id : Nat) :
    s.enclosingFence id = s.enclosingDelimiter id >>= s.fenceOf := by
  rw [enclosingFence, enclosingDelimiter]
  cases s.cell id with
  | error fault => rfl
  | ok c =>
    dsimp only [bind, Except.bind]
    cases c.parent with
    | none => rfl
    | some parent =>
      dsimp only
      cases s.cell parent with
      | error fault => rfl
      | ok above =>
        dsimp only
        cases above.isDelimiter with
        | true => exact fenceAround_eq_bind s parent id
        | false =>
          simp only [Bool.false_eq_true, if_false]
          cases s.onlyContentChild parent with
          | error fault => rfl
          | ok only =>
            dsimp only
            split
            · cases above.parent with
              | none => rfl
              | some grandparent => exact fenceAround_eq_bind s grandparent parent
            · rfl

/-- Content that is no mark is enclosed by a node around it only if this is a delimiter with a sole content, and then
    that is the content itself. -/
theorem delimiterAround_eq {d c : Node Nat} (hcell : s.cell d.note = .ok (d.cell parent)) (hc : c ∈ d.children)
    (hcontent : c.isProperty = false) (hmark : c.isMark = false) :
    s.delimiterAround d.note c.note = .ok ((Enclosure.none.inside d).delimiter?.map note) := by
  rw [delimiterAround, hcell]
  dsimp only [bind, Except.bind, Node.cell]
  unfold Node.kind Enclosure.inside
  cases hform : d.form with
  | delimiter fence =>
    simp only [Kind.map, soleContent?_map_note]
    cases hsole : d.soleContent? with
    | none => rfl
    | some c' =>
      rw [Node.eq_of_soleContent? hsole hc hcontent hmark, Option.map_some, if_pos rfl, Option.isSome_some, if_pos rfl]
      rfl
  | _ => rfl

/-- Through an `e` that holds one node the same delimiter is seen as from the `e` itself. -/
theorem delimiter?_inside_inside (enclosure : Enclosure Nat) (d : Node Nat) {n : Node Nat}
    (hn : n.form.isDelimiter = false) (hsegment : (n.isTag "e" && n.onlyContentChild?.isSome) = true) :
    ((enclosure.inside d).inside n).delimiter? = (Enclosure.none.inside d).delimiter? := by
  rw [Enclosure.inside_of_not_isDelimiter hn, hsegment]
  cases hd : d.form.isDelimiter with
  | true =>
    rw [Enclosure.inside_of_isDelimiter hd, Enclosure.inside_of_isDelimiter hd]
    cases d.soleContent?.isSome <;> rfl
  | false =>
    rw [Enclosure.inside_of_not_isDelimiter hd, Enclosure.inside_of_not_isDelimiter hd]
    cases enclosure with
    | direct => cases d.isTag "e" && d.onlyContentChild?.isSome <;> rfl
    | _ => rfl

/-- The delimiter that an array finds by going up in the store is that of the enclosure that has been passed down to
    it. -/
theorem enclosingDelimiter_eq (h : Equation.ofElement limit root = .ok q) (hentry : entry ∈ q.outline)
    (harray : entry.node.isArray = true) :
    q.store.enclosingDelimiter entry.id = .ok (entry.enclosure.delimiter?.map note) := by
  have hholds := Equation.holds_store q
  obtain ⟨hproperty, hmark⟩ := Node.isProperty_of_isArray (Equation.exists_head_of_mem_outline h hentry) harray
  rcases Equation.exists_above_of_mem_outline hentry with ⟨n, -, rfl⟩ | ⟨above, habove, c, hc, rfl⟩
  · rw [enclosingDelimiter, hholds _ hentry]
    rfl
  have hparent : (above.child c).cell.parent = some above.node.note := rfl
  have hcell : q.store.cell above.node.note = .ok above.cell := hholds above habove
  have hdelimiter : above.cell.isDelimiter = above.node.form.isDelimiter := Node.isDelimiter_cell _ above.node
  have htag : above.cell.isTag "e" = above.node.isTag "e" := rfl
  rw [enclosingDelimiter, hholds _ hentry]
  simp only [bind, Except.bind, hparent, hcell, hdelimiter, htag]
  rw [show (above.child c).enclosure = above.enclosure.inside above.node from rfl]
  cases hd : above.node.form.isDelimiter with
  | true =>
    rw [if_pos rfl, Enclosure.inside_of_isDelimiter hd, ← @Enclosure.inside_of_isDelimiter _ .none _ hd]
    exact delimiterAround_eq hcell hc hproperty hmark
  | false =>
    rw [if_neg Bool.false_ne_true, onlyContentChild_eq (Equation.lists_store habove)]
    dsimp only
    rw [Option.isSome_map]
    cases hsegment : above.node.isTag "e" && above.node.onlyContentChild?.isSome with
    | true =>
      obtain ⟨he, -⟩ := Bool.and_eq_true_iff.mp hsegment
      rw [if_pos rfl]
      rcases Equation.exists_above_of_mem_outline habove with ⟨n, -, rfl⟩ | ⟨around, haround, m, hm, rfl⟩
      · rw [Enclosure.inside_of_not_isDelimiter hd]
        rfl
      · have hfound := delimiterAround_eq (hholds around haround) hm (Node.isProperty_of_isTag (by decide) he)
          (Node.isTag_eq_false_of_ne he (by decide))
        rw [← delimiter?_inside_inside around.enclosure around.node hd hsegment] at hfound
        exact hfound
    | false =>
      rw [if_neg Bool.false_ne_true, Enclosure.inside_of_not_isDelimiter hd, hsegment]
      cases above.enclosure <;> rfl

/-- The delimiter that encloses a node is one of the equation. -/
theorem exists_entry_of_enclosure {d : Node Nat} (hentry : entry ∈ q.outline)
    (hd : entry.enclosure.delimiter? = some d) : ∃ around ∈ q.outline, around.node = d := by
  rcases Equation.exists_above_of_mem_outline hentry with ⟨n, -, rfl⟩ | ⟨above, habove, c, -, rfl⟩
  · cases hd
  rcases Enclosure.delimiter?_inside_eq_some_iff.mp hd with ⟨-, -, hnode⟩ | ⟨-, -, -, hdirect⟩
  · exact ⟨above, habove, hnode⟩
  rcases Equation.exists_above_of_mem_outline habove with ⟨n, -, rfl⟩ | ⟨around, haround, m, -, rfl⟩
  · cases hdirect
  · obtain ⟨-, -, hnode⟩ := Enclosure.inside_eq_direct_iff.mp hdirect
    exact ⟨around, haround, hnode⟩

/-- The fence that an array finds by going up in the store is that of the enclosure that has been passed down to it. -/
theorem enclosingFence_eq (h : Equation.ofElement limit root = .ok q) (hentry : entry ∈ q.outline)
    (harray : entry.node.isArray = true) : q.store.enclosingFence entry.id = .ok entry.enclosure.fence? := by
  rw [enclosingFence_eq_bind, enclosingDelimiter_eq h hentry harray, Enclosure.fence?]
  cases hd : entry.enclosure.delimiter? with
  | none => rfl
  | some d =>
    obtain ⟨around, haround, rfl⟩ := exists_entry_of_enclosure hentry hd
    dsimp only [bind, Except.bind, Option.map_some, Option.bind_some, fenceOf]
    rw [show q.store.cell around.node.note = .ok around.cell from Equation.holds_store q around haround]
    dsimp only [Entry.cell, Node.cell]
    unfold Node.kind
    cases around.node.form <;> rfl

end Store

end OfficeMath
