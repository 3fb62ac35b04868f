import OfficeMath.Proofs.Equation.Bare
import OfficeMath.Proofs.Equation.Outline
import OfficeMath.Proofs.Equation.Parts
import OfficeMath.Proofs.Typeset.Enclosure

/-! What is looked up in a tree that is set. A node has the same parts before it is set and after, where they are set
    inside what the node makes, and each entry of an outline stands for one of the nodes that are set. -/

namespace OfficeMath

/-- The node of an entry, set inside what is around it. -/
abbrev Entry.typeset (choice : ArrayEnvironment) (entry : Entry) : Node String :=
  entry.node.typeset choice entry.enclosure

namespace Node

variable {α : Type} {choice : ArrayEnvironment} {enclosure : Enclosure α}

/-! ### Nodes whose children are set -/

section Children

variable {n : Node α} {m : Node String} (h : m.children = n.children.map (typeset choice enclosure))

include h

/-- A test on what the children say by themselves picks the same ones. -/
theorem filter_children {f : Head → Bool} :
    m.children.filter (fun d => f d.head) = (n.children.filter fun c => f c.head).map (typeset choice enclosure) := by
  rw [h, List.filter_map]
  congr 1
  exact List.filter_congr fun c _ => congrArg f (head_typeset enclosure c)

theorem contentChildren_of_children : m.contentChildren = n.contentChildren.map (typeset choice enclosure) :=
  filter_children h (f := fun head => !head.isProperty)

theorem childrenTagged_of_children (tag : String) :
    m.childrenTagged tag = (n.childrenTagged tag).map (typeset choice enclosure) :=
  filter_children h (f := fun head => head.isTag tag)

theorem hasContent_of_children : m.hasContent = n.hasContent := by
  rw [Bool.eq_iff_iff, hasContent_iff, hasContent_iff, contentChildren_of_children h, Ne, List.map_eq_nil_iff]

omit h in
@[simp] theorem hasContent_typeset (enclosure : Enclosure α) (c : Node α) :
    (c.typeset choice enclosure).hasContent = c.hasContent :=
  hasContent_of_children (children_typeset enclosure c)

theorem contentChild?_of_children (tag : String) :
    m.contentChild? tag = (n.contentChild? tag).map (typeset choice enclosure) := by
  have hchild : m.child? tag = (n.child? tag).map (typeset choice enclosure) := by
    have hhead := congrArg List.head? (childrenTagged_of_children h tag)
    rwa [childrenTagged, childrenTagged, List.head?_map, List.head?_filter, List.head?_filter] at hhead
  unfold contentChild?
  rw [hchild]
  cases n.child? tag with
  | none => rfl
  | some c => cases hc : c.hasContent <;> simp [Option.filter, hc, hasContent_typeset]

omit h in
theorem filter_hasContent_map_typeset (ns : List (Node α)) :
    (ns.map (typeset choice enclosure)).filter hasContent = (ns.filter hasContent).map (typeset choice enclosure) := by
  rw [List.filter_map]
  congr 1
  exact List.filter_congr fun c _ => hasContent_typeset enclosure c

theorem onlyContentChild?_of_children :
    m.onlyContentChild? = n.onlyContentChild?.map (typeset choice enclosure) := by
  unfold onlyContentChild?
  rw [contentChildren_of_children h]
  rcases n.contentChildren with _ | ⟨c, _ | ⟨d, cs⟩⟩ <;> rfl

theorem segments_of_children : m.segments = n.segments.map (List.map (typeset choice enclosure)) := by
  have htag (c : Node α) (tag : String) : (c.typeset choice enclosure).isTag tag = c.isTag tag :=
    isTag_eq (head_typeset enclosure c) tag
  unfold segments
  rw [contentChildren_of_children h, splitBy_map, List.filter_map]
  simp [isLoose, htag, Function.comp_def]

theorem soleContent?_of_children : m.soleContent? = n.soleContent?.map (typeset choice enclosure) := by
  unfold soleContent?
  rw [segments_of_children h]
  rcases n.segments with _ | ⟨_ | ⟨c, _ | ⟨d, cs⟩⟩, _ | ⟨s, segments⟩⟩ <;> rfl

theorem isSome_absorbedContent?_of_children (fence : Fence) :
    (m.absorbedContent? fence).isSome = (n.absorbedContent? fence).isSome := by
  have habsorbs (enclosure : Enclosure α) (c : Node α) : (c.typeset choice enclosure).absorbs fence = c.absorbs fence :=
    absorbs_eq (head_typeset enclosure c) fence
  unfold absorbedContent? wrappedContent?
  rw [soleContent?_of_children h]
  cases n.soleContent? with
  | none => rfl
  | some c =>
    rw [Option.map_some, Option.bind_some, Option.bind_some, isTag_eq (head_typeset _ c)]
    split
    · rw [onlyContentChild?_of_children (children_typeset _ c)]
      cases c.onlyContentChild? with
      | none => rfl
      | some d => cases hd : d.absorbs fence <;> simp [Option.filter, habsorbs, hd]
    · cases hc : c.absorbs fence <;> simp [Option.filter, habsorbs, hc]

/-- The parts of the construct are the parts of the node, set. -/
theorem kind_of_children (hhead : m.head = n.head) : m.kind = n.kind.map (typeset choice enclosure) := by
  unfold kind
  rw [form_eq hhead]
  cases n.form <;>
    simp only [Kind.map, contentChild?_of_children h, childrenTagged_of_children h,
      filter_hasContent_map_typeset, segments_of_children h]

end Children

theorem segments_of_kind {n : Node α} {fence : Fence} {segments : List (List (Node α))}
    (h : n.kind = .delimiter fence segments) : n.segments = segments := by
  unfold kind at h
  cases hform : n.form <;> rw [hform] at h <;> cases h
  rfl

theorem isArray_of_kind {n : Node α} (h : (∃ rows, n.kind = .matrix rows) ∨ ∃ rows, n.kind = .equationArray rows) :
    n.isArray = true := by
  unfold kind at h
  unfold isArray
  cases hform : n.form <;> simp [hform] at h ⊢

@[simp] theorem plainText?_typeset (enclosure : Enclosure α) (n : Node α) :
    (n.typeset choice enclosure).plainText? = n.plainText? := by
  have hrun (ns : List (Node α)) (enclosure : Enclosure α) :
      (ns.map (typeset choice enclosure)).mapM run? = ns.mapM run? := by
    induction ns with
    | nil => rfl
    | cons n ns ih =>
      rw [List.map_cons, List.mapM_cons, List.mapM_cons, ih, run?_eq (head_typeset enclosure n)]
  unfold plainText?
  rw [run?_eq (head_typeset enclosure n), contentChildren_of_children (children_typeset enclosure n)]
  cases n.run? with
  | some r => rfl
  | none => cases n.contentChildren with
    | nil => rfl
    | cons c cs => exact congrArg (Option.map fun rs => String.join (rs.map Run.source)) (hrun (c :: cs) _)

/-- The LaTeX of a node is made from its children as they are set. -/
theorem exists_latexOf_typeset (choice : ArrayEnvironment) (enclosure : Enclosure α) (n : Node α) :
    ∃ m : Node String, m.head = n.head ∧ m.children = n.children.map (typeset choice (enclosure.inside n)) ∧
      (n.typeset choice enclosure).note = m.latexOf choice enclosure.fence? := by
  obtain ⟨head, first, children⟩ := n
  exact ⟨.mk head "" _, rfl, typesetAll_eq_map _ children, rfl⟩

theorem kind_of_run? {n : Node α} {r : Run} (h : n.run? = some r) : n.kind = .run r := by
  unfold run? at h
  unfold kind
  cases hform : n.form <;> rw [hform] at h <;> cases h
  rfl

theorem note_typeset_of_run? {n : Node α} {r : Run} (h : n.run? = some r) :
    (n.typeset choice enclosure).note = Typeset.run r := by
  obtain ⟨m, hhead, hchildren, hnote⟩ := exists_latexOf_typeset choice enclosure n
  rw [hnote, latexOf, kind_of_children hchildren hhead, kind_of_run? h]
  rfl

theorem note_typeset_of_generic {n : Node α} (h : n.form = .generic) : (n.typeset choice enclosure).note =
    Latex.joinFragments (n.contentChildren.map fun c => (c.typeset choice (enclosure.inside n)).note) := by
  obtain ⟨m, hhead, hchildren, hnote⟩ := exists_latexOf_typeset choice enclosure n
  rw [hnote, latexOf, kind, form_eq hhead, h, contentChildren_of_children hchildren]
  exact congrArg Latex.joinFragments (List.map_map ..)

/-! ### Entries -/

mutual

theorem map_typeset_entries (parent : Option (Node Nat)) (enclosure : Enclosure Nat) :
    ∀ n : Node Nat, (n.entries parent enclosure).map (Entry.typeset choice) = (n.typeset choice enclosure).preorder
  | mk head note children => by
    rw [entries, List.map_cons, map_typeset_entriesAll _ _ children, Entry.typeset, typeset, preorder]

/-- The nodes of the entries, each set inside what the entry says, are those of the trees that are set. -/
theorem map_typeset_entriesAll (parent : Option (Node Nat)) (enclosure : Enclosure Nat) :
    ∀ ns : List (Node Nat),
      (entriesAll parent enclosure ns).map (Entry.typeset choice) = preorderAll (typesetAll choice enclosure ns)
  | [] => rfl
  | n :: ns => by
    rw [entriesAll, typesetAll, preorderAll, List.map_append, map_typeset_entries parent enclosure n,
      map_typeset_entriesAll parent enclosure ns]

end

end Node

namespace Equation

variable {q : Equation} {entry : Entry}

theorem typeset_numbered (options : Options) (q : Equation) :
    Node.typesetAll options.equationArray .none q.numbered = q.typeset options :=
  Node.typesetAll_numberAll (@Enclosure.Alike.none Unit Nat) 0 q.roots

/-- The LaTeX of a node by its number is that of the node with the number, set inside what is around it. -/
theorem nodeLatex_id (options : Options) (h : entry ∈ q.outline) :
    q.nodeLatex options entry.id = (entry.typeset options.equationArray).note := by
  have hset := @Node.map_typeset_entriesAll options.equationArray none .none q.numbered
  rw [typeset_numbered] at hset
  have hnodes := congrArg (·[entry.id]?) hset
  simp only [List.getElem?_map] at hnodes
  rw [nodeLatex, ← hnodes, show (Node.entriesAll none .none q.numbered)[entry.id]? = _ from outline_getElem?_id h]
  rfl

theorem nodeLatex_of_size_le (options : Options) {id : Nat} (hid : q.size ≤ id) : q.nodeLatex options id = "" := by
  have hsize : (Node.preorderAll (q.typeset options)).length = q.size := by
    rw [Node.length_preorderAll, ← Node.length_placesAll, typeset, Node.placesAll_typesetAll, Node.length_placesAll]
    rfl
  rw [nodeLatex, List.getElem?_eq_none (hsize ▸ hid)]
  rfl

/-- What a delimiter wraps has an entry of its own, and is wrapped when it is set as well. -/
theorem exists_wrapped {choice : ArrayEnvironment} {m : Node String} (hentry : entry ∈ q.outline)
    (hchildren : m.children = entry.node.children.map (Node.typeset choice entry.inner)) :
    entry.node.wrappedContent? = none ∧ m.wrappedContent? = none ∨
      ∃ b ∈ q.outline, b.node.size < entry.node.size ∧ entry.node.wrappedContent? = some b.node ∧
        m.wrappedContent? = some (b.typeset choice) := by
  unfold Node.wrappedContent?
  rw [Node.soleContent?_of_children hchildren]
  cases hsole : entry.node.soleContent? with
  | none => exact .inl ⟨rfl, rfl⟩
  | some c =>
    have hmem := Node.mem_children_of_soleContent? hsole
    have hc := child_mem_outline hentry hmem
    have hsize := Node.size_lt_of_mem_children hmem
    rw [Option.map_some, Option.bind_some, Option.bind_some, Node.isTag_eq (Node.head_typeset _ c)]
    split
    · rw [Node.onlyContentChild?_of_children (Node.children_typeset _ c)]
      cases honly : c.onlyContentChild? with
      | none => exact .inl ⟨rfl, rfl⟩
      | some d =>
        have hmem' := Node.mem_children_of_onlyContentChild? honly
        exact .inr ⟨(entry.child c).child d, child_mem_outline hc hmem',
          Nat.lt_trans (Node.size_lt_of_mem_children hmem') hsize, rfl, rfl⟩
    · exact .inr ⟨entry.child c, hc, hsize, rfl, rfl⟩

end Equation

end OfficeMath
