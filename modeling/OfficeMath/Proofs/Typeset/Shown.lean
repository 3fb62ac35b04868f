import OfficeMath.Proofs.Typeset.Template

/-! The LaTeX of what is shown. A node is set from the LaTeX of its parts, and in the end from what the nodes that are
    shown in it write by themselves. So its LaTeX is made of the same pieces whichever name the environments get that
    are left open, and of no others than those that are permitted to each node that is shown. -/

namespace OfficeMath

open Latex

/-! ### What a node writes by itself -/

namespace Entry

/-- The node is an array of equations in the environment that is left open: it has a row, and it is no distinction of
    cases. -/
def isOpenArray (entry : Entry) : Bool :=
  match entry.node.kind with
  | .equationArray rows => !rows.isEmpty && !entry.enclosure.fence?.any Fence.isCases
  | _ => false

/-- A closing bracket may stand in what the node writes by itself: there is one in its texts, or it is a root with a
    degree, which stands between brackets. -/
def mayWriteBracket (entry : Entry) : Bool :=
  entry.node.form.texts.any (·.toList.contains ']') ||
    match entry.node.kind with
    | .radical false (some _) (some _) => true
    | _ => false

/-- All pieces that the node may write by itself are permitted. -/
structure Writes (permits : Piece → Prop) (entry : Entry) : Prop where
  bracket : entry.mayWriteBracket = true → permits (.char ']')
  mark : entry.isOpenArray = true → ∀ m, permits (.mark m)

variable {permits : Piece → Prop} {entry : Entry}

theorem Writes.texts (h : entry.Writes permits) {text : String} (htext : text ∈ entry.node.form.texts)
    (hmem : ']' ∈ text.toList) : permits (.char ']') := by
  refine h.bracket (Bool.or_eq_true_iff.mpr (.inl (List.any_eq_true.mpr ⟨text, htext, ?_⟩)))
  exact List.contains_iff_mem.mpr hmem

/-! ### What is wrapped -/

/-- The entry of what a delimiter wraps. -/
def wrapped? (entry : Entry) : Option Entry :=
  entry.node.soleContent?.bind fun c =>
    if c.isTag "e" then c.onlyContentChild?.map (entry.child c).child else some (entry.child c)

theorem wrappedContent?_of_children {choice : ArrayEnvironment} {m : Node String}
    (hchildren : m.children = entry.node.children.map (Node.typeset choice entry.inner)) :
    m.wrappedContent? = entry.wrapped?.map (Entry.typeset choice) := by
  unfold Node.wrappedContent? wrapped?
  rw [Node.soleContent?_of_children hchildren]
  cases entry.node.soleContent? with
  | none => rfl
  | some c =>
    rw [Option.map_some, Option.bind_some, Option.bind_some, Node.isTag_eq (Node.head_typeset _ c)]
    split
    · rw [Node.onlyContentChild?_of_children (Node.children_typeset _ c), Option.map_map]
      rfl
    · rfl

/-- What brings its fence itself does so after it is set, too. -/
theorem absorbedContent?_of_children {choice : ArrayEnvironment} {m : Node String}
    (hchildren : m.children = entry.node.children.map (Node.typeset choice entry.inner)) (fence : Fence) :
    m.absorbedContent? fence =
      (entry.wrapped?.filter fun b => b.node.absorbs fence).map (Entry.typeset choice) := by
  have habsorbs (b : Entry) : (b.typeset choice).absorbs fence = b.node.absorbs fence := by
    rw [Node.absorbs, Node.absorbs, Node.form_eq (Node.head_typeset _ _)]
  rw [Node.absorbedContent?, wrappedContent?_of_children hchildren]
  cases entry.wrapped? with
  | none => rfl
  | some b => cases hb : b.node.absorbs fence <;> simp [Option.filter, habsorbs, hb]

end Entry

/-! ### Names of functions -/

namespace Node

variable {α : Type} {n : Node α}

theorem mem_shownParts_of_shown {c : Node α} (h : c ∈ n.kind.shown) : c ∈ n.shownParts := by
  unfold shownParts
  cases hform : n.form with
  | generic =>
    rw [kind, hform] at h
    cases h
  | _ => exact h

theorem form_of_kind_generic (h : n.kind = .generic) : n.form = .generic := by
  unfold kind at h
  split at h <;> first | assumption | cases h

theorem isTag_of_kind_function {name : Node α} {arguments : List (Node α)}
    (h : n.kind = .function (some name) arguments) : name.isTag "fName" = true := by
  unfold kind at h
  split at h <;> simp only [Kind.function.injEq, reduceCtorEq] at h
  exact isTag_of_contentChild? h.1

/-- The texts that the node writes by itself belong to the construct that it is. -/
theorem texts_form (n : Node α) :
    n.form.texts = match n.kind with
      | .run r => (Form.run r).texts
      | .delimiter fence _ => (Form.delimiter fence).texts
      | .nary operator _ _ _ => (Form.nary operator).texts
      | _ => [] := by
  unfold kind
  cases n.form <;> rfl

theorem mem_shownParts_of_contentChildren {c : Node α} (hform : n.form = .generic) (h : c ∈ n.contentChildren) :
    c ∈ n.shownParts := by
  rwa [shownParts, hform]

/-- The cells of a row of a matrix. -/
def shownCells (r : Node α) : List (Node α) :=
  match r.kind with
  | .matrixRow cells => cells
  | _ => []

theorem mem_shownParts_of_shownCells {r c : Node α} (h : c ∈ r.shownCells) : c ∈ r.shownParts := by
  unfold shownCells at h
  split at h
  · next cells hkind => exact mem_shownParts_of_shown (by rwa [hkind])
  · cases h

theorem cellsOf_map_typeset {choice : ArrayEnvironment} (enclosure : Enclosure α) (rows : List (Node α)) :
    cellsOf (rows.map (typeset choice enclosure)) =
      rows.map fun r => r.shownCells.map fun c => (c.typeset choice (enclosure.inside r)).note := by
  rw [cellsOf, List.map_map]
  refine List.map_congr_left fun r _ => ?_
  rw [Function.comp_apply, kind_of_children (children_typeset enclosure r) (head_typeset enclosure r), shownCells]
  cases r.kind with
  | matrixRow cells => exact List.map_map
  | _ => rfl

/-- The name of a function is made from scripts on a plain name for all choices, or for none. -/
theorem scriptedName?_cases (enclosure : Enclosure α) (n : Node α) :
    (∀ choice, Typeset.scriptedName? (n.typeset choice enclosure) = none) ∨
      ∃ c base sub sup text name, n.onlyContentChild? = some c ∧ c.kind = .script (some base) sub sup ∧
        plainOperator? text = some name ∧ ∀ choice, Typeset.scriptedName? (n.typeset choice enclosure) =
          some (name ++ Typeset.scripts (sub.map fun d => (d.typeset choice ((enclosure.inside n).inside c)).note)
            (sup.map fun d => (d.typeset choice ((enclosure.inside n).inside c)).note)) := by
  unfold Typeset.scriptedName?
  simp only [onlyContentChild?_of_children (children_typeset enclosure n)]
  cases n.onlyContentChild? with
  | none => exact .inl fun _ => rfl
  | some c =>
    simp only [Option.map_some, Option.bind_some, kind_of_children (children_typeset _ c) (head_typeset _ c)]
    cases hkind : c.kind with
    | script base sub sup =>
      cases base with
      | none => exact .inl fun _ => rfl
      | some base =>
        simp only [Kind.map, Option.map_some, Typeset.plainName?, plainText?_typeset]
        cases hname : base.plainText?.bind plainOperator? with
        | none => exact .inl fun _ => rfl
        | some name =>
          obtain ⟨text, -, hoperator⟩ := Option.bind_eq_some_iff.mp hname
          refine .inr ⟨c, base, sub, sup, text, name, rfl, hkind, hoperator, fun choice => ?_⟩
          rw [Option.map_some, Option.map_map, Option.map_map]
          rfl
    | _ => exact .inl fun _ => rfl

end Node

namespace Equation

variable {q : Equation} {limit : Nat} {root : Xml.Element} {entry : Entry} {permits : Piece → Prop}
  (hchar : ∀ c, c ≠ ']' → permits (.char c))

include hchar

theorem templated_functionName (hform : entry.node.form = .generic)
    (h : ∀ b ∈ entry.shown, Templated permits fun choice => (b.typeset choice).note) :
    Templated permits fun choice => Typeset.functionName (entry.typeset choice) := by
  have hplain (choice : ArrayEnvironment) :
      Typeset.plainName? (entry.typeset choice) = entry.node.plainText?.bind plainOperator? := by
    rw [Typeset.plainName?, Node.plainText?_typeset]
  unfold Typeset.functionName
  simp only [hplain]
  split
  · next name hname =>
    obtain ⟨text, -, hoperator⟩ := Option.bind_eq_some_iff.mp hname
    exact .fixed hchar (literal_closingBracket.not_mem_of_plainOperator? hoperator).2
  · obtain hnone | ⟨c, base, sub, sup, text, name, honly, hkind, hoperator, hname⟩ :=
      Node.scriptedName?_cases entry.enclosure entry.node
    · have hrendered := (h entry entry.self_mem_shown).renderedName hchar
      exact .congr (fun choice => by rw [hnone, Option.getD_none]) hrendered
    · have hc : c ∈ entry.node.shownParts :=
        Node.mem_shownParts_of_contentChildren hform (Node.mem_contentChildren_of_onlyContentChild? honly)
      have hpart {part : Option (Node Nat)} (hpart : ∀ d ∈ part.toList, d ∈ c.kind.shown) :
          Templated.Each permits (fun choice d => (d.typeset choice (entry.child c).inner).note) part.toList := by
        intro d hd
        have hd : d ∈ (entry.child c).node.shownParts := Node.mem_shownParts_of_shown (hpart d hd)
        exact h _ (Entry.mem_shown_of_part hc (Entry.mem_shown_of_part hd (Entry.self_mem_shown _)))
      have hsub := hpart fun d (hd : d ∈ sub.toList) => by simp_all [Kind.shown, Kind.parts]
      have hsup := hpart fun d (hd : d ∈ sup.toList) => by simp_all [Kind.shown, Kind.parts]
      have hplainName := Templated.fixed hchar (literal_closingBracket.not_mem_of_plainOperator? hoperator).2
      refine .congr (fun choice => ?_) (hplainName.append (Templated.scripts hchar hsub hsup))
      rw [hname, Option.getD_some]
      rfl

theorem templated_function {name : Option (Node Nat)} {arguments : List (Node Nat)}
    (hname : ∀ m, name = some m → m.form = .generic ∧
      ∀ b ∈ (entry.child m).shown, Templated permits fun choice => (b.typeset choice).note)
    (harguments : Templated.Each permits (fun choice c => (c.typeset choice entry.inner).note) arguments) :
    Templated permits fun choice => Typeset.function (name.map (Node.typeset choice entry.inner))
      (arguments.map (Node.typeset choice entry.inner)) := by
  cases name with
  | none =>
    simp only [Option.map_none, Typeset.function, List.map_map]
    exact .namelessFunction hchar harguments
  | some m =>
    obtain ⟨hform, hbelow⟩ := hname m rfl
    have hfunction := @templated_functionName (entry.child m) permits hchar hform hbelow
    exact .application hchar hfunction harguments

/-- Whether a base names a function is seen before it is set. -/
theorem templated_limit {upper : Bool} {base limit : Option (Node Nat)}
    (h : Templated.Each permits (fun choice c => (c.typeset choice entry.inner).note)
      (Kind.limit upper base limit).shown) :
    Templated permits fun choice =>
      Typeset.limit upper (((base.map (Node.typeset choice entry.inner)).bind Node.plainText?).bind functionCommand?)
        (base.map fun c => (c.typeset choice entry.inner).note)
        (limit.map fun c => (c.typeset choice entry.inner).note) := by
  have hplain (choice : ArrayEnvironment) :
      (base.map (Node.typeset choice entry.inner)).bind Node.plainText? = base.bind Node.plainText? := by
    cases base with
    | none => rfl
    | some b => exact Node.plainText?_typeset _ b
  have hfunction : ∀ latex ∈ (base.bind Node.plainText?).bind functionCommand?, ']' ∉ latex.toList := by
    intro latex hlatex
    obtain ⟨text, -, hcommand⟩ := Option.bind_eq_some_iff.mp hlatex
    exact (literal_closingBracket.not_mem_of_functionCommand? hcommand).2
  simp only [hplain]
  exact .limit hchar hfunction h

theorem templated_matrix {fence : Option Fence} {rows : List (Node Nat)}
    (h : ∀ r ∈ rows, ∀ c ∈ r.shownCells,
      Templated permits fun choice => (((entry.child r).child c).typeset choice).note) :
    Templated permits fun choice =>
      Typeset.matrix fence (Node.cellsOf (rows.map (Node.typeset choice entry.inner))) := by
  have hcells : Templated.Each permits (fun choice (b : Entry) => (b.typeset choice).note)
      (rows.map fun r => r.shownCells.map (entry.child r).child).flatten := by
    intro b hb
    obtain ⟨cells, hcells, hb⟩ := List.mem_flatten.mp hb
    obtain ⟨r, hr, rfl⟩ := List.mem_map.mp hcells
    obtain ⟨c, hc, rfl⟩ := List.mem_map.mp hb
    exact h r hr c hc
  have hset (choice : ArrayEnvironment) : Node.cellsOf (rows.map (Node.typeset choice entry.inner)) =
      (rows.map fun r => r.shownCells.map (entry.child r).child).map fun cells =>
        cells.map fun b => (b.typeset choice).note := by
    rw [Node.cellsOf_map_typeset, List.map_map]
    refine List.map_congr_left fun r _ => ?_
    rw [Function.comp_apply, List.map_map]
    rfl
  simp only [hset]
  exact .matrix hchar hcells

omit hchar in
/-- What a delimiter wraps is a part of it, or is shown in one. -/
theorem exists_part_of_wrapped? {fence : Fence} {segments : List (List (Node Nat))} {b : Entry}
    (hq : ofElement limit root = .ok q) (hentry : entry ∈ q.outline)
    (hkind : entry.node.kind = .delimiter fence segments) (hb : entry.wrapped? = some b) :
    ∃ c ∈ entry.node.shownParts, b ∈ (entry.child c).shown := by
  obtain ⟨c, hc, hb⟩ := Option.bind_eq_some_iff.mp hb
  have hpart : c ∈ entry.node.shownParts := by
    unfold Node.soleContent? at hc
    split at hc
    · next d hsegments =>
      cases hc
      refine Node.mem_shownParts_of_shown ?_
      simp [hkind, Kind.shown, Kind.parts, ← Node.segments_of_kind hkind, hsegments]
    · cases hc
  refine ⟨c, hpart, ?_⟩
  split at hb
  · next he =>
    obtain ⟨d, hd, rfl⟩ := Option.map_eq_some_iff.mp hb
    have hmem := child_mem_outline hentry (Node.mem_children_of_shownParts hpart)
    have hform : c.form = .generic := Node.form_of_container (exists_head_of_mem_outline hq hmem) (by decide) he
    have hd : d ∈ (entry.child c).node.shownParts :=
      Node.mem_shownParts_of_contentChildren hform (Node.mem_contentChildren_of_onlyContentChild? hd)
    exact Entry.mem_shown_of_part hd (Entry.self_mem_shown _)
  · cases hb
    exact Entry.self_mem_shown _

/-! ### Trees -/

/-- A node is made of the pieces of what is shown in its parts, and of those that it writes by itself. -/
theorem templated_of_parts (hq : ofElement limit root = .ok q) (hentry : entry ∈ q.outline)
    (hown : entry.Writes permits) (hbelow : ∀ c ∈ entry.node.shownParts, ∀ b ∈ (entry.child c).shown,
      Templated permits fun choice => (b.typeset choice).note) :
    Templated permits fun choice => (entry.typeset choice).note := by
  have hparts : Templated.Each permits (fun choice c => (c.typeset choice entry.inner).note) entry.node.shownParts :=
    fun c hc => hbelow c hc (entry.child c) (Entry.self_mem_shown _)
  have hshown : Templated.Each permits (fun choice c => (c.typeset choice entry.inner).note) entry.node.kind.shown :=
    fun c hc => hparts c (Node.mem_shownParts_of_shown hc)
  have htexts : ∀ text ∈ entry.node.form.texts, ']' ∈ text.toList → permits (.char ']') := fun _ => hown.texts
  rw [Node.texts_form] at htexts
  choose m hhead hchildren hnote using fun choice =>
    Node.exists_latexOf_typeset choice entry.enclosure entry.node
  have hkind (choice : ArrayEnvironment) := Node.kind_of_children (hchildren choice) (hhead choice)
  refine .congr hnote ?_
  simp only [Node.latexOf, hkind]
  cases hk : entry.node.kind <;> rw [hk] at hshown htexts <;> simp only [Kind.map, Option.map_map, List.map_map]
  case generic =>
    simp only [Node.contentChildren_of_children (hchildren _), List.map_map]
    refine .joinFragments hchar fun c hc => hparts c ?_
    exact Node.mem_shownParts_of_contentChildren (Node.form_of_kind_generic hk) hc
  case run r =>
    refine .written hchar fun hmem => ?_
    exact htexts r.source (List.mem_singleton_self _) ((Typeset.mem_toList_run literal_closingBracket r).mp hmem)
  case fraction => exact .fraction hchar hshown
  case radical hideDegree base degree =>
    refine .radical hchar hshown fun hhide hbase hdegree => hown.bracket (Bool.or_eq_true_iff.mpr (.inr ?_))
    obtain ⟨b, rfl⟩ := Option.isSome_iff_exists.mp hbase
    obtain ⟨d, rfl⟩ := Option.isSome_iff_exists.mp hdegree
    rw [hk, hhide]
  case script => exact .script hchar hshown
  case preScript => exact .preScript hchar hshown
  case delimiter fence segments =>
    simp only [Entry.absorbedContent?_of_children (hchildren _), Function.comp_def, List.map_map]
    cases habsorbed : entry.wrapped?.filter fun b => b.node.absorbs fence with
    | none => exact .delimiter hchar htexts hshown
    | some b =>
      obtain ⟨c, hc, hb⟩ := exists_part_of_wrapped? hq hentry hk (Option.filter_eq_some_iff.mp habsorbed).1
      exact hbelow c hc b hb
  case function name arguments =>
    refine templated_function hchar (fun m hm => ?_) fun c hc => hshown c (List.mem_append_right _ hc)
    rw [hm] at hk
    have hpart : m ∈ entry.node.shownParts := Node.mem_shownParts_of_shown (by simp [hk, Kind.shown, Kind.parts])
    have hhead := exists_head_of_mem_outline hq (child_mem_outline hentry (Node.mem_children_of_shownParts hpart))
    exact ⟨Node.form_of_container hhead (by decide) (Node.isTag_of_kind_function hk), hbelow m hpart⟩
  case nary => exact .nary hchar htexts hshown
  case matrix rows =>
    refine templated_matrix hchar fun r hr c hc => ?_
    have hrow : r ∈ entry.node.shownParts := Node.mem_shownParts_of_shown (by rwa [hk])
    have hcell : c ∈ (entry.child r).node.shownParts := Node.mem_shownParts_of_shownCells hc
    exact hbelow r hrow _ (Entry.mem_shown_of_part hcell (Entry.self_mem_shown _))
  case matrixRow => exact .row hchar hshown
  case limit => exact templated_limit hchar hshown
  case equationArray rows =>
    refine .equationArray hchar hshown fun hrows hcases => hown.mark ?_
    simp [Entry.isOpenArray, hk, hcases, hrows]
  case accent => exact .accent hchar hshown
  case bar => exact .bar hchar hshown
  case box => exact .box hchar hshown
  case groupCharacter => exact .groupCharacter hchar hshown
  case phantom => exact .phantom hchar hshown

/-- Every node that is shown writes pieces that are permitted, so the LaTeX of a node is made of nothing else. -/
theorem templated_typeset (hq : ofElement limit root = .ok q) (hentry : entry ∈ q.outline)
    (h : ∀ b ∈ entry.shown, b.Writes permits) : Templated permits fun choice => (entry.typeset choice).note := by
  -- what is wrapped, and the scripts in a name, are further below than a part, so the induction is on the size
  induction hn : entry.node.size using Nat.strongRecOn generalizing entry with | ind _ ih =>
  subst hn
  refine templated_of_parts hchar hq hentry (h entry entry.self_mem_shown) fun c hc b hb => ?_
  have hmem := Node.mem_children_of_shownParts hc
  have hsize := Nat.lt_of_le_of_lt (Entry.size_le_of_mem_shown hb) (Node.size_lt_of_mem_children hmem)
  refine ih _ hsize (mem_outline_of_mem_shown (child_mem_outline hentry hmem) hb) (fun d hd => ?_) rfl
  exact h d (Entry.mem_shown_of_part hc (Entry.shown_trans hb hd))

theorem templated_latex (hq : ofElement limit root = .ok q) (h : ∀ b ∈ q.shown, b.Writes permits) :
    Templated permits fun choice => joinFragments (q.numbered.map fun n => (n.typeset choice .none).note) := by
  refine .joinFragments hchar fun n hn => ?_
  have hentry : (⟨n, none, .none⟩ : Entry) ∈ q.outline := Node.mem_entriesAll_of_mem hn
  exact templated_typeset hchar hq hentry fun b hb => h b (List.mem_flatMap.mpr ⟨n, hn, hb⟩)

end Equation

end OfficeMath
