import OfficeMath.Proofs.Store.Sound

/-! How a delimiter and the array in it settle which of them writes the fence. The delimiter looks down for an array to
    leave the fence to, and the array looks up for a delimiter to take it from. In the store of an element both come
    to the same answer, so that a fence is neither written twice nor left to an array that does not write it. -/

namespace OfficeMath

open Node (note)

/-! ### Arrays -/

section Kind

variable {ρ σ : Type}

/-- A node of this kind writes the fence itself if it finds it around it. -/
def Kind.Brings (fence : Fence) : Kind ρ → Prop
  | .matrix _ => fence.matrixFence ≠ .none
  | .equationArray _ => fence.isCases = true
  | _ => False

/-- The environment that an array is set in inside the fence. -/
def Kind.environment? (choice : ArrayEnvironment) (fence : Option Fence) : Kind ρ → Option String
  | .matrix _ => some (fence.elim .none Fence.matrixFence).environment
  | .equationArray _ => some (Typeset.arrayEnvironment choice fence)
  | _ => none

/-- The node is a row of a matrix with a cell in it. -/
def Kind.isFilledRow : Kind ρ → Bool
  | .matrixRow cells => !cells.isEmpty
  | _ => false

/-- An array of this kind has a row that is written; a matrix leaves out rows without a cell. -/
def Kind.holdsRows (isFilledRow : ρ → Bool) : Kind ρ → Bool
  | .matrix rows => rows.any isFilledRow
  | .equationArray rows => !rows.isEmpty
  | _ => false

/-- The environments that come with a fence. -/
def fenceEnvironments : List String := ["pmatrix", "bmatrix", "Bmatrix", "vmatrix", "Vmatrix", "cases"]

theorem Kind.brings_map (fence : Fence) (f : ρ → σ) (k : Kind ρ) : (k.map f).Brings fence ↔ k.Brings fence := by
  cases k <;> rfl

theorem Kind.environment?_map (choice : ArrayEnvironment) (fence : Option Fence) (f : ρ → σ) (k : Kind ρ) :
    (k.map f).environment? choice fence = k.environment? choice fence := by
  cases k <;> rfl

theorem Kind.isFilledRow_map (f : ρ → σ) (k : Kind ρ) : (k.map f).isFilledRow = k.isFilledRow := by
  cases k <;> simp [Kind.map, isFilledRow]

theorem Kind.holdsRows_map (f : ρ → σ) (isFilledRow : σ → Bool) (k : Kind ρ) :
    (k.map f).holdsRows isFilledRow = k.holdsRows (isFilledRow ∘ f) := by
  cases k <;> simp [Kind.map, holdsRows, List.any_map]

/-- The environments that come with a fence are those of the arrays that bring the fence around them. -/
theorem Kind.mem_fenceEnvironments_iff {choice : ArrayEnvironment} {fence : Fence} {k : Kind ρ} {E : String}
    (hE : k.environment? choice (some fence) = some E) : E ∈ fenceEnvironments ↔ k.Brings fence := by
  cases k with
  | matrix rows =>
    cases hE
    rw [Brings, Option.elim_some]
    cases fence.matrixFence <;> decide
  | equationArray rows =>
    cases hE
    rw [Brings, Typeset.arrayEnvironment, Option.any_some]
    cases fence.isCases <;> cases choice <;> decide
  | _ => cases hE

theorem Node.brings_kind {α : Type} {fence : Fence} {n : Node α} : n.kind.Brings fence ↔ n.absorbs fence = true := by
  unfold kind absorbs
  cases n.form <;> simp [Kind.Brings]

theorem Node.isArray_of_absorbs {α : Type} {fence : Fence} {n : Node α} (h : n.absorbs fence = true) :
    n.isArray = true := by
  unfold absorbs at h
  unfold isArray
  cases hform : n.form <;> simp [hform] at h ⊢

theorem Node.isArray_of_environment? {α : Type} {choice : ArrayEnvironment} {fence : Option Fence} {n : Node α}
    {E : String} (h : n.kind.environment? choice fence = some E) : n.isArray = true := by
  unfold kind at h
  unfold isArray
  cases hform : n.form <;> simp [hform, Kind.environment?] at h ⊢

end Kind

/-! ### The LaTeX of arrays -/

section Arrays

variable {choice : ArrayEnvironment} {fence : Option Fence} {E : String} {m : Node String}

theorem any_cellsOf (rows : List (Node String)) :
    ((Node.cellsOf rows).any fun cells => !cells.isEmpty) = rows.any (·.kind.isFilledRow) := by
  rw [Node.cellsOf, List.any_map]
  refine congrArg rows.any (funext fun r => ?_)
  rw [Function.comp_apply]
  cases r.kind <;> simp [Kind.isFilledRow]

/-- An array with rows is set in its environment, and one without rows is left out. -/
theorem latexOf_of_environment? (hE : m.kind.environment? choice fence = some E) :
    if m.kind.holdsRows (·.kind.isFilledRow) then ∃ rows, rows ≠ [] ∧ m.latexOf choice fence = Latex.environment E rows
    else m.latexOf choice fence = "" := by
  unfold Node.latexOf
  cases hkind : m.kind with
  | matrix rows =>
    rw [hkind] at hE
    cases hE
    rw [Kind.holdsRows, ← any_cellsOf]
    dsimp only [Typeset.matrix]
    cases hrows : (Node.cellsOf rows).filter (!·.isEmpty) with
    | nil =>
      have hany : ¬ ((Node.cellsOf rows).any fun cells => !cells.isEmpty) = true := fun hany => by
        obtain ⟨cells, hcells, hfilled⟩ := List.any_eq_true.mp hany
        exact List.filter_eq_nil_iff.mp hrows cells hcells hfilled
      rw [if_neg hany]
    | cons cells kept =>
      have hmem : cells ∈ (Node.cellsOf rows).filter (!·.isEmpty) := hrows ▸ List.mem_cons_self
      obtain ⟨hcells, hfilled⟩ := List.mem_filter.mp hmem
      rw [if_pos (List.any_eq_true.mpr ⟨cells, hcells, hfilled⟩)]
      exact ⟨_, List.cons_ne_nil _ _, rfl⟩
  | equationArray rows =>
    rw [hkind] at hE
    cases hE
    dsimp only [Kind.holdsRows, Typeset.equationArray]
    cases rows with
    | nil => rfl
    | cons r rows => exact ⟨_, List.cons_ne_nil _ _, rfl⟩
  | _ =>
    rw [hkind] at hE
    cases hE

end Arrays

/-! ### The delimiter around an array -/

namespace Equation

variable {limit : Nat} {root : Xml.Element} {q : Equation} {entry around : Entry} {choice : ArrayEnvironment}

theorem eq_of_id_eq (hentry : entry ∈ q.outline) (haround : around ∈ q.outline) (hid : entry.id = around.id) :
    entry = around := by
  have hplace := outline_getElem?_id hentry
  rw [hid, outline_getElem?_id haround] at hplace
  exact (Option.some.inj hplace).symm

theorem eq_of_onlyContentChild? {n c c' : Node Nat} (honly : n.onlyContentChild? = some c') (hc : c ∈ n.children)
    (hcontent : c.isProperty = false) : c = c' := by
  have hmem : c ∈ n.contentChildren := List.mem_filter.mpr ⟨hc, by rw [hcontent]; rfl⟩
  unfold Node.onlyContentChild? at honly
  split at honly
  · next d hd =>
    cases honly
    rwa [hd, List.mem_singleton] at hmem
  · cases honly

theorem wrappedContent?_of_delimiter? (h : ofElement limit root = .ok q) (hentry : entry ∈ q.outline)
    (harray : entry.node.isArray = true) {d : Node Nat} (hfound : entry.enclosure.delimiter? = some d) :
    d.wrappedContent? = some entry.node := by
  have hhead := exists_head_of_mem_outline h hentry
  obtain ⟨hproperty, hmark⟩ := Node.isProperty_of_isArray hhead harray
  have hcontainer : entry.node.isTag "e" = false := by
    refine Bool.eq_false_iff.mpr fun he => ?_
    simp [Node.isArray, Node.form_of_container hhead (by decide) he] at harray
  rcases exists_above_of_mem_outline hentry with ⟨n, -, rfl⟩ | ⟨above, habove, c, hc, rfl⟩
  · cases hfound
  rcases Enclosure.delimiter?_inside_eq_some_iff.mp hfound with ⟨-, hsole, rfl⟩ | ⟨-, he, honly, hdirect⟩
  · -- the array is right in the delimiter
    obtain ⟨c', hsole⟩ := Option.isSome_iff_exists.mp hsole
    obtain rfl : c = c' := Node.eq_of_soleContent? hsole hc hproperty hmark
    rw [Node.wrappedContent?, hsole, Option.bind_some]
    exact if_neg (Bool.eq_false_iff.mp hcontainer)
  · -- the array is in an `e`, and the delimiter is one further up
    rcases exists_above_of_mem_outline habove with ⟨n, -, rfl⟩ | ⟨outer, houter, m, hm, rfl⟩
    · cases hdirect
    obtain ⟨-, hsole, rfl⟩ := Enclosure.inside_eq_direct_iff.mp hdirect
    obtain ⟨m', hsole⟩ := Option.isSome_iff_exists.mp hsole
    obtain rfl : m = m' := Node.eq_of_soleContent? hsole hm (Node.isProperty_of_isTag (by decide) he)
      (Node.isTag_eq_false_of_ne he (by decide))
    obtain ⟨c', honly⟩ := Option.isSome_iff_exists.mp honly
    obtain rfl : c = c' := eq_of_onlyContentChild? honly hc hproperty
    rw [Node.wrappedContent?, hsole, Option.bind_some]
    exact (if_pos he).trans honly

theorem delimiter?_of_wrappedContent? (h : ofElement limit root = .ok q) (hentry : entry ∈ q.outline)
    (haround : around ∈ q.outline) (hdelimiter : around.node.form.isDelimiter = true)
    (hwrapped : around.node.wrappedContent? = some entry.node) :
    entry.enclosure.delimiter? = some around.node := by
  obtain ⟨m, hsole, hwrapped⟩ := Option.bind_eq_some_iff.mp hwrapped
  have hinner : around.inner = .direct around.node :=
    Enclosure.inside_eq_direct_iff.mpr ⟨hdelimiter, Option.isSome_of_eq_some hsole, rfl⟩
  have hm := child_mem_outline haround (Node.mem_children_of_soleContent? hsole)
  cases he : m.isTag "e" with
  | true =>
    rw [if_pos he] at hwrapped
    have hplain := Node.form_of_container (exists_head_of_mem_outline h hm) (by decide) he
    have hc := child_mem_outline hm (Node.mem_children_of_onlyContentChild? hwrapped)
    rw [eq_of_id_eq hentry hc rfl]
    exact Enclosure.delimiter?_inside_eq_some_iff.mpr
      (.inr ⟨by rw [hplain]; rfl, he, Option.isSome_of_eq_some hwrapped, hinner⟩)
  | false =>
    rw [if_neg (Bool.eq_false_iff.mp he)] at hwrapped
    obtain rfl := Option.some.inj hwrapped
    rw [eq_of_id_eq hentry hm rfl]
    exact Enclosure.delimiter?_inside_eq_some_iff.mpr (.inl ⟨hdelimiter, Option.isSome_of_eq_some hsole, rfl⟩)

/-- An array is enclosed by a delimiter if and only if it is what the delimiter wraps. -/
theorem delimiter?_eq_some_iff (h : ofElement limit root = .ok q) (hentry : entry ∈ q.outline)
    (harray : entry.node.isArray = true) (haround : around ∈ q.outline)
    (hdelimiter : around.node.form.isDelimiter = true) :
    entry.enclosure.delimiter? = some around.node ↔ around.node.wrappedContent? = some entry.node :=
  ⟨wrappedContent?_of_delimiter? h hentry harray, delimiter?_of_wrappedContent? h hentry haround hdelimiter⟩

/-! ### The LaTeX of entries -/

/-- An array is set in the environment that it has in the fence around it, or it is left out. -/
theorem note_typeset_of_environment? {E : String}
    (hE : entry.node.kind.environment? choice entry.enclosure.fence? = some E) :
    if entry.node.kind.holdsRows (·.kind.isFilledRow) then
      ∃ rows, rows ≠ [] ∧ (entry.typeset choice).note = Latex.environment E rows
    else (entry.typeset choice).note = "" := by
  obtain ⟨m, hhead, hchildren, hnote⟩ := Node.exists_latexOf_typeset choice entry.enclosure entry.node
  have hkind := Node.kind_of_children hchildren hhead
  have hfilled : (fun r : Node String => r.kind.isFilledRow) ∘ Node.typeset choice entry.inner =
      fun r => r.kind.isFilledRow := by
    funext r
    rw [Function.comp_apply, Node.kind_of_children (Node.children_typeset entry.inner r)
      (Node.head_typeset entry.inner r), Kind.isFilledRow_map]
  rw [← Kind.environment?_map choice entry.enclosure.fence? (Node.typeset choice entry.inner), ← hkind] at hE
  have harray := latexOf_of_environment? hE
  rwa [hkind, Kind.holdsRows_map, hfilled, ← hnote] at harray

/-- A delimiter is set as the array is to which it leaves the fence, or else with its segments in the fence. -/
theorem note_typeset_of_delimiter (choice : ArrayEnvironment) (hentry : entry ∈ q.outline) {fence : Fence}
    (hform : entry.node.form = .delimiter fence) :
    (∃ b ∈ q.outline, entry.node.absorbedContent? fence = some b.node ∧
      (entry.typeset choice).note = (b.typeset choice).note) ∨
    entry.node.absorbedContent? fence = none ∧
      (entry.typeset choice).note = Typeset.fenced fence (Typeset.joinSegments
        (Typeset.segmentSeparator fence.separator)
        (entry.node.segments.map (List.map fun c => (c.typeset choice entry.inner).note))) := by
  obtain ⟨m, hhead, hchildren, hnote⟩ := Node.exists_latexOf_typeset choice entry.enclosure entry.node
  have hkind : entry.node.kind = .delimiter fence entry.node.segments := by rw [Node.kind, hform]
  rw [hnote, Node.latexOf, Node.kind_of_children hchildren hhead, hkind]
  dsimp only [Kind.map]
  rw [Node.absorbedContent?, Node.absorbedContent?]
  rcases exists_wrapped hentry hchildren with ⟨hnone, hnone'⟩ | ⟨b, hb, -, hwrapped, hwrapped'⟩
  · rw [hnone, hnone', List.map_map]
    exact .inr ⟨rfl, by simp [Typeset.delimiter, Function.comp_def]⟩
  · rw [hwrapped, hwrapped', Option.filter_some, Option.filter_some, Node.absorbs_eq (Node.head_typeset _ b.node)]
    cases b.node.absorbs fence with
    | true => exact .inl ⟨b, hb, rfl, rfl⟩
    | false => exact .inr ⟨rfl, by simp [Typeset.delimiter, Function.comp_def]⟩

end Equation

namespace Store

variable {limit d c : Nat} {root : Xml.Element} {s : Store} {q : Equation} {entry around : Entry} {fence : Fence}
  {segments : List (List Nat)} {choice : ArrayEnvironment} {delimiter content : Cell}

theorem exists_enclosingDelimiter (hentry : entry ∈ q.outline) :
    ∃ enclosing, q.store.enclosingDelimiter entry.id = .ok enclosing := by
  have haround {e : Entry} (he : e ∈ q.outline) (id : Nat) :
      ∃ found, q.store.delimiterAround e.node.note id = .ok found := by
    rw [delimiterAround, show q.store.cell e.node.note = .ok e.cell from Equation.holds_store q e he]
    dsimp only [bind, Except.bind]
    cases e.cell.kind <;> exact ⟨_, rfl⟩
  rw [enclosingDelimiter, Equation.holds_store q _ hentry]
  rcases Equation.exists_above_of_mem_outline hentry with ⟨n, -, rfl⟩ | ⟨above, habove, m, -, rfl⟩
  · exact ⟨none, rfl⟩
  have hparent : (above.child m).cell.parent = some above.node.note := rfl
  have hcell : q.store.cell above.node.note = .ok above.cell := Equation.holds_store q above habove
  simp only [bind, Except.bind, hparent, hcell]
  cases above.cell.isDelimiter with
  | true => exact haround habove _
  | false =>
    rw [if_neg Bool.false_ne_true, onlyContentChild_eq (Equation.lists_store habove)]
    dsimp only
    split
    · rcases Equation.exists_above_of_mem_outline habove with ⟨n, -, rfl⟩ | ⟨outer, houter, m', -, rfl⟩
      · exact ⟨none, rfl⟩
      · exact haround houter _
    · exact ⟨none, rfl⟩

theorem absorbedContent_eq_map (hentry : entry ∈ q.outline) (fence : Fence) :
    q.store.absorbedContent fence (entry.node.segments.map (List.map note)) =
      .ok ((entry.node.absorbedContent? fence).map note) := by
  have hchildren : (entry.typeset .aligned).children = _ := Node.children_typeset entry.enclosure entry.node
  rw [Node.absorbedContent?]
  rcases Equation.exists_wrapped hentry hchildren with ⟨hnone, -⟩ | ⟨b, hb, -, hwrapped, -⟩
  · rw [absorbedContent, wrappedContent_eq hentry, hnone]
    rfl
  · rw [absorbedContent_eq hentry hb hwrapped, hwrapped, Option.filter_some]
    split <;> rfl

theorem form_of_delimiter (hkind : entry.cell.kind = .delimiter fence segments) :
    entry.node.form = .delimiter fence ∧ segments = entry.node.segments.map (List.map note) := by
  have hkind : entry.node.kind.map note = .delimiter fence segments := hkind
  unfold Node.kind at hkind
  cases hform : entry.node.form <;> rw [hform] at hkind <;> cases hkind
  exact ⟨rfl, rfl⟩

/-- A delimiter leaves its fence to a node if and only if the node is what it wraps and brings the fence. -/
theorem note_absorbedContent?_eq_some_iff (haround : around ∈ q.outline) (hentry : entry ∈ q.outline) :
    (around.node.absorbedContent? fence).map note = some entry.id ↔
      around.node.wrappedContent? = some entry.node ∧ entry.node.absorbs fence = true := by
  have hchildren : (around.typeset .aligned).children = _ := Node.children_typeset around.enclosure around.node
  rw [Node.absorbedContent?]
  constructor
  · intro hnote
    obtain ⟨n, hn, hid⟩ := Option.map_eq_some_iff.mp hnote
    obtain ⟨hwrapped, habsorbs⟩ := Option.filter_eq_some_iff.mp hn
    rcases Equation.exists_wrapped haround hchildren with ⟨hnone, -⟩ | ⟨b, hb, -, hb', -⟩
    · rw [hnone] at hwrapped
      cases hwrapped
    · obtain rfl := Option.some.inj (hb'.symm.trans hwrapped)
      obtain rfl := Equation.eq_of_id_eq hb hentry hid
      exact ⟨hwrapped, habsorbs⟩
  · rintro ⟨hwrapped, habsorbs⟩
    rw [hwrapped, Option.filter_some, if_pos habsorbs]
    rfl

theorem enclosingDelimiter_eq_some_iff (h : Equation.ofElement limit root = .ok q) (hentry : entry ∈ q.outline)
    (harray : entry.node.isArray = true) (haround : around ∈ q.outline) :
    q.store.enclosingDelimiter entry.id = .ok (some around.id) ↔
      entry.enclosure.delimiter? = some around.node := by
  rw [enclosingDelimiter_eq h hentry harray]
  constructor
  · intro hfound
    obtain ⟨d, hd, hid⟩ := Option.map_eq_some_iff.mp (Except.ok.inj hfound)
    obtain ⟨outer, houter, rfl⟩ := exists_entry_of_enclosure hentry hd
    obtain rfl := Equation.eq_of_id_eq houter haround hid
    exact hd
  · intro hfound
    rw [hfound]
    rfl

/-! ### Who writes the fence -/

/-- The node with the number is a row of a matrix with a cell in it. -/
def isFilledRow (s : Store) (id : Nat) : Bool := s.cells[id]?.any (·.kind.isFilledRow)

theorem holdsRows_cell (hentry : entry ∈ q.outline) :
    entry.cell.kind.holdsRows q.store.isFilledRow = entry.node.kind.holdsRows (·.kind.isFilledRow) := by
  have hkind : entry.cell.kind = entry.node.kind.map note := rfl
  rw [hkind]
  cases hnode : entry.node.kind with
  | matrix rows =>
    refine any_map_note fun r hr => ?_
    have hr : r ∈ entry.node.children := Node.mem_children_of_parts (by rw [hnode]; exact hr)
    rw [isFilledRow, cell_eq_ok_iff.mp (Equation.cell_child hentry hr), Option.any_some]
    exact Kind.isFilledRow_map note r.kind
  | equationArray rows =>
    rw [Kind.map, Kind.holdsRows, Kind.holdsRows, List.isEmpty_map]
  | _ => rfl

/-- A delimiter `d` and a node `c` settle who writes the fence of the delimiter, by the node to which the delimiter
    leaves it and the delimiter from which the node takes it. -/
structure Settles (s : Store) (choice : ArrayEnvironment) (d c : Nat) (fence : Fence) (kind : Kind Nat)
    (absorbed enclosing : Option Nat) : Prop where
  absorbed_iff : absorbed = some c ↔ enclosing = some d ∧ kind.Brings fence
  /-- In the fence of the delimiter an array has an environment with a fence only if the fence is left to it. -/
  mem_fenceEnvironments_iff : enclosing = some d → ∀ E, kind.environment? choice (some fence) = some E →
    (E ∈ fenceEnvironments ↔ absorbed = some c)
  /-- An array is left out if it has no row that is written, and otherwise it is set in its environment. -/
  latex_of_array : enclosing = some d → ∀ E, kind.environment? choice (some fence) = some E →
    ∃ latex, s.nodeLatex choice c = .ok latex ∧
      if kind.holdsRows s.isFilledRow then ∃ rows, rows ≠ [] ∧ latex = Latex.environment E rows else latex = ""
  latex_of_absorbed : absorbed = some c → s.nodeLatex choice d = s.nodeLatex choice c
  latex_of_not_absorbed : absorbed = none → ∃ inner, s.nodeLatex choice d = .ok (Typeset.fenced fence inner)

theorem absorbed_iff_enclosing (hq : Equation.ofElement limit root = .ok q) (haround : around ∈ q.outline)
    (hform : around.node.form = .delimiter fence) (hentry : entry ∈ q.outline) :
    (around.node.absorbedContent? fence).map note = some entry.id ↔
      q.store.enclosingDelimiter entry.id = .ok (some around.id) ∧ entry.node.kind.Brings fence := by
  have hdelimiter : around.node.form.isDelimiter = true := by rw [hform]; rfl
  rw [note_absorbedContent?_eq_some_iff haround hentry, Node.brings_kind]
  refine and_congr_left fun habsorbs => ?_
  have harray := Node.isArray_of_absorbs habsorbs
  rw [enclosingDelimiter_eq_some_iff hq hentry harray haround,
    Equation.delimiter?_eq_some_iff hq hentry harray haround hdelimiter]

theorem nodeLatex_eq_note (hq : Equation.ofElement limit root = .ok q) (choice : ArrayEnvironment)
    (hentry : entry ∈ q.outline) : q.store.nodeLatex choice entry.id = .ok (entry.typeset choice).note := by
  rw [show choice = ({ equationArray := choice } : Options).equationArray from rfl, nodeLatex_eq hq,
    Equation.nodeLatex_id _ hentry]

/-- An array in the delimiter that it finds is set in the environment that it has in the fence, or it is left out. -/
theorem nodeLatex_of_enclosing (hq : Equation.ofElement limit root = .ok q) (haround : around ∈ q.outline)
    (hform : around.node.form = .delimiter fence) (hentry : entry ∈ q.outline)
    (henclosing : q.store.enclosingDelimiter entry.id = .ok (some around.id)) {E : String}
    (hE : entry.node.kind.environment? choice (some fence) = some E) :
    ∃ latex, q.store.nodeLatex choice entry.id = .ok latex ∧
      if entry.cell.kind.holdsRows q.store.isFilledRow then ∃ rows, rows ≠ [] ∧ latex = Latex.environment E rows
      else latex = "" := by
  refine ⟨_, nodeLatex_eq_note hq choice hentry, ?_⟩
  have hfound := (enclosingDelimiter_eq_some_iff hq hentry (Node.isArray_of_environment? hE) haround).mp henclosing
  have hfence : entry.enclosure.fence? = some fence := by rw [Enclosure.fence?, hfound, Option.bind_some, hform]
  rw [← hfence] at hE
  rw [holdsRows_cell hentry]
  exact Equation.note_typeset_of_environment? hE

theorem settles_of_entries (hq : Equation.ofElement limit root = .ok q) (haround : around ∈ q.outline)
    (hform : around.node.form = .delimiter fence) (hentry : entry ∈ q.outline) {enclosing : Option Nat}
    (henclosing : q.store.enclosingDelimiter entry.id = .ok enclosing) (choice : ArrayEnvironment) :
    q.store.Settles choice around.id entry.id fence entry.cell.kind ((around.node.absorbedContent? fence).map note)
      enclosing := by
  have hkind : entry.cell.kind = entry.node.kind.map note := rfl
  have habsorbed := absorbed_iff_enclosing hq haround hform hentry
  rw [henclosing, Except.ok.injEq, ← Kind.brings_map fence note, ← hkind] at habsorbed
  refine ⟨habsorbed, ?_, ?_, ?_, ?_⟩
  · intro hfound E hE
    rw [Kind.mem_fenceEnvironments_iff hE, habsorbed, and_iff_right hfound]
  · rintro rfl E hE
    rw [hkind, Kind.environment?_map] at hE
    exact nodeLatex_of_enclosing hq haround hform hentry henclosing hE
  · intro hsome
    rw [nodeLatex_eq_note hq choice haround, nodeLatex_eq_note hq choice hentry]
    rcases Equation.note_typeset_of_delimiter choice haround hform with ⟨b, hb, hcontent, hnote⟩ | ⟨hnone, -⟩
    · rw [hcontent] at hsome
      obtain rfl := Equation.eq_of_id_eq hb hentry (Option.some.inj hsome)
      rw [hnote]
    · rw [hnone] at hsome
      cases hsome
  · intro hnone
    rw [nodeLatex_eq_note hq choice haround]
    rcases Equation.note_typeset_of_delimiter choice haround hform with ⟨b, -, hcontent, -⟩ | ⟨-, hnote⟩
    · rw [hcontent] at hnone
      cases hnone
    · exact ⟨_, congrArg Except.ok hnote⟩

/-- In the store of an element a delimiter finds an array to leave its fence to exactly when this array finds the
    delimiter around it and brings the fence. -/
theorem settles_of_ofElement (h : ofElement limit root = .ok s) (hd : s.cell d = .ok delimiter)
    (hfence : delimiter.kind = .delimiter fence segments) (hc : s.cell c = .ok content) (choice : ArrayEnvironment) :
    ∃ absorbed enclosing, s.absorbedContent fence segments = .ok absorbed ∧
      s.enclosingDelimiter c = .ok enclosing ∧ s.Settles choice d c fence content.kind absorbed enclosing := by
  obtain ⟨q, hq, -, rfl⟩ := ofElement_eq_ok_iff.mp h
  obtain ⟨around, haround, rfl, rfl⟩ := exists_entry_of_cell hd
  obtain ⟨entry, hentry, rfl, rfl⟩ := exists_entry_of_cell hc
  obtain ⟨hform, rfl⟩ := form_of_delimiter hfence
  obtain ⟨enclosing, henclosing⟩ := exists_enclosingDelimiter hentry
  exact ⟨_, enclosing, absorbedContent_eq_map haround fence, henclosing,
    settles_of_entries hq haround hform hentry henclosing choice⟩

/-- A matrix of one empty cell, in an `e` in a delimiter without properties, writes the parentheses. -/
theorem settles_of_ofElement_of_matrix :
    let part (tag : String) (content : List Xml.Content) : Xml.Content := .element (.mk (.math tag) [] content)
    let root : Xml.Element := .mk (.math "d") [] [part "e" [part "m" [part "mr" [part "e" []]]]]
    let fence : Fence := ⟨"(", none, none, false⟩
    ∃ s delimiter content, ofElement 6 root = .ok s ∧ s.cell 0 = .ok delimiter ∧
      delimiter.kind = .delimiter fence [[1]] ∧ s.cell 2 = .ok content ∧ content.kind = .matrix [3] ∧
      s.Settles .aligned 0 2 fence content.kind (some 2) (some 0) := by
  intro part root fence
  have hbuilt : ∃ s delimiter content, ofElement 6 root = .ok s ∧ s.cell 0 = .ok delimiter ∧
      delimiter.kind = .delimiter fence [[1]] ∧ s.cell 2 = .ok content ∧ content.kind = .matrix [3] ∧
      s.absorbedContent fence [[1]] = .ok (some 2) ∧ s.enclosingDelimiter 2 = .ok (some 0) := by
    dsimp only [root, part, fence]
    exact ⟨_, ⟨"d", true, none, [1], .delimiter ⟨"(", none, none, false⟩ [[1]]⟩,
      ⟨"m", true, some 1, [3], .matrix [3]⟩, ofElement_eq_ok_iff.mpr ⟨_, rfl, by decide, rfl⟩, rfl, rfl, rfl, rfl,
      rfl, rfl⟩
  obtain ⟨s, delimiter, content, hs, hd, hfence, hc, hmatrix, habsorbed, henclosing⟩ := hbuilt
  obtain ⟨absorbed, enclosing, habsorbed', henclosing', hsettles⟩ := settles_of_ofElement hs hd hfence hc .aligned
  cases habsorbed.symm.trans habsorbed'
  cases henclosing.symm.trans henclosing'
  exact ⟨s, delimiter, content, hs, hd, hfence, hc, hmatrix, hsettles⟩

end Store

end OfficeMath
