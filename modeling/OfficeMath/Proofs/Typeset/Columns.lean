import OfficeMath.Proofs.Latex.Level
import OfficeMath.Proofs.Typeset.Enclosure
import OfficeMath.Proofs.Typeset.Lookup
import OfficeMath.Proofs.Typeset.Inherited

/-! The shape of a matrix. Whatever the cells of a matrix hold, they are nested and part no rows and cells at their own
    level, so in the environment of the matrix there are as many rows as the matrix has, and in each of them as many
    cells. What would part them in a cell is a row of a matrix that stands outside one, and the escape of a line feed. -/

namespace OfficeMath

open Latex

namespace Latex

/-! ### Rows and cells -/

/-- The lexemes of a text outside all groups and environments in it. -/
def ownLevel? (latex : String) : Option (List Lexeme) := (lexemes? latex.toList).bind (outer? 0)

/-- How many marks between cells stand in each row, where row breaks part the rows. -/
def cellMarks (ls : List Lexeme) : List Nat := (ls.splitOn (.escaped '\\')).map (List.count (.plain '&'))

variable {s t separator : String} {ks ls ls' : List Lexeme}

theorem outer?_flat (hflat : ∀ k ∈ ks, ∀ ls, k.next? 0 ls = some 0) (h : outer? 0 ls = some ls') :
    outer? 0 (ks ++ ls) = some (ks ++ ls') := by
  induction ks with
  | nil => exact h
  | cons k ks ih =>
    rw [List.forall_mem_cons] at hflat
    rw [List.cons_append, outer?_cons (hflat.1 _) (ih hflat.2), if_pos rfl, List.cons_append]

/-- A separator that does not change the level, and in which no control word runs on, stands at the level of the texts
    that it parts. -/
theorem ownLevel?_join (hseparator : lexemes? separator.toList = some ks)
    (hflat : ∀ k ∈ ks, ∀ ls, k.next? 0 ls = some 0) (hstart : ∀ ls, leadingLetters (ks ++ ls) = [])
    (hs : ownLevel? s = some ls) (ht : ownLevel? t = some ls') :
    ownLevel? (s ++ separator ++ t) = some (ls ++ ks ++ ls') := by
  obtain ⟨ms, hms, hs⟩ := Option.bind_eq_some_iff.mp hs
  obtain ⟨ms', hms', ht⟩ := Option.bind_eq_some_iff.mp ht
  have hlexemes : lexemes? (s ++ separator ++ t).toList = some (ms ++ (ks ++ ms')) := by
    rw [String.append_assoc, String.toList_append, String.toList_append]
    exact lexemes?_append hms (lexemes?_append hseparator hms')
  rw [ownLevel?, hlexemes, Option.bind_some, outer?_append hs (hstart ms') (outer?_flat hflat ht), List.append_assoc]

theorem cellMarks_of_unbroken (h : .escaped '\\' ∉ ls) : cellMarks ls = [ls.count (.plain '&')] := by
  rw [cellMarks, List.splitOn, List.splitOnP_eq_singleton]
  · rfl
  · rintro l hl
    rw [beq_eq_false_iff_ne]
    rintro rfl
    exact h hl

theorem cellMarks_cons {l : Lexeme} (hbreak : l ≠ .escaped '\\') (hcell : l ≠ .plain '&') (ls : List Lexeme) :
    cellMarks (l :: ls) = cellMarks ls := by
  rw [cellMarks, cellMarks, List.splitOn, List.splitOn, List.splitOnP_cons_eq_if_modifyHead,
    if_neg (by simpa using hbreak)]
  cases List.splitOnP (· == Lexeme.escaped '\\') ls with
  | nil => rfl
  | cons first rest => simp [List.count_cons_of_ne hcell]

theorem cellMarks_append_break (ls ls' : List Lexeme) :
    cellMarks (ls ++ .escaped '\\' :: ls') = cellMarks ls ++ cellMarks ls' := by
  rw [cellMarks, cellMarks, cellMarks, List.splitOn, List.splitOn, List.splitOn,
    List.splitOnP_append_cons ls ls' (by simp), List.map_append]

theorem exists_ownLevel?_row {cells : List String} (h : ∀ cell ∈ cells, Nested false cell) :
    ∃ ls, ownLevel? (row cells) = some ls ∧ .escaped '\\' ∉ ls ∧ ls.count (.plain '&') = cells.length - 1 := by
  induction cells with
  | nil => exact ⟨[], rfl, List.not_mem_nil, rfl⟩
  | cons cell cells ih =>
    rw [List.forall_mem_cons] at h
    obtain ⟨ms, ls, hms, hls, hunparted⟩ := h.1.exists_outer
    have hcell : ownLevel? cell = some ls := by rw [ownLevel?, hms, Option.bind_some, hls]
    obtain ⟨hmark, hbreak⟩ := hunparted rfl
    cases cells with
    | nil => exact ⟨ls, by simpa [row] using hcell, hbreak, List.count_eq_zero.mpr hmark⟩
    | cons cell' cells =>
      obtain ⟨ls', hls', hbreak', hcount⟩ := ih h.2
      have hjoin : ownLevel? (row (cell :: cell' :: cells)) =
          some (ls ++ [.plain ' ', .plain '&', .plain ' '] ++ ls') := by
        rw [row, String.intercalate_cons_cons]
        exact ownLevel?_join rfl (by simp [Lexeme.next?]) (fun _ => rfl) hcell hls'
      refine ⟨_, hjoin, by simp [hbreak, hbreak'], ?_⟩
      rw [List.count_append, List.count_append, List.count_eq_zero.mpr hmark, hcount]
      simp
      omega

/-- Rows are parted by one row break less than there are rows, and each keeps its cells. -/
theorem exists_ownLevel?_rows {rows : List (List String)} (hne : rows ≠ [])
    (h : ∀ r ∈ rows, ∀ cell ∈ r, Nested false cell) :
    ∃ ls, ownLevel? (rowSeparator.intercalate (rows.map row)) = some ls ∧
      ls.count (.escaped '\\') = rows.length - 1 ∧ cellMarks ls = rows.map (·.length - 1) := by
  induction rows with
  | nil => exact absurd rfl hne
  | cons r rows ih =>
    rw [List.forall_mem_cons] at h
    obtain ⟨ls, hls, hbreak, hcount⟩ := exists_ownLevel?_row h.1
    cases rows with
    | nil =>
      exact ⟨ls, by simpa using hls, List.count_eq_zero.mpr hbreak, by rw [cellMarks_of_unbroken hbreak, hcount]; rfl⟩
    | cons r' rows =>
      obtain ⟨ls', hls', hbreaks, hmarks⟩ := ih (List.cons_ne_nil _ _) h.2
      have hjoin : ownLevel? (rowSeparator.intercalate ((r :: r' :: rows).map row)) =
          some (ls ++ [.plain ' ', .escaped '\\', .plain '\n'] ++ ls') := by
        rw [List.map_cons, List.map_cons, String.intercalate_cons_cons]
        exact ownLevel?_join rfl (by simp [Lexeme.next?]) (fun _ => rfl) hls hls'
      refine ⟨_, hjoin, ?_, ?_⟩
      -- the row holds no break itself, so the one break that is new is that of the separator
      · rw [List.count_append, List.count_append, List.count_eq_zero.mpr hbreak, hbreaks]
        simp
        omega
      · have hsplit : ls ++ [.plain ' ', .escaped '\\', .plain '\n'] ++ ls' =
            (ls ++ [.plain ' ']) ++ .escaped '\\' :: .plain '\n' :: ls' := by simp
        have hrow : cellMarks (ls ++ [.plain ' ']) = [r.length - 1] := by
          rw [cellMarks_of_unbroken (by simpa using hbreak), List.count_append, hcount]
          rfl
        rw [hsplit, cellMarks_append_break, hrow, cellMarks_cons (by decide) (by decide), hmarks]
        rfl

end Latex

theorem Typeset.matrix_of_ne_nil {fence : Option Fence} {rows : List (List String)}
    (h : rows.filter (!·.isEmpty) ≠ []) :
    matrix fence rows =
      environment (fence.elim .none Fence.matrixFence).environment ((rows.filter (!·.isEmpty)).map row) := by
  unfold matrix
  split
  · next hnil => exact absurd hnil h
  · rfl

/-! ### What a construct writes by itself -/

namespace Form

theorem writes_nested (form : Form) : form.Writes (Nested true) where
  escapes _ _ _ := nested_lineBreak
  cells _ := nested_cellSeparator
  joins _ _ := (kept_nested true).joins_of_append Nested.append fun _ _ _ => nested_lineBreak

/-- Only a row of a matrix, and a text with a line feed in it, part rows and cells. -/
theorem writes_unparted {form : Form} (hrow : form ≠ .matrixRow) (htexts : ∀ text ∈ form.texts, '\n' ∉ text.toList) :
    form.Writes (Nested false) where
  escapes text htext hbreak := absurd hbreak (htexts text htext)
  cells h := absurd h hrow
  joins _ hform := (kept_nested false).joins_of_append Nested.append fun text htext hbreak =>
    absurd hbreak (htexts text (hform ▸ htext))

end Form

/-! ### What stands bare -/

namespace Node

variable {α : Type} {n m c d : Node α}

theorem writesBare_congr {β : Type} {m : Node β} {d : Node β} (h : m.head = n.head) (h' : d.head = c.head) :
    m.writesBare d = n.writesBare c := by
  unfold writesBare
  rw [form_eq h, isProperty_eq h']
  simp only [isTag_eq h']

theorem mem_exposed_of_contentChild (hform : n.form = .generic ∨ ∃ fence, n.form = .delimiter fence)
    (hc : c ∈ n.contentChildren) (hm : m ∈ c.exposed) : m ∈ n.exposed := by
  obtain ⟨hmem, hcontent⟩ := List.mem_filter.mp hc
  refine mem_exposed_of_child hmem ?_ hm
  unfold writesBare
  obtain hform | ⟨fence, hform⟩ := hform <;> rw [hform] <;> exact hcontent

/-- What stands bare in what a delimiter wraps stands bare in the delimiter, also through an `e`. -/
theorem mem_exposed_of_wrappedContent? {fence : Fence} (hform : n.form = .delimiter fence)
    (hcontainer : ∀ c ∈ n.children, c.isTag "e" = true → c.form = .generic) (h : n.wrappedContent? = some d)
    (hm : m ∈ d.exposed) : m ∈ n.exposed := by
  obtain ⟨c, hc, h⟩ := Option.bind_eq_some_iff.mp h
  refine mem_exposed_of_contentChild (.inr ⟨fence, hform⟩) (mem_contentChildren_of_soleContent? hc) ?_
  split at h
  · next he =>
    have hgeneric := hcontainer c (mem_children_of_soleContent? hc) he
    exact mem_exposed_of_contentChild (.inl hgeneric) (mem_contentChildren_of_onlyContentChild? h) hm
  · cases h
    exact hm

theorem form_eq_matrix_iff (hhead : ∃ e, n.head = Head.ofElement e) : n.form = .matrix ↔ n.isTag "m" = true := by
  obtain ⟨e, he⟩ := hhead
  rw [form, isTag, he, ← beq_iff_eq, Head.ofElement, Form.isMatrix_ofElement]
  rfl

theorem form_eq_matrixRow_iff (hhead : ∃ e, n.head = Head.ofElement e) :
    n.form = .matrixRow ↔ n.isTag "mr" = true := by
  obtain ⟨e, he⟩ := hhead
  rw [form, isTag, he, ← beq_iff_eq, Head.ofElement, Form.isMatrixRow_ofElement]
  rfl

/-- The rows of a matrix that have a cell. -/
def filledRows (n : Node α) : List (Node α) :=
  (n.childrenTagged "mr").filter fun r => !(r.childrenTagged "e").isEmpty

/-- In what stands bare in the node there is no row of a matrix, and no line feed in what a construct writes of the
    texts from outside. -/
def IsUnbroken (n : Node α) : Prop :=
  ∀ m ∈ n.exposed, m.isTag "mr" = false ∧ ∀ text ∈ m.form.texts, '\n' ∉ text.toList

instance : DecidablePred (@IsUnbroken α) := fun n =>
  inferInstanceAs (Decidable (∀ m ∈ n.exposed, m.isTag "mr" = false ∧ ∀ text ∈ m.form.texts, '\n' ∉ text.toList))

end Node

/-- The LaTeX of the cells of a row of the matrix that the entry stands for. -/
def Entry.cellTexts (choice : ArrayEnvironment) (entry : Entry) (r : Node Nat) : List String :=
  (r.childrenTagged "e").map fun c => (((entry.child r).child c).typeset choice).note

namespace Equation

variable {q : Equation} {limit : Nat} {root : Xml.Element} {entry : Entry}

/-- A node in which nothing bare parts rows and cells has LaTeX that parts none at its own level. -/
theorem nested_typeset (hq : ofElement limit root = .ok q) (choice : ArrayEnvironment) (hentry : entry ∈ q.outline)
    (h : ∀ m ∈ entry.node.exposed, m.form.Writes (Nested false)) : Nested false (entry.typeset choice).note := by
  -- what a delimiter wraps is further below than a child, so the induction is on the size of the tree
  induction hn : entry.node.size using Nat.strongRecOn generalizing entry with | ind _ ih =>
  subst hn
  obtain ⟨m, hhead, hchildren, hnote⟩ := Node.exists_latexOf_typeset choice entry.enclosure entry.node
  have hform : m.form = entry.node.form := Node.form_eq hhead
  have hall : Node.NotesHave (Nested true) m.children := by
    rw [hchildren, ← Node.typesetAll_eq_map]
    exact (kept_nested true).typesetAll nested_cellSeparator (encloses_nested true) choice _ _
      fun n _ => n.form.writes_nested
  rw [hnote]
  refine (kept_nested false).latexOf (kept_nested true) nested_cellSeparator (encloses_nested false) choice _ hall
    ?bare ?absorbed (hform ▸ h _ entry.node.self_mem_exposed)
  case bare =>
    intro d hd hbare
    rw [hchildren] at hd
    obtain ⟨c, hc, rfl⟩ := List.mem_map.mp hd
    rw [Node.writesBare_congr hhead (Node.head_typeset _ c)] at hbare
    exact ih _ (Node.size_lt_of_mem_children hc) (child_mem_outline hentry hc)
      (fun m hm => h m (Node.mem_exposed_of_child hc hbare hm)) rfl
  case absorbed =>
    intro fence hfence latex hlatex
    obtain ⟨c, habsorbed, rfl⟩ := Option.map_eq_some_iff.mp hlatex
    have hwrapped := (Option.filter_eq_some_iff.mp habsorbed).1
    rcases exists_wrapped hentry hchildren with ⟨-, hnone⟩ | ⟨b, hb, hsize, hinner, hset⟩
    · rw [hnone] at hwrapped
      cases hwrapped
    · obtain rfl : b.typeset choice = c := Option.some.inj (hset.symm.trans hwrapped)
      have hcontainer : ∀ c ∈ entry.node.children, c.isTag "e" = true → c.form = .generic := fun c hc he =>
        Node.form_of_container (exists_head_of_mem_outline hq (child_mem_outline hentry hc)) (by decide) he
      exact ih _ hsize hb (fun m hm =>
        h m (Node.mem_exposed_of_wrappedContent? (hform.symm.trans hfence) hcontainer hinner hm)) rfl

theorem exists_entry_of_mem_exposed {m : Node Nat} (hentry : entry ∈ q.outline) (hm : m ∈ entry.node.exposed) :
    ∃ b ∈ q.outline, b.node = m := by
  induction hn : entry.node.size using Nat.strongRecOn generalizing entry with | ind _ ih =>
  subst hn
  rcases Node.mem_exposed_iff.mp hm with rfl | ⟨c, hc, -, hm⟩
  · exact ⟨entry, hentry, rfl⟩
  · exact ih _ (Node.size_lt_of_mem_children hc) (child_mem_outline hentry hc) hm rfl

theorem nested_of_isUnbroken (hq : ofElement limit root = .ok q) (choice : ArrayEnvironment)
    (hentry : entry ∈ q.outline) (h : entry.node.IsUnbroken) : Nested false (entry.typeset choice).note := by
  refine nested_typeset hq choice hentry fun m hm => ?_
  obtain ⟨b, hb, rfl⟩ := exists_entry_of_mem_exposed hentry hm
  obtain ⟨hrow, htexts⟩ := h b.node hm
  refine Form.writes_unparted (fun hform => ?_) htexts
  rw [(Node.form_eq_matrixRow_iff (exists_head_of_mem_outline hq hb)).mp hform] at hrow
  cases hrow

/-- The rows that are written of a matrix are those that have a cell. -/
theorem filter_cellsOf_typeset (hq : ofElement limit root = .ok q) {choice : ArrayEnvironment} {m : Node String}
    (hentry : entry ∈ q.outline)
    (hchildren : m.children = entry.node.children.map (Node.typeset choice entry.inner)) :
    (Node.cellsOf (m.childrenTagged "mr")).filter (!·.isEmpty) = entry.node.filledRows.map (entry.cellTexts choice) := by
  have hcells : Node.cellsOf (m.childrenTagged "mr") =
      (entry.node.childrenTagged "mr").map (entry.cellTexts choice) := by
    rw [Node.cellsOf, Node.childrenTagged_of_children hchildren, List.map_map]
    refine List.map_congr_left fun r hr => ?_
    obtain ⟨hmem, htag⟩ := List.mem_filter.mp hr
    have hrow : r.form = .matrixRow :=
      (Node.form_eq_matrixRow_iff (exists_head_of_mem_outline hq (child_mem_outline hentry hmem))).mpr htag
    have hkind : (r.typeset choice entry.inner).kind =
        .matrixRow ((r.childrenTagged "e").map (Node.typeset choice (entry.child r).inner)) := by
      rw [Node.kind_of_children (Node.children_typeset _ r) (Node.head_typeset _ r), Node.kind, hrow]
      rfl
    rw [Function.comp_apply, hkind, Entry.cellTexts]
    exact List.map_map
  rw [hcells, List.filter_map, Node.filledRows]
  simp only [Function.comp_def, Entry.cellTexts, List.isEmpty_map]

/-- In the environment of a matrix as many rows are parted as it has with cells in them, and in each of them as many
    cells as there are, unless there is a row or a line feed in what stands bare in a cell. -/
theorem exists_cellMarks_nodeLatex (hq : ofElement limit root = .ok q) (options : Options) (hentry : entry ∈ q.outline)
    (hmatrix : entry.node.isTag "m" = true) (hrows : entry.node.filledRows ≠ [])
    (hcells : ∀ r ∈ entry.node.filledRows, ∀ c ∈ r.childrenTagged "e", c.IsUnbroken) :
    ∃ (fence : MatrixFence) (body : String) (ls : List Lexeme),
      q.nodeLatex options entry.id =
        command "\\begin" fence.environment ++ "\n" ++ body ++ "\n" ++ command "\\end" fence.environment ∧
      ownLevel? body = some ls ∧ ls.count (.escaped '\\') = entry.node.filledRows.length - 1 ∧
      cellMarks ls = entry.node.filledRows.map fun r => (r.childrenTagged "e").length - 1 := by
  obtain ⟨m, hhead, hchildren, hnote⟩ := Node.exists_latexOf_typeset options.equationArray entry.enclosure entry.node
  have hform : m.form = .matrix :=
    (Node.form_eq hhead).trans ((Node.form_eq_matrix_iff (exists_head_of_mem_outline hq hentry)).mpr hmatrix)
  have hwritten := filter_cellsOf_typeset hq hentry hchildren
  have hne : entry.node.filledRows.map (entry.cellTexts options.equationArray) ≠ [] := by simpa using hrows
  have hnested : ∀ texts ∈ entry.node.filledRows.map (entry.cellTexts options.equationArray), ∀ text ∈ texts,
      Nested false text := by
    intro texts htexts text htext
    obtain ⟨r, hr, rfl⟩ := List.mem_map.mp htexts
    obtain ⟨c, hc, rfl⟩ := List.mem_map.mp htext
    have hrow := child_mem_outline hentry (Node.mem_children_of_childrenTagged (List.mem_filter.mp hr).1)
    have hcell := child_mem_outline hrow (Node.mem_children_of_childrenTagged hc)
    exact nested_of_isUnbroken hq options.equationArray hcell (hcells r hr c hc)
  obtain ⟨ls, hls, hbreaks, hmarks⟩ := exists_ownLevel?_rows hne hnested
  refine ⟨entry.enclosure.fence?.elim .none Fence.matrixFence, _, ls, ?_, hls, ?_, ?_⟩
  -- an array looks for a fence around it, which only changes the name of the environment
  · rw [nodeLatex_id options hentry, hnote, Node.latexOf, Node.kind, hform]
    show Typeset.matrix entry.enclosure.fence? (Node.cellsOf (m.childrenTagged "mr")) = _
    rw [Typeset.matrix_of_ne_nil (hwritten ▸ hne), hwritten, Latex.environment]
  · rw [hbreaks, List.length_map]
  · rw [hmarks, List.map_map]
    exact List.map_congr_left fun r _ => by rw [Function.comp_apply, Entry.cellTexts, List.length_map]

/-- In a matrix of two rows with two cells each, and one row without cells, an ampersand and the rows of a matrix in a
    cell part nothing. -/
theorem exists_cellMarks_nodeLatex_of_two_rows :
    let part (tag : String) (content : List Xml.Content) : Xml.Content := .element (.mk (.math tag) [] content)
    let run (text : String) : Xml.Content := part "r" [part "t" [.text text]]
    let matrix : Xml.Content := part "m" [part "mr" [part "e" [run "x"]], part "mr" [part "e" [run "y"]]]
    let first : Xml.Content := part "mr" [part "e" [run "a&b"], part "e" [matrix]]
    let second : Xml.Content := part "mr" [part "e" [], part "e" [run "c"]]
    let root : Xml.Element := .mk (.math "m") [] [first, part "mr" [], second]
    ∃ q fence body ls, ofElement 9 root = .ok q ∧
      q.nodeLatex {} 0 =
        command "\\begin" (MatrixFence.environment fence) ++ "\n" ++ body ++ "\n" ++
          command "\\end" fence.environment ∧
      ownLevel? body = some ls ∧ ls.count (.escaped '\\') = 1 ∧ cellMarks ls = [1, 1] := by
  intro part run matrix first second root
  have hread : ∃ q entry, ofElement 9 root = .ok q ∧ entry ∈ q.outline ∧ entry.id = 0 ∧
      entry.node.isTag "m" = true ∧ (entry.node.filledRows.map fun r => (r.childrenTagged "e").length - 1) = [1, 1] ∧
      ∀ r ∈ entry.node.filledRows, ∀ c ∈ r.childrenTagged "e", c.IsUnbroken := by
    dsimp only [root, first, second, matrix, run, part]
    exact ⟨_, _, rfl, List.mem_of_getElem? (rfl : _[0]? = some _), rfl, rfl, rfl, by decide⟩
  obtain ⟨q, entry, hq, hentry, hid, hmatrix, hlengths, hcells⟩ := hread
  have hrows : entry.node.filledRows ≠ [] := by
    rintro hnil
    rw [hnil] at hlengths
    cases hlengths
  obtain ⟨fence, body, ls, hlatex, hls, hbreaks, hmarks⟩ := exists_cellMarks_nodeLatex hq {} hentry hmatrix hrows hcells
  have hlength := congrArg List.length hlengths
  rw [List.length_map] at hlength
  exact ⟨q, fence, body, ls, hq, hid ▸ hlatex, hls, by rw [hbreaks, hlength]; rfl, hmarks.trans hlengths⟩

/-- A line feed in the text of a cell parts the row. -/
theorem nodeLatex_of_line_feed :
    let part (tag : String) (content : List Xml.Content) : Xml.Content := .element (.mk (.math tag) [] content)
    let cell : Xml.Content := part "e" [part "r" [part "t" [.text "a\nb"]]]
    let root : Xml.Element := .mk (.math "oMath") [] [part "m" [part "mr" [cell]]]
    ∃ q entry ls, ofElement 1000 root = .ok q ∧ entry ∈ q.outline ∧ entry.node.isTag "m" = true ∧
      (entry.node.filledRows.map fun r => (r.childrenTagged "e").length) = [1] ∧
      (∀ r ∈ entry.node.filledRows, ∀ c ∈ r.childrenTagged "e", ∀ m ∈ c.preorder, m.isTag "mr" = false) ∧
      q.nodeLatex {} entry.id = command "\\begin" "matrix" ++ "\n" ++ "a\\\\b" ++ "\n" ++ command "\\end" "matrix" ∧
      ownLevel? "a\\\\b" = some ls ∧ ls.count (.escaped '\\') ≠ entry.node.filledRows.length - 1 ∧
      cellMarks ls ≠ entry.node.filledRows.map fun r => (r.childrenTagged "e").length - 1 := by
  intro part cell root
  dsimp only [root, cell, part]
  exact ⟨_, _, [.plain 'a', .escaped '\\', .plain 'b'], rfl, List.mem_of_getElem? (rfl : _[0]? = some _), rfl, rfl,
    by decide, rfl, rfl, by decide, by decide⟩

end Equation

end OfficeMath
