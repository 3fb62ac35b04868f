import OfficeMath.Proofs.Latex.Fragments
import OfficeMath.Proofs.Store.Absorption

/-! Whether the LaTeX of a delimiter shows its fence. A delimiter that leaves the fence to no array writes it in
    brackets, and an array with a row writes it by its environment. An array without rows is left out, and the fence with
    it. -/

namespace OfficeMath

open Node (note)

/-! ### Brackets -/

namespace Typeset

open Latex

/-- What is written where the fence opens. -/
def openingBracket (fence : Fence) : String :=
  if fence.grows then growingFence "\\left" (bracket fence.opening) else bracket fence.opening

/-- What is written where the fence closes. -/
def closingBracket (fence : Fence) : String :=
  if fence.grows then growingFence "\\right" (bracket fence.closing) else bracket fence.closing

theorem openingBracket_ne_empty {fence : Fence} (h : fence.opening ≠ "") : openingBracket fence ≠ "" := by
  unfold openingBracket growingFence
  split
  · simp
  · exact bracket_ne_empty h

/-- A text between fences stands between brackets, set off by spaces where a control word would run on. -/
theorem fenced_eq (fence : Fence) (content : String) :
    ∃ first second, (first = "" ∨ first = " ") ∧ (second = "" ∨ second = " ") ∧
      fenced fence content = openingBracket fence ++ first ++ content ++ second ++ closingBracket fence := by
  unfold fenced openingBracket closingBracket
  cases fence.grows with
  | true =>
    refine ⟨_, "", gap_eq (growingFence "\\left" (bracket fence.opening)) content, .inl rfl, ?_⟩
    simp only [if_true, pushFragment_eq_gap, String.append_empty]
  | false =>
    refine ⟨_, _, gap_eq (bracket fence.opening) content,
      gap_eq (pushFragment (bracket fence.opening) content) (bracket fence.closing), ?_⟩
    simp only [Bool.false_eq_true, if_false, joinFragments_eq, List.foldl_cons, List.foldl_nil]
    rw [empty_pushFragment, pushFragment_eq_gap (pushFragment _ _), pushFragment_eq_gap (bracket fence.opening)]

end Typeset

theorem Latex.environment_ne_empty (name : String) (rows : List String) : environment name rows ≠ "" := by
  simp [environment]

/-- The environment of an array stands for the fence. -/
def Fence.HasEnvironment (fence : Fence) (E : String) : Prop :=
  fence.matrixFence ≠ .none ∧ E = fence.matrixFence.environment ∨ fence.isCases = true ∧ E = "cases"

section Kind

variable {ρ : Type} {fence : Fence} {k : Kind ρ}

theorem Kind.exists_environment_of_brings (choice : ArrayEnvironment) (h : k.Brings fence) :
    ∃ E, k.environment? choice (some fence) = some E ∧ fence.HasEnvironment E := by
  cases k with
  | matrix rows => exact ⟨_, rfl, .inl ⟨h, rfl⟩⟩
  | equationArray rows =>
    refine ⟨"cases", ?_, .inr ⟨h, rfl⟩⟩
    have hcases : fence.isCases = true := h
    rw [environment?, Typeset.arrayEnvironment, Option.any_some, if_pos hcases]
  | _ => exact h.elim

theorem Kind.opening_ne_empty_of_brings (h : k.Brings fence) : fence.opening ≠ "" := by
  intro hopening
  cases k with
  | matrix rows => exact h (by rw [Fence.matrixFence, hopening]; rfl)
  | equationArray rows =>
    rw [Brings, Fence.isCases, hopening] at h
    exact absurd h (by simp)
  | _ => exact h.elim

end Kind

namespace Store

variable {limit d : Nat} {root : Xml.Element} {s : Store} {q : Equation} {entry around b : Entry} {fence : Fence}
  {segments : List (List Nat)} {choice : ArrayEnvironment} {delimiter : Cell} {latex : String}

/-- The delimiter leaves its fence to an array in which no row is written. -/
def LosesFence (s : Store) (fence : Fence) (segments : List (List Nat)) : Prop :=
  ∃ c content, s.absorbedContent fence segments = .ok (some c) ∧ s.cell c = .ok content ∧
    content.kind.holdsRows s.isFilledRow = false

/-- The LaTeX of a delimiter shows its fence: by brackets around the content, or by the environment of an array. -/
inductive ShowsFence (s : Store) (choice : ArrayEnvironment) (fence : Fence) (segments : List (List Nat)) :
    String → Prop
  | brackets {inner : List (List String)} {first second : String}
      (hinner : (segments.mapM fun segment => segment.mapM (s.nodeLatex choice)) = .ok inner)
      (hfirst : first = "" ∨ first = " ") (hsecond : second = "" ∨ second = " ") :
      ShowsFence s choice fence segments (Typeset.openingBracket fence ++ first ++
        Typeset.joinSegments (Typeset.segmentSeparator fence.separator) inner ++ second ++
        Typeset.closingBracket fence)
  | environment {E : String} {rows : List String} (hmem : E ∈ fenceEnvironments) (hfence : fence.HasEnvironment E)
      (hrows : rows ≠ []) : ShowsFence s choice fence segments (Latex.environment E rows)

theorem ShowsFence.ne_empty (h : s.ShowsFence choice fence segments latex) (hopening : fence.opening ≠ "") :
    latex ≠ "" := by
  cases h with
  | brackets => simp [Typeset.openingBracket_ne_empty hopening]
  | environment => exact Latex.environment_ne_empty _ _

/-! ### Delimiters of an equation -/

theorem fence?_of_absorbedContent? (hq : Equation.ofElement limit root = .ok q) (haround : around ∈ q.outline)
    (hform : around.node.form = .delimiter fence) (hb : b ∈ q.outline)
    (habsorbed : around.node.absorbedContent? fence = some b.node) :
    b.enclosure.fence? = some fence ∧ b.node.kind.Brings fence := by
  obtain ⟨hwrapped, habsorbs⟩ := Option.filter_eq_some_iff.mp habsorbed
  have hdelimiter : around.node.form.isDelimiter = true := by rw [hform]; rfl
  have hfound := (Equation.delimiter?_eq_some_iff hq hb (Node.isArray_of_absorbs habsorbs) haround hdelimiter).mpr
    hwrapped
  exact ⟨by rw [Enclosure.fence?, hfound, Option.bind_some, hform], Node.brings_kind.mpr habsorbs⟩

theorem losesFence_iff (haround : around ∈ q.outline) :
    q.store.LosesFence fence (around.node.segments.map (List.map note)) ↔
      ∃ b ∈ q.outline, around.node.absorbedContent? fence = some b.node ∧
        b.node.kind.holdsRows (·.kind.isFilledRow) = false := by
  constructor
  · rintro ⟨c, content, hc, hcell, hrows⟩
    obtain ⟨b, hb, rfl, rfl⟩ := exists_entry_of_cell hcell
    rw [absorbedContent_eq_map haround, Except.ok.injEq, note_absorbedContent?_eq_some_iff haround hb] at hc
    refine ⟨b, hb, ?_, (holdsRows_cell hb).symm.trans hrows⟩
    rw [Node.absorbedContent?, hc.1, Option.filter_some, if_pos hc.2]
  · rintro ⟨b, hb, habsorbed, hrows⟩
    refine ⟨b.id, b.cell, ?_, Equation.holds_store q b hb, (holdsRows_cell hb).trans hrows⟩
    rw [absorbedContent_eq_map haround, habsorbed]
    rfl

theorem nodeLatex_segments (hq : Equation.ofElement limit root = .ok q) (choice : ArrayEnvironment)
    (haround : around ∈ q.outline) :
    ((around.node.segments.map (List.map note)).mapM fun segment => segment.mapM (q.store.nodeLatex choice)) =
      .ok (around.node.segments.map (List.map fun c => (c.typeset choice around.inner).note)) := by
  have hsegments : ∀ c ∈ around.node.segments.flatten,
      q.store.nodeLatex choice c.note = .ok (c.typeset choice around.inner).note := fun c hc =>
    nodeLatex_eq_note hq choice (Equation.child_mem_outline haround (Node.mem_children_of_segments hc))
  rw [mapM_segments_eq hsegments, List.map_map]
  simp only [Function.comp_def, List.map_map]

/-- A delimiter that leaves its fence to an array has the LaTeX of the array, which has a row or is left out. -/
theorem showsFence_iff_of_absorbed (hq : Equation.ofElement limit root = .ok q) (haround : around ∈ q.outline)
    (hform : around.node.form = .delimiter fence) (hb : b ∈ q.outline)
    (habsorbed : around.node.absorbedContent? fence = some b.node)
    (hnote : (around.typeset choice).note = (b.typeset choice).note) :
    (q.store.ShowsFence choice fence segments (around.typeset choice).note ↔
        b.node.kind.holdsRows (·.kind.isFilledRow) = true) ∧
      ((around.typeset choice).note = "" ↔ b.node.kind.holdsRows (·.kind.isFilledRow) = false) := by
  obtain ⟨hfence?, hbrings⟩ := fence?_of_absorbedContent? hq haround hform hb habsorbed
  obtain ⟨E, hE, hstands⟩ := Kind.exists_environment_of_brings choice hbrings
  have hmem := (Kind.mem_fenceEnvironments_iff hE).mpr hbrings
  have hopening := Kind.opening_ne_empty_of_brings hbrings
  rw [← hfence?] at hE
  have harray := Equation.note_typeset_of_environment? hE
  rw [hnote]
  split at harray
  · next hrows =>
    obtain ⟨rows, hne, hlatex⟩ := harray
    have hshows : q.store.ShowsFence choice fence segments (b.typeset choice).note := by
      rw [hlatex]
      exact .environment hmem hstands hne
    exact ⟨iff_of_true hshows hrows, iff_of_false (hshows.ne_empty hopening) (by rw [hrows]; decide)⟩
  · next hrows =>
    exact ⟨iff_of_false (fun hshows => hshows.ne_empty hopening harray) hrows,
      iff_of_true harray (Bool.eq_false_iff.mpr hrows)⟩

/-- A delimiter that keeps its fence has its segments between the brackets. -/
theorem showsFence_of_not_absorbed (hq : Equation.ofElement limit root = .ok q) (haround : around ∈ q.outline)
    (hnote : (around.typeset choice).note = Typeset.fenced fence (Typeset.joinSegments
      (Typeset.segmentSeparator fence.separator)
      (around.node.segments.map (List.map fun c => (c.typeset choice around.inner).note)))) :
    q.store.ShowsFence choice fence (around.node.segments.map (List.map note)) (around.typeset choice).note := by
  obtain ⟨first, second, hfirst, hsecond, hfenced⟩ := Typeset.fenced_eq fence (Typeset.joinSegments
    (Typeset.segmentSeparator fence.separator)
    (around.node.segments.map (List.map fun c => (c.typeset choice around.inner).note)))
  rw [hnote, hfenced]
  exact .brackets (nodeLatex_segments hq choice haround) hfirst hsecond

/-- In the store of an element the LaTeX of a delimiter shows the fence unless it is left to an array without rows, and
    then the LaTeX is empty. -/
theorem showsFence_iff_of_ofElement (h : ofElement limit root = .ok s) (hd : s.cell d = .ok delimiter)
    (hfence : delimiter.kind = .delimiter fence segments) (choice : ArrayEnvironment) :
    ∃ latex, s.nodeLatex choice d = .ok latex ∧
      (s.ShowsFence choice fence segments latex ↔ ¬ s.LosesFence fence segments) ∧
      (fence.opening ≠ "" → (latex = "" ↔ s.LosesFence fence segments)) := by
  obtain ⟨q, hq, -, rfl⟩ := ofElement_eq_ok_iff.mp h
  obtain ⟨around, haround, rfl, rfl⟩ := exists_entry_of_cell hd
  obtain ⟨hform, rfl⟩ := form_of_delimiter hfence
  refine ⟨_, nodeLatex_eq_note hq choice haround, ?_⟩
  rw [losesFence_iff haround]
  rcases Equation.note_typeset_of_delimiter choice haround hform with ⟨b, hb, habsorbed, hnote⟩ | ⟨hnone, hnote⟩
  · -- what the fence is left to is this array and no other
    have hloses : (∃ b ∈ q.outline, around.node.absorbedContent? fence = some b.node ∧
        b.node.kind.holdsRows (·.kind.isFilledRow) = false) ↔ b.node.kind.holdsRows (·.kind.isFilledRow) = false := by
      refine ⟨?_, fun hrows => ⟨b, hb, habsorbed, hrows⟩⟩
      rintro ⟨b', -, habsorbed', hrows⟩
      rwa [Option.some.inj (habsorbed.symm.trans habsorbed')]
    obtain ⟨hshows, hempty⟩ := showsFence_iff_of_absorbed hq haround hform hb habsorbed hnote
    rw [hloses, Bool.not_eq_false]
    exact ⟨hshows, fun _ => hempty⟩
  · have hkept : ¬ ∃ b ∈ q.outline, around.node.absorbedContent? fence = some b.node ∧
        b.node.kind.holdsRows (·.kind.isFilledRow) = false := by
      rintro ⟨b, -, habsorbed, -⟩
      rw [hnone] at habsorbed
      cases habsorbed
    have hshows := showsFence_of_not_absorbed hq haround hnote
    exact ⟨iff_of_true hshows hkept, fun hopening => iff_of_false (hshows.ne_empty hopening) hkept⟩

/-- A delimiter around a matrix with one cell shows its fence, though the cell is empty. -/
theorem showsFence_iff_of_ofElement_of_cell :
    let part (tag : String) (content : List Xml.Content) : Xml.Content := .element (.mk (.math tag) [] content)
    let root : Xml.Element := .mk (.math "d") [] [part "m" [part "mr" [part "e" []]]]
    let fence : Fence := ⟨"(", none, none, false⟩
    ∃ s delimiter latex, ofElement 6 root = .ok s ∧ s.cell 0 = .ok delimiter ∧
      delimiter.kind = .delimiter fence [[1]] ∧ s.nodeLatex .aligned 0 = .ok latex ∧
      s.ShowsFence .aligned fence [[1]] latex ∧ latex ≠ "" := by
  intro part root fence
  have hbuilt : ∃ s delimiter content, ofElement 6 root = .ok s ∧ s.cell 0 = .ok delimiter ∧
      delimiter.kind = .delimiter fence [[1]] ∧ s.absorbedContent fence [[1]] = .ok (some 1) ∧
      s.cell 1 = .ok content ∧ content.kind.holdsRows s.isFilledRow = true := by
    dsimp only [root, part, fence]
    exact ⟨_, ⟨"d", true, none, [1], .delimiter ⟨"(", none, none, false⟩ [[1]]⟩,
      ⟨"m", true, some 0, [2], .matrix [2]⟩, ofElement_eq_ok_iff.mpr ⟨_, rfl, by decide, rfl⟩, rfl, rfl, rfl, rfl,
      rfl⟩
  obtain ⟨s, delimiter, content, hs, hd, hfence, habsorbed, hc, hrows⟩ := hbuilt
  obtain ⟨latex, hlatex, hshows, hempty⟩ := showsFence_iff_of_ofElement hs hd hfence .aligned
  have hkept : ¬ s.LosesFence fence [[1]] := by
    rintro ⟨c, content', habsorbed', hc', hnone⟩
    cases habsorbed.symm.trans habsorbed'
    cases hc.symm.trans hc'
    rw [hrows] at hnone
    cases hnone
  exact ⟨s, delimiter, latex, hs, hd, hfence, hlatex, hshows.mpr hkept,
    fun hlatex => hkept ((hempty (by decide)).mp hlatex)⟩

/-- A delimiter around a matrix without rows is left out with its parentheses. -/
theorem nodeLatex_of_empty_matrix :
    let matrix : Xml.Element := Xml.Element.math "m"
    let root : Xml.Element := .mk (.math "oMath") [] [.element (.mk (.math "d") [] [.element matrix])]
    ∃ s delimiter, ofElement 1000 root = .ok s ∧ s.cell 0 = .ok delimiter ∧
      delimiter.kind = .delimiter ⟨"(", none, none, false⟩ [[1]] ∧ s.nodeLatex .aligned 0 = .ok "" ∧
      ¬ s.ShowsFence .aligned ⟨"(", none, none, false⟩ [[1]] "" := by
  intro matrix root
  have hhides (s : Store) : ¬ s.ShowsFence .aligned ⟨"(", none, none, false⟩ [[1]] "" := fun hshows =>
    hshows.ne_empty (by decide) rfl
  have hbuilt : ∃ s delimiter, ofElement 1000 root = .ok s ∧ s.cell 0 = .ok delimiter ∧
      delimiter.kind = .delimiter ⟨"(", none, none, false⟩ [[1]] ∧ s.nodeLatex .aligned 0 = .ok "" := by
    dsimp only [root, matrix]
    exact ⟨_, ⟨"d", true, none, [1], .delimiter ⟨"(", none, none, false⟩ [[1]]⟩,
      ofElement_eq_ok_iff.mpr ⟨_, rfl, by decide, rfl⟩, rfl, rfl, rfl⟩
  obtain ⟨s, delimiter, hs, hd, hfence, hlatex⟩ := hbuilt
  exact ⟨s, delimiter, hs, hd, hfence, hlatex, hhides s⟩

end Store

end OfficeMath
