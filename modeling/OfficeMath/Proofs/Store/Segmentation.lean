import OfficeMath.Proofs.Store.Parts

/-! How a delimiter cuts its content into segments. Nothing is lost, doubled or moved but the marks, which are left out;
    every `e` is a segment by itself, and loose nodes share a segment exactly if neither an `e` nor a mark stands
    between them. All of this is by induction on the stretches of loose nodes that end where another node stands. -/

namespace OfficeMath
namespace Store

open Node (note)

/-! ### Stretches of loose nodes -/

section Stretches

variable {cs segment : List (Node Nat)} {a b c : Node Nat}

/-- What holds of loose nodes, and is kept when loose nodes and one that is not loose are put in front, holds of all
    nodes. -/
theorem stretches_induction {motive : List (Node Nat) → Prop}
    (stretch : ∀ loose, (∀ c ∈ loose, c.isLoose = true) → motive loose)
    (cut : ∀ loose c cs, (∀ c ∈ loose, c.isLoose = true) → c.isLoose = false → motive cs → motive (loose ++ c :: cs))
    (cs : List (Node Nat)) : motive cs := by
  have hgathered : ∀ loose, (∀ c ∈ loose, c.isLoose = true) → motive (loose ++ cs) := by
    induction cs with
    | nil =>
      intro loose hloose
      rw [List.append_nil]
      exact stretch loose hloose
    | cons c cs ih =>
      intro loose hloose
      cases hc : c.isLoose with
      | false => exact cut loose c cs hloose hc (ih [] (by simp))
      | true =>
        rw [List.append_cons]
        exact ih (loose ++ [c]) (List.forall_mem_append.mpr ⟨hloose, List.forall_mem_singleton.mpr hc⟩)
  exact hgathered [] (by simp)

theorem mem_segmentsOf_cut {loose : List (Node Nat)} (hc : c.isLoose = false) :
    segment ∈ segmentsOf (loose ++ c :: cs) ↔
      segment ∈ segmentsOf loose ∨ (c.isTag "sep" = false ∧ segment = [c]) ∨ segment ∈ segmentsOf cs := by
  rw [segmentsOf_append_cons hc, List.mem_append, List.mem_append]
  cases c.isTag "sep" <;> simp

theorem mem_segmentsOf_cut_of_isLoose {loose : List (Node Nat)} (hc : c.isLoose = false) (ha : a.isLoose = true)
    (hmem : a ∈ segment) :
    segment ∈ segmentsOf (loose ++ c :: cs) ↔ segment ∈ segmentsOf loose ∨ segment ∈ segmentsOf cs := by
  rw [mem_segmentsOf_cut hc]
  refine or_congr_right (or_iff_right ?_)
  rintro ⟨-, rfl⟩
  rw [List.mem_singleton.mp hmem, hc] at ha
  cases ha

theorem mem_segmentsOf_stretch (hcs : ∀ c ∈ cs, c.isLoose = true) :
    segment ∈ segmentsOf cs ↔ cs ≠ [] ∧ segment = cs := by
  by_cases hne : cs = []
  · simp [hne, segmentsOf]
  · simp [segmentsOf_of_loose hcs hne, hne]

theorem ne_nil_of_mem_segmentsOf (h : segment ∈ segmentsOf cs) : segment ≠ [] :=
  List.ne_nil_of_mem_splitBy (List.mem_filter.mp h).1

theorem subset_of_mem_segmentsOf (h : segment ∈ segmentsOf cs) : segment ⊆ cs := by
  intro c hc
  rw [← List.flatten_splitBy (fun a b => a.isLoose && b.isLoose) cs]
  exact List.mem_flatten_of_mem (List.mem_filter.mp h).1 hc

theorem isLoose_eq_false_of_container (he : c.isTag "e" = true) : c.isLoose = false := by
  rw [Node.isLoose, he, Bool.not_true, Bool.false_and]

/-- A container is a segment. -/
theorem singleton_mem_segmentsOf (hc : c ∈ cs) (he : c.isTag "e" = true) : [c] ∈ segmentsOf cs := by
  have hcut : c.isLoose = false := isLoose_eq_false_of_container he
  induction cs using stretches_induction with
  | stretch loose hloose =>
    rw [hloose c hc] at hcut
    cases hcut
  | cut loose d cs hloose hd ih =>
    rw [mem_segmentsOf_cut hd]
    rcases List.mem_append.mp hc with hc | hc
    · rw [hloose c hc] at hcut
      cases hcut
    · rcases List.mem_cons.mp hc with rfl | hc
      · exact .inr (.inl ⟨Node.isTag_eq_false_of_ne he (by decide), rfl⟩)
      · exact .inr (.inr (ih hc))

theorem pairwise_cut {loose : List (Node Nat)} (h : ((loose ++ c :: cs).map note).Pairwise (· < ·)) :
    (cs.map note).Pairwise (· < ·) ∧ (∀ m ∈ loose, m.note < c.note) ∧ ∀ m ∈ cs, c.note < m.note := by
  rw [List.map_append, List.map_cons, List.pairwise_append, List.pairwise_cons] at h
  obtain ⟨-, ⟨hback, hcs⟩, hfront⟩ := h
  exact ⟨hcs, fun m hm => hfront _ (List.mem_map_of_mem hm) _ List.mem_cons_self,
    fun m hm => hback _ (List.mem_map_of_mem hm)⟩

/-- Loose nodes share a segment exactly if all nodes between them are loose. -/
theorem together_segmentsOf_iff (hcs : (cs.map note).Pairwise (· < ·)) (ha : a ∈ cs) (hb : b ∈ cs)
    (hla : a.isLoose = true) (hlb : b.isLoose = true) (hab : a.note ≤ b.note) :
    (∃ segment ∈ segmentsOf cs, a ∈ segment ∧ b ∈ segment) ↔
      ∀ c ∈ cs, a.note < c.note → c.note < b.note → c.isLoose = true := by
  induction cs using stretches_induction with
  | stretch loose hloose =>
    refine ⟨fun _ c hc _ _ => hloose c hc, fun _ => ⟨loose, ?_, ha, hb⟩⟩
    exact (mem_segmentsOf_stretch hloose).mpr ⟨List.ne_nil_of_mem ha, rfl⟩
  | cut loose d cs hloose hd ih =>
    obtain ⟨hcs, hfront, hback⟩ := pairwise_cut hcs
    have hside : ∀ {m : Node Nat}, m ∈ loose ++ d :: cs → m.isLoose = true → m ∈ loose ∨ m ∈ cs := by
      intro m hm hlm
      rcases List.mem_append.mp hm with hm | hm
      · exact .inl hm
      · rcases List.mem_cons.mp hm with rfl | hm
        · exact absurd hlm (Bool.eq_false_iff.mp hd)
        · exact .inr hm
    rcases hside ha hla with ha | ha <;> rcases hside hb hlb with hb | hb
    · -- both stand in the first stretch, which is a segment
      refine ⟨fun _ c hc _ hcb => ?_, fun _ => ⟨loose, ?_, ha, hb⟩⟩
      · have hb' := hfront b hb
        rcases List.mem_append.mp hc with hc | hc
        · exact hloose c hc
        · rcases List.mem_cons.mp hc with rfl | hc
          · omega
          · have hc' := hback c hc
            omega
      · exact (mem_segmentsOf_cut hd).mpr (.inl ((mem_segmentsOf_stretch hloose).mpr ⟨List.ne_nil_of_mem ha, rfl⟩))
    · -- the node that ends the stretch stands between them
      have ha' := hfront a ha
      have hb' := hback b hb
      refine iff_of_false ?_ fun hall => ?_
      · rintro ⟨segment, hsegment, hasegment, hbsegment⟩
        rcases (mem_segmentsOf_cut_of_isLoose hd hla hasegment).mp hsegment with hsegment | hsegment
        · have hb'' := hfront b (subset_of_mem_segmentsOf hsegment hbsegment)
          omega
        · have ha'' := hback a (subset_of_mem_segmentsOf hsegment hasegment)
          omega
      · exact Bool.eq_false_iff.mp hd (hall d (by simp) ha' hb')
    · have ha' := hback a ha
      have hb' := hfront b hb
      omega
    · -- both stand after it, and so does all that is between them
      have ha' := hback a ha
      have hsegments : (∃ segment ∈ segmentsOf (loose ++ d :: cs), a ∈ segment ∧ b ∈ segment) ↔
          ∃ segment ∈ segmentsOf cs, a ∈ segment ∧ b ∈ segment := by
        constructor
        · rintro ⟨segment, hsegment, hmem⟩
          rcases (mem_segmentsOf_cut_of_isLoose hd hla hmem.1).mp hsegment with hsegment | hsegment
          · have ha'' := hfront a (subset_of_mem_segmentsOf hsegment hmem.1)
            omega
          · exact ⟨segment, hsegment, hmem⟩
        · rintro ⟨segment, hsegment, hmem⟩
          exact ⟨segment, (mem_segmentsOf_cut_of_isLoose hd hla hmem.1).mpr (.inr hsegment), hmem⟩
      rw [hsegments, ih hcs ha hb]
      refine ⟨fun hall c hc hac hcb => ?_, fun hall c hc => hall c (by simp [hc])⟩
      rcases List.mem_append.mp hc with hc | hc
      · exact hloose c hc
      · rcases List.mem_cons.mp hc with rfl | hc
        · omega
        · exact hall c hc hac hcb

/-- A segment that holds a container holds nothing else. -/
theorem eq_singleton_of_mem_segmentsOf (h : segment ∈ segmentsOf cs) (hc : c ∈ segment) (he : c.isTag "e" = true) :
    segment = [c] := by
  have hcut : c.isLoose = false := isLoose_eq_false_of_container he
  induction cs using stretches_induction with
  | stretch loose hloose =>
    obtain ⟨-, rfl⟩ := (mem_segmentsOf_stretch hloose).mp h
    rw [hloose c hc] at hcut
    cases hcut
  | cut loose d cs hloose hd ih =>
    rcases (mem_segmentsOf_cut hd).mp h with h | ⟨-, rfl⟩ | h
    · rw [hloose c (subset_of_mem_segmentsOf h hc)] at hcut
      cases hcut
    · rw [List.mem_singleton.mp hc]
    · exact ih h

end Stretches

/-! ### Segments by number -/

/-- The node with the number goes to a segment with the nodes of its kind beside it. -/
def isLooseAt (s : Store) (id : Nat) : Bool := !s.isTagged "e" id && !s.isTagged "sep" id

/-- The segments cut the content, which is given by numbers in document order, and lose nothing of it but the marks. -/
structure Segmented (s : Store) (content : List Nat) (segments : List (List Nat)) : Prop where
  increasing : content.Pairwise (· < ·)
  flatten_eq : segments.flatten = content.filter fun id => !s.isTagged "sep" id
  ne_nil : ∀ segment ∈ segments, segment ≠ []
  container : ∀ id ∈ content, s.isTagged "e" id = true →
    [id] ∈ segments ∧ ∀ segment ∈ segments, id ∈ segment → segment = [id]
  together_iff : ∀ a ∈ content, ∀ b ∈ content, s.isLooseAt a = true → s.isLooseAt b = true →
    ((∃ segment ∈ segments, a ∈ segment ∧ b ∈ segment) ↔
      ∀ c ∈ content, min a b < c → c < max a b → s.isLooseAt c = true)

section Content

variable {s : Store} {cs : List (Node Nat)} {a b : Node Nat}

theorem isLooseAt_note {m : Node Nat} {parent : Option Nat} (h : s.cell m.note = .ok (m.cell parent)) :
    s.isLooseAt m.note = m.isLoose := by
  rw [isLooseAt, isTagged_note h, isTagged_note h, Node.isLoose]

theorem exists_map_note_iff (hcs : (cs.map note).Pairwise (· < ·)) (ha : a ∈ cs) (hb : b ∈ cs) :
    (∃ segment ∈ (segmentsOf cs).map (List.map note), a.note ∈ segment ∧ b.note ∈ segment) ↔
      ∃ segment ∈ segmentsOf cs, a ∈ segment ∧ b ∈ segment := by
  have hmem : ∀ {m segment}, m ∈ cs → segment ∈ segmentsOf cs → m.note ∈ segment.map note → m ∈ segment := by
    intro m segment hm hsegment hnote
    obtain ⟨m', hm', heq⟩ := List.mem_map.mp hnote
    have hinj := List.inj_on_of_nodup_map (hcs.imp Nat.ne_of_lt)
    rwa [← hinj (subset_of_mem_segmentsOf hsegment hm') hm heq]
  constructor
  · rintro ⟨_, hids, ha', hb'⟩
    obtain ⟨segment, hsegment, rfl⟩ := List.mem_map.mp hids
    exact ⟨segment, hsegment, hmem ha hsegment ha', hmem hb hsegment hb'⟩
  · rintro ⟨segment, hsegment, ha', hb'⟩
    exact ⟨segment.map note, List.mem_map_of_mem hsegment, List.mem_map_of_mem ha', List.mem_map_of_mem hb'⟩

theorem together_map_note_iff {parent : Option Nat} (hcells : ∀ m ∈ cs, s.cell m.note = .ok (m.cell parent))
    (hcs : (cs.map note).Pairwise (· < ·)) (ha : a ∈ cs) (hb : b ∈ cs) (hla : a.isLoose = true) (hlb : b.isLoose = true)
    (hab : a.note ≤ b.note) :
    (∃ segment ∈ (segmentsOf cs).map (List.map note), a.note ∈ segment ∧ b.note ∈ segment) ↔
      ∀ id ∈ cs.map note, a.note < id → id < b.note → s.isLooseAt id = true := by
  rw [exists_map_note_iff hcs ha hb, together_segmentsOf_iff hcs ha hb hla hlb hab, List.forall_mem_map]
  exact forall₂_congr fun m hm => by rw [isLooseAt_note (hcells m hm)]

theorem segmented_segments {n : Node Nat} {parent : Option Nat}
    (hcells : ∀ m ∈ n.contentChildren, s.cell m.note = .ok (m.cell parent))
    (hcs : (n.contentChildren.map note).Pairwise (· < ·)) :
    s.Segmented (n.contentChildren.map note) (n.segments.map (List.map note)) where
  increasing := hcs
  flatten_eq := by
    rw [← List.map_flatten, Node.flatten_segments, filter_map_note fun m hm => ?_]
    rw [isTagged_note (hcells m hm), Node.isMark]
  ne_nil := by
    intro segment hsegment
    obtain ⟨ms, hms, rfl⟩ := List.mem_map.mp hsegment
    simpa using ne_nil_of_mem_segmentsOf hms
  container := by
    intro id hid he
    obtain ⟨m, hm, rfl⟩ := List.mem_map.mp hid
    have hmtag : m.isTag "e" = true := by rwa [isTagged_note (hcells m hm)] at he
    refine ⟨List.mem_map.mpr ⟨[m], singleton_mem_segmentsOf hm hmtag, rfl⟩, fun segment hsegment hmem => ?_⟩
    obtain ⟨ms, hms, rfl⟩ := List.mem_map.mp hsegment
    obtain ⟨m', hm', hnote⟩ := List.mem_map.mp hmem
    have hm'tag : m'.isTag "e" = true := by
      rwa [← hnote, isTagged_note (hcells m' (subset_of_mem_segmentsOf hms hm'))] at he
    rw [eq_singleton_of_mem_segmentsOf hms hm' hm'tag, List.map_singleton, hnote]
  together_iff := by
    intro i hi j hj hli hlj
    obtain ⟨a, ha, rfl⟩ := List.mem_map.mp hi
    obtain ⟨b, hb, rfl⟩ := List.mem_map.mp hj
    rw [isLooseAt_note (hcells a ha)] at hli
    rw [isLooseAt_note (hcells b hb)] at hlj
    rcases Nat.le_total a.note b.note with hab | hba
    · rw [Nat.min_eq_left hab, Nat.max_eq_right hab]
      exact together_map_note_iff hcells hcs ha hb hli hlj hab
    · rw [Nat.min_eq_right hba, Nat.max_eq_left hba]
      refine Iff.trans (exists_congr fun segment => and_congr_right fun _ => and_comm) ?_
      exact together_map_note_iff hcells hcs hb ha hlj hli hba

end Content

/-! ### Stores of elements -/

variable {s : Store} {limit id : Nat} {e : Xml.Element} {c : Cell} {fence : Fence} {segments : List (List Nat)}

/-- In the store of an element the segments of every delimiter cut its content. -/
theorem segmented_of_ofElement (h : ofElement limit e = .ok s) (hcell : s.cell id = .ok c)
    (hkind : c.kind = .delimiter fence segments) : s.Segmented (c.children.filter s.countsAsContent) segments := by
  obtain ⟨q, -, -, rfl⟩ := ofElement_eq_ok_iff.mp h
  obtain ⟨entry, hentry, rfl, rfl⟩ := exists_entry_of_cell hcell
  have hlists := Equation.lists_store hentry
  have hsegments : segments = entry.node.segments.map (List.map note) := by
    have hkind : entry.node.kind.map note = .delimiter fence segments := hkind
    unfold Node.kind at hkind
    cases hform : entry.node.form <;> rw [hform] at hkind <;> cases hkind
    rfl
  have hcontent : (entry.node.children.map note).filter q.store.countsAsContent = entry.node.contentChildren.map note :=
    filter_map_note fun m hm => countsAsContent_note (hlists.children m hm)
  have hcells : ∀ m ∈ entry.node.contentChildren, q.store.cell m.note = .ok (m.cell (some entry.node.note)) :=
    fun m hm => hlists.children m (List.mem_filter.mp hm).1
  have hincreasing : (entry.node.contentChildren.map note).Pairwise (· < ·) :=
    hcontent ▸ (Equation.pairwise_children hentry).filter _
  rw [hsegments]
  exact hcontent ▸ segmented_segments hcells hincreasing

/-- Runs go together past a property between them, and a container and a mark part them. -/
theorem segmented_of_ofElement_of_interleaved :
    let item (tag : String) : Xml.Content := .element (Xml.Element.math tag)
    let delimiter : Xml.Element :=
      .mk (.math "d") [] (["r", "e", "r", "ctrlPr", "r", "sep", "sep", "r"].map item)
    ∃ s c fence, ofElement 2 delimiter = .ok s ∧ s.cell 0 = .ok c ∧
      c.kind = .delimiter fence [[1], [2], [3, 5], [8]] ∧
      s.Segmented (c.children.filter s.countsAsContent) [[1], [2], [3, 5], [8]] := by
  intro item delimiter
  have hbuilt : ∃ s c fence, ofElement 2 delimiter = .ok s ∧ s.cell 0 = .ok c ∧
      c.kind = .delimiter fence [[1], [2], [3, 5], [8]] := by
    dsimp only [delimiter, item]
    exact ⟨_, _, _, ofElement_eq_ok_iff.mpr ⟨_, rfl, by decide, rfl⟩, rfl, rfl⟩
  obtain ⟨s, c, fence, hs, hcell, hkind⟩ := hbuilt
  exact ⟨s, c, fence, hs, hcell, hkind, segmented_of_ofElement hs hcell hkind⟩

end Store
end OfficeMath
