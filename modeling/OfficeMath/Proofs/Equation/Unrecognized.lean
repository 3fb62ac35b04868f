import Mathlib
import OfficeMath.Proofs.Equation.Reading

/-! The tags that are not recognized. They are listed each once, in the order in which they first occur. What lies in an
    element of properties is none of them if it stands right in that element; what stands deeper in it is listed
    nevertheless, since only the parent of a node is looked at. -/

namespace OfficeMath

/-! ### First occurrences -/

/-- The list has the items, each once, in the order in which they first occur. -/
structure ListsFirsts {α : Type} [DecidableEq α] (items firsts : List α) : Prop where
  nodup : firsts.Nodup
  mem_iff : ∀ a, a ∈ firsts ↔ a ∈ items
  ordered : firsts.Pairwise fun a b => items.idxOf a < items.idxOf b

namespace ListsFirsts

variable {α : Type} [DecidableEq α] {items firsts : List α}

theorem nil : ListsFirsts ([] : List α) [] := ⟨.nil, fun _ => Iff.rfl, .nil⟩

/-- One more item is added if it is not there yet. -/
theorem concat (h : ListsFirsts items firsts) (a : α) :
    ListsFirsts (items ++ [a]) (if firsts.contains a then firsts else firsts ++ [a]) := by
  have hold : ∀ b ∈ firsts, (items ++ [a]).idxOf b = items.idxOf b := fun b hb =>
    List.idxOf_append_of_mem ((h.mem_iff b).mp hb)
  have hordered : firsts.Pairwise fun b c => (items ++ [a]).idxOf b < (items ++ [a]).idxOf c :=
    h.ordered.imp_of_mem fun {b c} hb hc hlt => by rwa [hold b hb, hold c hc]
  split
  · next hmem =>
    have hmem : a ∈ items := (h.mem_iff a).mp (List.contains_iff_mem.mp hmem)
    refine ⟨h.nodup, fun b => ?_, hordered⟩
    rw [h.mem_iff, List.mem_append, List.mem_singleton]
    exact ⟨.inl, fun hb => hb.elim id fun hb => hb ▸ hmem⟩
  · next hnew =>
    have hnew : a ∉ firsts := fun hmem => hnew (List.contains_iff_mem.mpr hmem)
    refine ⟨?_, fun b => ?_, ?_⟩
    · exact List.nodup_append.mpr ⟨h.nodup, List.nodup_singleton a, fun b hb c hc => by
        rw [List.mem_singleton.mp hc]
        exact fun heq => hnew (heq ▸ hb)⟩
    · rw [List.mem_append, List.mem_append, h.mem_iff]
    · refine List.pairwise_append.mpr ⟨hordered, List.pairwise_singleton _ a, fun b hb c hc => ?_⟩
      have hnew : a ∉ items := fun hmem => hnew ((h.mem_iff a).mpr hmem)
      rw [List.mem_singleton.mp hc, hold b hb, List.idxOf_append_of_notMem hnew]
      exact Nat.lt_add_right _ (List.idxOf_lt_length_iff.mpr ((h.mem_iff b).mp hb))

theorem foldl (h : ListsFirsts items firsts) (more : List α) :
    ListsFirsts (items ++ more)
      (more.foldl (fun found a => if found.contains a then found else found ++ [a]) firsts) := by
  induction more generalizing items firsts with
  | nil => rwa [List.append_nil]
  | cons a more ih =>
    rw [List.append_cons]
    exact ih (h.concat a)

end ListsFirsts

/-! ### What nodes lie in -/

/-- The node should have been a construct or a known container: it is neither that nor an element of properties. -/
def Head.isUnknown (h : Head) : Bool :=
  h.form == .generic && !h.isProperty && !(h.isMath && containerTags.contains h.tag)

namespace Node

variable {α : Type}

mutual

/-- What the node and those below it say by themselves, in document order, each with what the nodes say that it lies in,
    of which the innermost comes first. -/
def lineage (around : List Head) : Node α → List (Head × List Head)
  | mk head _ children => (head, around) :: lineageAll (head :: around) children

/-- What the nodes of a list of trees say by themselves, each with what the nodes say that it lies in. -/
def lineageAll (around : List Head) : List (Node α) → List (Head × List Head)
  | [] => []
  | n :: ns => n.lineage around ++ lineageAll around ns

end

mutual

theorem lineage_number (around : List Head) (first : Nat) :
    ∀ n : Node α, (n.number first).lineage around = n.lineage around
  | mk head note children => by rw [number, lineage, lineage, lineageAll_numberAll _ _ children]

theorem lineageAll_numberAll (around : List Head) (first : Nat) :
    ∀ ns : List (Node α), lineageAll around (numberAll first ns) = lineageAll around ns
  | [] => rfl
  | n :: ns => by
    rw [numberAll, lineageAll, lineageAll, lineage_number _ _ n, lineageAll_numberAll _ _ ns]

end

mutual

theorem map_head_entries {parent : Option (Node Nat)} {enclosure : Enclosure Nat} (around : List Head)
    (h : parent.map head = around.head?) : ∀ n : Node Nat,
      (n.entries parent enclosure).map (fun entry => (entry.node.head, entry.parent.map head)) =
        (n.lineage around).map fun p => (p.1, p.2.head?)
  | mk head note children => by
    rw [entries, lineage, List.map_cons, List.map_cons, map_head_entriesAll (head :: around) rfl children, h]
    rfl

/-- What the entries say of nodes and parents is what the lineage says of them. -/
theorem map_head_entriesAll {parent : Option (Node Nat)} {enclosure : Enclosure Nat} (around : List Head)
    (h : parent.map head = around.head?) : ∀ ns : List (Node Nat),
      (entriesAll parent enclosure ns).map (fun entry => (entry.node.head, entry.parent.map head)) =
        (lineageAll around ns).map fun p => (p.1, p.2.head?)
  | [] => rfl
  | n :: ns => by
    rw [entriesAll, lineageAll, List.map_append, List.map_append, map_head_entries around h n,
      map_head_entriesAll around h ns]

end

end Node

/-! ### Tags of equations -/

namespace Equation

/-- What the nodes of the equation say by themselves, in document order, each with what those say that it lies in. -/
def lineage (q : Equation) : List (Head × List Head) := Node.lineageAll [] q.roots

/-- The tags of the unknown nodes that do not lie in an element of properties, at whatever depth. -/
def unknownTags (q : Equation) : List String :=
  (q.lineage.filter fun p => p.1.isUnknown && !p.2.any Head.isProperty).map fun p => p.1.tag

theorem map_tag_filter_isUnrecognized (q : Equation) :
    (q.outline.filter isUnrecognized).map (fun entry => entry.node.head.tag) =
      (q.lineage.filter fun p => p.1.isUnknown && !p.2.head?.any Head.isProperty).map fun p => p.1.tag := by
  have hpairs : q.outline.map (fun entry => (entry.node.head, entry.parent.map Node.head)) =
      q.lineage.map fun p => (p.1, p.2.head?) := by
    rw [lineage, ← Node.lineageAll_numberAll [] 0 q.roots]
    exact Node.map_head_entriesAll [] rfl q.numbered
  -- both sides look at nothing but what a node and its parent say by themselves
  have htags := congrArg (fun pairs => (pairs.filter fun p : Head × Option Head =>
    p.1.isUnknown && !p.2.any Head.isProperty).map fun p => p.1.tag) hpairs
  simp only [List.filter_map, List.map_map] at htags
  refine Eq.trans (congrArg _ (List.filter_congr fun entry _ => ?_)) htags
  rw [Function.comp_apply, Option.any_map]
  rfl

/-- The scan lists the unknown nodes of which the parent is no element of properties. -/
theorem listsFirsts_of_parent (q : Equation) :
    ListsFirsts ((q.lineage.filter fun p => p.1.isUnknown && !p.2.head?.any Head.isProperty).map fun p => p.1.tag)
      q.unrecognizedTags := by
  rw [← map_tag_filter_isUnrecognized]
  exact ListsFirsts.nil.foldl ((q.outline.filter isUnrecognized).map fun entry => entry.node.head.tag)

/-- If an unknown node in an element of properties stands right in one, the tags that are not recognized are those of
    the unknown nodes outside of all elements of properties, each once and in the order of their first occurrence. -/
theorem listsFirsts_unrecognizedTags {q : Equation}
    (hshallow : ∀ p ∈ q.lineage, p.1.isUnknown = true → p.2.any Head.isProperty = true →
      p.2.head?.any Head.isProperty = true) :
    ListsFirsts q.unknownTags q.unrecognizedTags := by
  have hsame : ∀ p ∈ q.lineage, (p.1.isUnknown && !p.2.head?.any Head.isProperty) =
      (p.1.isUnknown && !p.2.any Head.isProperty) := by
    intro p hp
    cases hunknown : p.1.isUnknown with
    | false => rfl
    | true =>
      have hinside : p.2.head?.any Head.isProperty = p.2.any Head.isProperty := by
        refine Bool.eq_iff_iff.mpr ⟨fun hparent => ?_, hshallow p hp hunknown⟩
        obtain ⟨head, hhead, hproperty⟩ := (Option.any_eq_true _ _).mp hparent
        exact List.any_eq_true.mpr ⟨head, List.mem_of_head? hhead, hproperty⟩
      rw [hinside]
  rw [unknownTags, ← List.filter_congr hsame]
  exact listsFirsts_of_parent q

/-- An element that stands right in one of properties is not listed by it, but is where it stands elsewhere. -/
theorem listsFirsts_unrecognizedTags_of_style :
    let style : Xml.Element := .mk ⟨some "urn:other", "rPr"⟩ [] []
    let other : Xml.Element := .mk (.math "other") [] [.element style]
    let properties : Xml.Element := .mk (.math "ctrlPr") [] [.element style]
    let root : Xml.Element := .mk (.math "oMath") [] [.element properties, .element other, .element other]
    ∃ q, ofElement 3 root = .ok q ∧ q.unrecognizedTags = ["other", "rPr"] ∧
      q.unknownTags = ["other", "rPr", "other", "rPr"] ∧
      (∀ p ∈ q.lineage, p.1.isUnknown = true → p.2.any Head.isProperty = true →
        p.2.head?.any Head.isProperty = true) ∧ ListsFirsts q.unknownTags q.unrecognizedTags := by
  intro style other properties root
  have hread : ∃ q, ofElement 3 root = .ok q ∧ q.unrecognizedTags = ["other", "rPr"] ∧
      q.unknownTags = ["other", "rPr", "other", "rPr"] ∧
      ∀ p ∈ q.lineage, p.1.isUnknown = true → p.2.any Head.isProperty = true →
        p.2.head?.any Head.isProperty = true :=
    ⟨_, rfl, by decide, by decide, by decide⟩
  obtain ⟨q, hq, htags, hunknown, hshallow⟩ := hread
  exact ⟨q, hq, htags, hunknown, hshallow, listsFirsts_unrecognizedTags hshallow⟩

/-- What stands deeper in an element of properties is listed: a style in the properties of a control character. -/
theorem unrecognizedTags_of_nested_style :
    let italic : Xml.Element := .mk ⟨some "urn:other", "i"⟩ [] []
    let style : Xml.Element := .mk ⟨some "urn:other", "rPr"⟩ [] [.element italic]
    let properties : Xml.Element := .mk (.math "ctrlPr") [] [.element style]
    let root : Xml.Element := .mk (.math "oMath") [] [.element properties]
    ∃ q, ofElement 1000 root = .ok q ∧ q.unknownTags = [] ∧ q.unrecognizedTags = ["i"] ∧
      ¬ListsFirsts q.unknownTags q.unrecognizedTags := by
  intro italic style properties root
  have hread : ∃ q, ofElement 1000 root = .ok q ∧ q.unknownTags = [] ∧ q.unrecognizedTags = ["i"] :=
    ⟨_, rfl, by decide, by decide⟩
  obtain ⟨q, hq, hunknown, htags⟩ := hread
  refine ⟨q, hq, hunknown, htags, fun h => ?_⟩
  rw [hunknown, htags] at h
  exact List.not_mem_nil ((h.mem_iff "i").mp List.mem_cons_self)

end Equation

end OfficeMath
