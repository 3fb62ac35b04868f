import Mathlib
import OfficeMath.Equation.Enclosure

/-! The parts of a construct are children of its node, and what a delimiter wraps is a child or a child of a
    child. -/

namespace OfficeMath

/-- All parts of a construct. -/
def Kind.parts {ρ : Type} : Kind ρ → List ρ
  | .generic | .run _ => []
  | .fraction _ num den => num.toList ++ den.toList
  | .radical _ base degree => base.toList ++ degree.toList
  | .script base sub sup => base.toList ++ sub.toList ++ sup.toList
  | .preScript base sub sup => base.toList ++ sub.toList ++ sup.toList
  | .delimiter _ segments => segments.flatten
  | .function name arguments => name.toList ++ arguments
  | .nary _ sub sup base => sub.toList ++ sup.toList ++ base.toList
  | .matrix rows => rows
  | .matrixRow cells => cells
  | .limit _ base mark => base.toList ++ mark.toList
  | .equationArray rows => rows
  | .accent _ base => base.toList
  | .bar _ base => base.toList
  | .box _ base => base.toList
  | .groupCharacter _ _ base => base.toList
  | .phantom _ base => base.toList

/-- A node has one tag. -/
theorem Head.eq_of_isTag {h : Head} {tag tag' : String} (htag : h.isTag tag = true) (htag' : h.isTag tag' = true) :
    tag = tag' :=
  (eq_of_beq (Bool.and_eq_true_iff.mp htag).2).symm.trans (eq_of_beq (Bool.and_eq_true_iff.mp htag').2)

namespace Node

variable {α : Type} {n c : Node α}

theorem contentChild?_of_child? {tag : String} (h : n.child? tag = some c) :
    n.contentChild? tag = if c.hasContent = true then some c else none := by
  rw [contentChild?, h, Option.filter_some]

theorem mem_children_of_contentChildren (h : c ∈ n.contentChildren) : c ∈ n.children := (List.mem_filter.mp h).1

theorem mem_children_of_contentChild? {tag : String} (h : n.contentChild? tag = some c) : c ∈ n.children :=
  List.mem_of_find?_eq_some (Option.filter_eq_some_iff.mp h).1

theorem mem_children_of_childrenTagged {tag : String} (h : c ∈ n.childrenTagged tag) : c ∈ n.children :=
  (List.mem_filter.mp h).1

theorem isTag_of_contentChild? {tag : String} (h : n.contentChild? tag = some c) : c.isTag tag = true := by
  obtain ⟨hfind, -⟩ := Option.filter_eq_some_iff.mp h
  have htag := List.find?_some hfind
  exact htag

theorem mem_contentChildren_of_segments (h : c ∈ n.segments.flatten) : c ∈ n.contentChildren := by
  obtain ⟨s, hs, hc⟩ := List.mem_flatten.mp h
  rw [← List.flatten_splitBy (fun a b => a.isLoose && b.isLoose) n.contentChildren]
  exact List.mem_flatten.mpr ⟨s, (List.mem_filter.mp hs).1, hc⟩

theorem mem_children_of_segments (h : c ∈ n.segments.flatten) : c ∈ n.children :=
  mem_children_of_contentChildren (mem_contentChildren_of_segments h)

theorem mem_segments_of_soleContent? (h : n.soleContent? = some c) : [c] ∈ n.segments := by
  unfold soleContent? at h
  split at h
  · next d hsegments =>
    cases h
    simp [hsegments]
  · cases h

theorem mem_contentChildren_of_soleContent? (h : n.soleContent? = some c) : c ∈ n.contentChildren := by
  unfold soleContent? at h
  split at h
  · next d hsegments =>
    cases h
    exact mem_contentChildren_of_segments (by simp [hsegments])
  · cases h

theorem mem_children_of_soleContent? (h : n.soleContent? = some c) : c ∈ n.children :=
  mem_children_of_contentChildren (mem_contentChildren_of_soleContent? h)

theorem mem_contentChildren_of_onlyContentChild? (h : n.onlyContentChild? = some c) : c ∈ n.contentChildren := by
  unfold onlyContentChild? at h
  split at h
  · next d hcontent =>
    cases h
    simp [hcontent]
  · cases h

theorem eq_of_mem_contentChildren (h : n.onlyContentChild? = some c) {d : Node α} (hd : d ∈ n.contentChildren) :
    d = c := by
  unfold onlyContentChild? at h
  split at h
  · next hcontent =>
    cases h
    rwa [hcontent, List.mem_singleton] at hd
  · cases h

theorem mem_children_of_onlyContentChild? (h : n.onlyContentChild? = some c) : c ∈ n.children :=
  mem_children_of_contentChildren (mem_contentChildren_of_onlyContentChild? h)

theorem mem_children_of_wrappedContent? (h : n.wrappedContent? = some c) :
    c ∈ n.children ∨ ∃ m ∈ n.children, c ∈ m.children := by
  obtain ⟨m, hm, h⟩ := Option.bind_eq_some_iff.mp h
  split at h
  · exact .inr ⟨m, mem_children_of_soleContent? hm, mem_children_of_onlyContentChild? h⟩
  · cases h
    exact .inl (mem_children_of_soleContent? hm)

theorem form_of_kind_delimiter {fence : Fence} {segments : List (List (Node α))}
    (h : n.kind = .delimiter fence segments) : n.form = .delimiter fence := by
  unfold kind at h
  split at h <;> cases h
  assumption

theorem mem_children_of_parts (h : c ∈ n.kind.parts) : c ∈ n.children := by
  have hpart : ∀ tag, n.contentChild? tag = some c → c ∈ n.children := fun _ => mem_children_of_contentChild?
  have htagged : ∀ tag, c ∈ n.childrenTagged tag → c ∈ n.children := fun _ => mem_children_of_childrenTagged
  have hsegments : c ∈ n.segments.flatten → c ∈ n.children := mem_children_of_segments
  unfold kind at h
  split at h <;> grind [Kind.parts]

end Node
end OfficeMath
