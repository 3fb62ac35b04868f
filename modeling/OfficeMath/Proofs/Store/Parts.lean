import OfficeMath.Proofs.Store.Sound

/-! What a store names as the parts of a construct. The parts are looked up by number while the store is being built; in
    the store that is done each part is a child of its node, it is the first child with its tag, and that one holds
    content, and rows, cells and arguments are all the children that the construct takes, in order. -/

namespace OfficeMath
namespace Store

open Node (note)

/-! ### Children by number -/

section Children

variable (s : Store)

/-- The node with the number is the element of office math with the given tag. -/
def isTagged (tag : String) (id : Nat) : Bool := s.cells[id]?.any (·.isTag tag)

/-- The node with the number is no element of properties. -/
def countsAsContent (id : Nat) : Bool := s.cells[id]?.any (!·.isProperty)

/-- The node with the number has a child that is no element of properties. -/
def holdsContent (id : Nat) : Bool := s.cells[id]?.any (·.children.any s.countsAsContent)

/-- Of the nodes with the given numbers, this is the first one that has the tag. -/
def IsFirst (ids : List Nat) (tag : String) (id : Nat) : Prop :=
  ∃ before after, ids = before ++ id :: after ∧ s.isTagged tag id = true ∧ ∀ i ∈ before, s.isTagged tag i = false

/-- The part is the first node that has the tag, if that one holds content, and it is missing if not. -/
def NamesFirst (ids : List Nat) (tag : String) (part : Option Nat) : Prop :=
  ∀ id, part = some id ↔ s.IsFirst ids tag id ∧ s.holdsContent id = true

/-- The construct takes its parts from the children with the given numbers: one part of each tag that it knows, or
    all children of a tag, empty cells included. -/
def NamesParts (ids : List Nat) : Kind Nat → Prop
  | .generic | .run _ => True
  | .fraction _ num den => s.NamesFirst ids "num" num ∧ s.NamesFirst ids "den" den
  | .radical _ base degree => s.NamesFirst ids "e" base ∧ s.NamesFirst ids "deg" degree
  | .script base sub sup | .preScript base sub sup =>
    s.NamesFirst ids "e" base ∧ s.NamesFirst ids "sub" sub ∧ s.NamesFirst ids "sup" sup
  | .delimiter _ segments => segments.flatten = ids.filter fun id => s.countsAsContent id && !s.isTagged "sep" id
  | .function name arguments =>
    s.NamesFirst ids "fName" name ∧ arguments = ids.filter fun id => s.isTagged "e" id && s.holdsContent id
  | .nary _ sub sup base => s.NamesFirst ids "sub" sub ∧ s.NamesFirst ids "sup" sup ∧ s.NamesFirst ids "e" base
  | .matrix rows => rows = ids.filter (s.isTagged "mr")
  | .matrixRow cells => cells = ids.filter (s.isTagged "e")
  | .limit _ base limit => s.NamesFirst ids "e" base ∧ s.NamesFirst ids "lim" limit
  | .equationArray rows => rows = ids.filter fun id => s.isTagged "e" id && s.holdsContent id
  | .accent _ base | .bar _ base | .box _ base | .groupCharacter _ _ base | .phantom _ base => s.NamesFirst ids "e" base

end Children

/-! ### Numbers of nodes -/

variable {s : Store} {n m : Node Nat} {parent : Option Nat}

theorem isTagged_note (h : s.cell m.note = .ok (m.cell parent)) (tag : String) :
    s.isTagged tag m.note = m.isTag tag := by
  rw [isTagged, cell_eq_ok_iff.mp h]
  rfl

theorem countsAsContent_note (h : s.cell m.note = .ok (m.cell parent)) :
    s.countsAsContent m.note = !m.isProperty := by
  rw [countsAsContent, cell_eq_ok_iff.mp h]
  rfl

theorem holdsContent_note (h : s.Lists n) : s.holdsContent n.note = n.hasContent := by
  obtain ⟨⟨c, hcell, hids⟩, hchildren⟩ := h
  rw [holdsContent, cell_eq_ok_iff.mp hcell, Option.any_some, hids]
  exact any_map_note fun m hm => countsAsContent_note (hchildren m hm)

section Lists

variable (h : s.Lists n) (hchildren : ∀ m ∈ n.children, s.Lists m)

include h hchildren

theorem namesFirst_contentChild? (tag : String) :
    s.NamesFirst (n.children.map note) tag ((n.contentChild? tag).map note) := by
  have htag : ∀ m ∈ n.children, s.isTagged tag m.note = m.isTag tag := fun m hm => isTagged_note (h.children m hm) tag
  intro id
  constructor
  · intro hpart
    obtain ⟨c, hc, rfl⟩ := Option.map_eq_some_iff.mp hpart
    obtain ⟨hfind, hcontent⟩ := Option.filter_eq_some_iff.mp hc
    have hmem : c ∈ n.children := List.mem_of_find?_eq_some hfind
    obtain ⟨hc, before, after, hsplit, hbefore⟩ := List.find?_eq_some_iff_append.mp hfind
    refine ⟨⟨before.map note, after.map note, by rw [hsplit, List.map_append, List.map_cons], ?_, ?_⟩, ?_⟩
    · rw [htag c hmem, hc]
    · intro i hi
      obtain ⟨m, hm, rfl⟩ := List.mem_map.mp hi
      rw [htag m (hsplit ▸ List.mem_append_left _ hm)]
      simpa using hbefore m hm
    · rw [holdsContent_note (hchildren c hmem), hcontent]
  · rintro ⟨⟨before, after, hids, hid, hbefore⟩, hcontent⟩
    obtain ⟨ms, cs, hsplit, rfl, hcs⟩ := List.map_eq_append_iff.mp hids
    obtain ⟨c, ms', rfl, rfl, -⟩ := List.map_eq_cons_iff.mp hcs
    have hmem : c ∈ n.children := hsplit ▸ List.mem_append_right ms List.mem_cons_self
    have hfind : n.child? tag = some c := by
      refine List.find?_eq_some_iff_append.mpr ⟨by rw [← htag c hmem, hid], ms, ms', hsplit, fun m hm => ?_⟩
      rw [← htag m (hsplit ▸ List.mem_append_left _ hm), hbefore _ (List.mem_map_of_mem hm)]
      rfl
    rw [holdsContent_note (hchildren c hmem)] at hcontent
    rw [Node.contentChild?, hfind, Option.filter_some, if_pos hcontent, Option.map_some]

omit hchildren in
theorem map_note_childrenTagged (tag : String) :
    (n.childrenTagged tag).map note = (n.children.map note).filter (s.isTagged tag) :=
  (filter_map_note fun m hm => isTagged_note (h.children m hm) tag).symm

theorem map_note_contentChildrenTagged (tag : String) :
    ((n.childrenTagged tag).filter Node.hasContent).map note =
      (n.children.map note).filter fun id => s.isTagged tag id && s.holdsContent id := by
  have htest : ∀ m ∈ n.children,
      (s.isTagged tag m.note && s.holdsContent m.note) = (m.isTag tag && m.hasContent) := fun m hm => by
    rw [isTagged_note (h.children m hm), holdsContent_note (hchildren m hm)]
  rw [filter_map_note htest, Node.childrenTagged, List.filter_filter]
  simp only [Bool.and_comm]

omit hchildren in
theorem map_note_segments : (n.segments.map (List.map note)).flatten =
    (n.children.map note).filter fun id => s.countsAsContent id && !s.isTagged "sep" id := by
  have htest : ∀ m ∈ n.children,
      (s.countsAsContent m.note && !s.isTagged "sep" m.note) = (!m.isProperty && !m.isMark) := fun m hm => by
    rw [countsAsContent_note (h.children m hm), isTagged_note (h.children m hm), Node.isMark]
  rw [← List.map_flatten, Node.flatten_segments, filter_map_note htest, Node.contentChildren, List.filter_filter]
  simp only [Bool.and_comm]

/-- The parts that the tree has are those that the children have by number. -/
theorem namesParts_kind : s.NamesParts (n.children.map note) (n.kind.map note) := by
  have hpart : ∀ tag, s.NamesFirst (n.children.map note) tag ((n.contentChild? tag).map note) :=
    namesFirst_contentChild? h hchildren
  unfold Node.kind
  cases n.form with
  | generic => trivial
  | run r => trivial
  | fraction style => exact ⟨hpart "num", hpart "den"⟩
  | radical hideDegree => exact ⟨hpart "e", hpart "deg"⟩
  | script => exact ⟨hpart "e", hpart "sub", hpart "sup"⟩
  | preScript => exact ⟨hpart "e", hpart "sub", hpart "sup"⟩
  | delimiter fence => exact map_note_segments h
  | function => exact ⟨hpart "fName", map_note_contentChildrenTagged h hchildren "e"⟩
  | nary operator => exact ⟨hpart "sub", hpart "sup", hpart "e"⟩
  | matrix => exact map_note_childrenTagged h "mr"
  | matrixRow => exact map_note_childrenTagged h "e"
  | limit upper => exact ⟨hpart "e", hpart "lim"⟩
  | equationArray => exact map_note_contentChildrenTagged h hchildren "e"
  | accent mark => exact hpart "e"
  | bar position => exact hpart "e"
  | box bordered => exact hpart "e"
  | groupCharacter sign position => exact hpart "e"
  | phantom isShown => exact hpart "e"

end Lists

/-! ### Stores of elements -/

variable {limit id : Nat} {e : Xml.Element} {c : Cell}

/-- In the store of an element every construct has as its parts the children of its node that it takes by their tags,
    and no part of it is anything but a child of its node. -/
theorem namesParts_of_ofElement (h : ofElement limit e = .ok s) (hcell : s.cell id = .ok c) :
    s.NamesParts c.children c.kind ∧ c.kind.parts ⊆ c.children := by
  obtain ⟨q, -, -, rfl⟩ := ofElement_eq_ok_iff.mp h
  obtain ⟨entry, hentry, rfl, rfl⟩ := exists_entry_of_cell hcell
  have hlists := Equation.lists_store hentry
  refine ⟨namesParts_kind hlists fun m hm => Equation.lists_child hentry hm, fun i hi => ?_⟩
  have hi : i ∈ (entry.node.kind.map note).parts := hi
  rw [Kind.parts_map] at hi
  obtain ⟨m, hm, rfl⟩ := List.mem_map.mp hi
  exact List.mem_map_of_mem (Node.mem_children_of_parts hm)

/-- A fraction with two numerators, of which only the second one has content, is one without a numerator. -/
theorem namesParts_of_ofElement_of_second_numerator :
    let run : Xml.Content := .element (Xml.Element.math "r")
    let part (tag : String) (content : List Xml.Content) : Xml.Content := .element (.mk (.math tag) [] content)
    let fraction : Xml.Element := .mk (.math "f") [] [part "num" [], part "num" [run], part "den" [run]]
    ∃ s c, ofElement 3 fraction = .ok s ∧ s.cell 0 = .ok c ∧ c.children = [1, 2, 4] ∧
      c.kind = .fraction .bar none (some 4) ∧ s.NamesParts c.children c.kind ∧ c.kind.parts ⊆ c.children := by
  intro run part fraction
  have hbuilt : ∃ s c, ofElement 3 fraction = .ok s ∧ s.cell 0 = .ok c ∧ c.children = [1, 2, 4] ∧
      c.kind = .fraction .bar none (some 4) := by
    dsimp only [fraction, part, run]
    exact ⟨_, ⟨"f", true, none, [1, 2, 4], .fraction .bar none (some 4)⟩,
      ofElement_eq_ok_iff.mpr ⟨_, rfl, by decide, rfl⟩, rfl, rfl, rfl⟩
  obtain ⟨s, c, hs, hcell, hids, hkind⟩ := hbuilt
  exact ⟨s, c, hs, hcell, hids, hkind, namesParts_of_ofElement hs hcell⟩

end Store
end OfficeMath
