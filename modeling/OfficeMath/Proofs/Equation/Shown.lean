import OfficeMath.Proofs.Equation.Outline
import OfficeMath.Proofs.Equation.Parts

/-! What is shown of an equation. A construct shows its parts, apart from those that it is told to hide, and none of
    them if it misses one that it cannot do without; a node that is no construct shows its content. What is shown in a
    node are the nodes to which a way of shown parts leads. -/

namespace OfficeMath

/-- The parts that the construct shows. -/
def Kind.shown {ρ : Type} : Kind ρ → List ρ
  | .fraction _ (some num) (some den) => [num, den]
  | .fraction _ _ _ => []
  | .radical hideDegree (some base) degree => base :: if hideDegree then [] else degree.toList
  | .radical _ none _ => []
  | .nary operator sub sup (some base) =>
    (if operator.hideSub then [] else sub.toList) ++ (if operator.hideSup then [] else sup.toList) ++ [base]
  | .nary _ _ _ none => []
  | kind => kind.parts

theorem Kind.mem_parts_of_shown {ρ : Type} {kind : Kind ρ} {c : ρ} (h : c ∈ kind.shown) : c ∈ kind.parts := by
  unfold Kind.shown at h
  split at h <;> grind [Kind.parts]

namespace Node

/-- What the LaTeX of the node is put together from. -/
def shownParts {α : Type} (n : Node α) : List (Node α) :=
  match n.form with
  | .generic => n.contentChildren
  | _ => n.kind.shown

theorem mem_children_of_shownParts {α : Type} {n c : Node α} (h : c ∈ n.shownParts) : c ∈ n.children := by
  unfold shownParts at h
  split at h
  · exact mem_children_of_contentChildren h
  · exact mem_children_of_parts (Kind.mem_parts_of_shown h)

/-- The child is among the parts that the node shows. -/
def shows (n c : Node Nat) : Bool := n.shownParts.any fun d => d.note == c.note

mutual

/-- The entries of the node and of what is shown in it, in document order. -/
def shownEntries (parent : Option (Node Nat)) (enclosure : Enclosure Nat) : Node Nat → List Entry
  | n@(mk _ _ children) => ⟨n, parent, enclosure⟩ :: shownAmong n enclosure children

/-- The entries of those of the children that the node shows, and of what is shown in them. -/
def shownAmong (n : Node Nat) (enclosure : Enclosure Nat) : List (Node Nat) → List Entry
  | [] => []
  | c :: cs => (if n.shows c then c.shownEntries (some n) (enclosure.inside n) else []) ++ shownAmong n enclosure cs

end

end Node

namespace Entry

variable {entry b : Entry} {c : Node Nat}

/-- The entries of what is shown in the node, which comes first itself. -/
def shown (entry : Entry) : List Entry := entry.node.shownEntries entry.parent entry.enclosure

theorem mem_shown_iff :
    b ∈ entry.shown ↔
      b = entry ∨ ∃ c ∈ entry.node.children, entry.node.shows c = true ∧ b ∈ (entry.child c).shown := by
  have hamong (n : Node Nat) (enclosure : Enclosure Nat) (cs : List (Node Nat)) :
      b ∈ n.shownAmong enclosure cs ↔
        ∃ c ∈ cs, n.shows c = true ∧ b ∈ c.shownEntries (some n) (enclosure.inside n) := by
    induction cs with
    | nil => simp [Node.shownAmong]
    | cons c cs ih =>
      rw [Node.shownAmong, List.mem_append, ih, List.exists_mem_cons_iff]
      cases n.shows c <;> simp
  obtain ⟨⟨head, id, children⟩, parent, enclosure⟩ := entry
  rw [shown, Node.shownEntries, List.mem_cons, hamong]
  rfl

theorem self_mem_shown (entry : Entry) : entry ∈ entry.shown := mem_shown_iff.mpr (.inl rfl)

theorem mem_shown_of_part (hc : c ∈ entry.node.shownParts) (hb : b ∈ (entry.child c).shown) : b ∈ entry.shown := by
  have hshows : entry.node.shows c = true := List.any_eq_true.mpr ⟨c, hc, beq_self_eq_true _⟩
  exact mem_shown_iff.mpr (.inr ⟨c, Node.mem_children_of_shownParts hc, hshows, hb⟩)

theorem shown_trans {d : Entry} (hb : b ∈ entry.shown) (hd : d ∈ b.shown) : d ∈ entry.shown := by
  induction hn : entry.node.size using Nat.strongRecOn generalizing entry with | ind _ ih =>
  subst hn
  rcases mem_shown_iff.mp hb with rfl | ⟨c, hc, hshows, hb⟩
  · exact hd
  · exact mem_shown_iff.mpr (.inr ⟨c, hc, hshows, ih _ (Node.size_lt_of_mem_children hc) hb rfl⟩)

theorem size_le_of_mem_shown (hb : b ∈ entry.shown) : b.node.size ≤ entry.node.size := by
  induction hn : entry.node.size using Nat.strongRecOn generalizing entry with | ind _ ih =>
  subst hn
  rcases mem_shown_iff.mp hb with rfl | ⟨c, hc, -, hb⟩
  · exact Nat.le_refl _
  · have hlt := Node.size_lt_of_mem_children hc
    exact Nat.le_trans (ih c.size hlt hb rfl) (Nat.le_of_lt hlt)

end Entry

namespace Equation

variable {q : Equation} {entry b : Entry}

theorem mem_outline_of_mem_shown (hentry : entry ∈ q.outline) (hb : b ∈ entry.shown) : b ∈ q.outline := by
  induction hn : entry.node.size using Nat.strongRecOn generalizing entry with | ind _ ih =>
  subst hn
  rcases Entry.mem_shown_iff.mp hb with rfl | ⟨c, hc, -, hb⟩
  · exact hentry
  · exact ih _ (Node.size_lt_of_mem_children hc) (child_mem_outline hentry hc) hb rfl

/-- The entries of what is shown of the equation. -/
def shown (q : Equation) : List Entry := q.numbered.flatMap (Node.shownEntries none .none)

end Equation

end OfficeMath
