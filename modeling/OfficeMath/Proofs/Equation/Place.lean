import Mathlib

/-! Places in a row of trees. A place says which tree to enter, then which of its children, and so on; the places
    of all nodes, in document order, number them. Nothing here looks at what the trees are made of: they are
    given by the list of children of each. -/

namespace OfficeMath

/-- A place in a row of trees: the number of the tree, then of the child in it, and so on. -/
abbrev Place := List Nat

namespace Place

variable {σ τ : Type}

/-- One place comes before another in document order: what holds it comes first, then what is on its left. -/
def Before (p q : Place) : Prop := List.Lex (· < ·) p q

/-- The same place, with one more tree in front of the row. -/
def next : Place → Place
  | [] => []
  | k :: p => (k + 1) :: p

/-- What stands at a place inside a tree; the empty place is that of the tree itself. -/
def within? (children : τ → List τ) (t : τ) : Place → Option τ
  | [] => some t
  | k :: p => ((children t)[k]?).bind fun c => within? children c p

/-- What stands at a place in a row of trees. The row itself has no place. -/
def among? (children : τ → List τ) (ts : List τ) : Place → Option τ
  | [] => none
  | k :: p => (ts[k]?).bind fun t => within? children t p

/-! ### Looking up -/

section Lookup
variable {children : τ → List τ} {t : τ} {ts : List τ} {k : Nat} {p : Place}

@[simp] theorem within?_nil : within? children t [] = some t := rfl

@[simp] theorem among?_nil : among? children ts [] = none := rfl

theorem within?_cons : within? children t (k :: p) = among? children (children t) (k :: p) := rfl

@[simp] theorem among?_zero : among? children (t :: ts) (0 :: p) = within? children t p := rfl

@[simp] theorem among?_next : among? children (t :: ts) (next p) = among? children ts p := by
  cases p <;> rfl

theorem among?_of_nil : among? children [] p = none := by
  cases p <;> rfl

/-- The last step of a place goes to a child of what stands at the place before it. -/
theorem within?_append_singleton :
    within? children t (p ++ [k]) = (within? children t p).bind fun u => (children u)[k]? := by
  induction p generalizing t with
  | nil =>
    show ((children t)[k]?).bind _ = (children t)[k]?
    cases (children t)[k]? <;> rfl
  | cons j p ih =>
    show ((children t)[j]?).bind _ = (((children t)[j]?).bind _).bind _
    cases (children t)[j]? with
    | none => rfl
    | some c => exact ih

theorem among?_append_singleton (hp : p ≠ []) :
    among? children ts (p ++ [k]) = (among? children ts p).bind fun u => (children u)[k]? := by
  cases p with
  | nil => exact absurd rfl hp
  | cons j p =>
    show (ts[j]?).bind _ = ((ts[j]?).bind _).bind _
    cases ts[j]? with
    | none => rfl
    | some t => exact within?_append_singleton

theorem among?_singleton : among? children ts [k] = ts[k]? := by
  show (ts[k]?).bind _ = ts[k]?
  cases ts[k]? <;> rfl

theorem among?_append_isSome_iff (h : among? children ts p = some t) :
    (among? children ts (p ++ [k])).isSome ↔ k < (children t).length := by
  have hp : p ≠ [] := by
    rintro rfl
    cases h
  simp [among?_append_singleton hp, h]

theorem among?_append_isSome (h : (among? children ts (p ++ [k])).isSome) (hp : p ≠ []) :
    (among? children ts p).isSome := by
  rw [among?_append_singleton hp] at h
  cases hat : among? children ts p with
  | none => simp [hat] at h
  | some t => rfl

end Lookup

/-! ### Two rows of one shape -/

section Simulation
variable {R : σ → τ → Prop} {left : σ → List σ} {right : τ → List τ}

theorem rel_getElem? {ss : List σ} {ts : List τ} (h : List.Forall₂ R ss ts) (k : Nat) :
    Option.Rel R ss[k]? ts[k]? := by
  induction h generalizing k with
  | nil => exact .none
  | cons hst _ ih =>
    cases k with
    | zero => exact .some hst
    | succ k => exact ih k

/-- Trees that correspond, and whose children then correspond one by one, correspond at every place. -/
theorem rel_within? (hR : ∀ {s t}, R s t → List.Forall₂ R (left s) (right t)) {s : σ} {t : τ} (hst : R s t)
    (p : Place) : Option.Rel R (within? left s p) (within? right t p) := by
  induction p generalizing s t with
  | nil => exact .some hst
  | cons k p ih =>
    have hk := rel_getElem? (hR hst) k
    show Option.Rel R (((left s)[k]?).bind _) (((right t)[k]?).bind _)
    generalize (left s)[k]? = c at hk ⊢
    generalize (right t)[k]? = d at hk ⊢
    cases hk with
    | none => exact .none
    | some hcd => exact ih hcd

theorem rel_among? (hR : ∀ {s t}, R s t → List.Forall₂ R (left s) (right t)) {ss : List σ} {ts : List τ}
    (h : List.Forall₂ R ss ts) (p : Place) : Option.Rel R (among? left ss p) (among? right ts p) := by
  cases p with
  | nil => exact .none
  | cons k p =>
    have hk := rel_getElem? h k
    show Option.Rel R ((ss[k]?).bind _) ((ts[k]?).bind _)
    generalize ss[k]? = c at hk ⊢
    generalize ts[k]? = d at hk ⊢
    cases hk with
    | none => exact .none
    | some hcd => exact rel_within? hR hcd p

end Simulation

/-! ### Document order -/

theorem before_cons_cons {j k : Nat} {p q : Place} : Before (j :: p) (k :: q) ↔ j < k ∨ j = k ∧ Before p q := by
  constructor
  · intro h
    cases h with
    | rel hjk => exact .inl hjk
    | cons hpq => exact .inr ⟨rfl, hpq⟩
  · rintro (hjk | ⟨rfl, hpq⟩)
    · exact .rel hjk
    · exact .cons hpq

theorem before_cons_of_nil {k : Nat} {p : Place} : Before [] (k :: p) := .nil

theorem Before.next {p q : Place} (h : Before p q) : Before (next p) (next q) := by
  cases h with
  | nil => exact .nil
  | rel hjk => exact .rel (Nat.succ_lt_succ hjk)
  | cons hpq => exact .cons hpq

theorem before_append_singleton (p : Place) (k : Nat) : Before p (p ++ [k]) := by
  induction p with
  | nil => exact .nil
  | cons j p ih => exact .cons ih

theorem not_append_before (p q : Place) : ¬ Before (p ++ q) p := by
  induction p with
  | nil => intro h; cases h
  | cons k p ih =>
    rw [List.cons_append, before_cons_cons]
    rintro (hlt | ⟨-, h⟩)
    · exact Nat.lt_irrefl k hlt
    · exact ih h

end Place

end OfficeMath
