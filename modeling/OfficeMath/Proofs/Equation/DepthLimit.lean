import OfficeMath.Proofs.Equation.Reading

/-! The limit on the depth of an equation. An element is read exactly if all elements that become nodes stand above the
    limit; one that stands too deep is refused wherever it stands, and what is read does not depend on the limit. What a
    run holds does not count, nor does an `oMath` around an equation. -/

namespace OfficeMath

/-! ### Where elements stand -/

namespace Xml.Element

/-- The element stands in the root at the depth, and nothing that it stands in is a run. -/
inductive StandsIn (root : Element) : Nat → Element → Prop
  | root : StandsIn root 0 root
  | part {depth : Nat} {e c : Element} (h : StandsIn root depth e) (hc : c ∈ e.parts) : StandsIn root (depth + 1) c

/-- The element at the depth in the root becomes a node: it is in no run, and it is no `oMath` around the equation. -/
def Builds (root : Element) (depth : Nat) (e : Element) : Prop :=
  root.StandsIn depth e ∧ (root.isTag "oMath" = true → depth ≠ 0)

/-- All elements that become nodes stand above the limit. -/
def FitsIn (limit : Nat) (root : Element) : Prop := ∀ depth e, root.Builds depth e → depth < limit

variable {root e c : Element} {depth : Nat}

theorem StandsIn.of_part (hc : c ∈ root.parts) (h : c.StandsIn depth e) : root.StandsIn (depth + 1) e := by
  induction h with
  | root => exact .part .root hc
  | part _ hpart ih => exact .part ih hpart

theorem standsIn_succ_iff : root.StandsIn (depth + 1) e ↔ ∃ c ∈ root.parts, c.StandsIn depth e := by
  constructor
  · intro h
    induction depth generalizing e with
    | zero =>
      obtain _ | ⟨h, hpart⟩ := h
      cases h
      exact ⟨e, hpart, .root⟩
    | succ depth ih =>
      obtain _ | ⟨h, hpart⟩ := h
      obtain ⟨c, hc, hstands⟩ := ih h
      exact ⟨c, hc, .part hstands hpart⟩
  · rintro ⟨c, hc, h⟩
    exact h.of_part hc

theorem parts_of_math (h : root.isTag "oMath" = true) : root.parts = root.elements := by
  have hrun : root.isTag "r" = false := by
    obtain ⟨-, htag⟩ := Bool.and_eq_true_iff.mp h
    rw [isTag, eq_of_beq htag, beq_eq_false_iff_ne.mpr (by decide), Bool.and_false]
  rw [parts, hrun, if_neg Bool.false_ne_true]

/-- What becomes a node stands in one of the trees of the equation. -/
theorem builds_iff : root.Builds depth e ↔ ∃ c ∈ root.forest, ∃ d, c.StandsIn d e ∧ depth = root.forestDepth + d := by
  unfold Builds forest forestDepth
  cases hmath : root.isTag "oMath" with
  | false => simp
  | true =>
    rw [if_pos rfl, if_pos rfl, ← parts_of_math hmath]
    cases depth with
    | zero => simp [eq_comm (a := 0)]
    | succ depth => simp [standsIn_succ_iff, Nat.add_comm 1]

end Xml.Element

/-! ### Reading -/

theorem exists_of_forall₂ {α β : Type} {R : α → β → Prop} {as : List α} {bs : List β} {a : α}
    (h : List.Forall₂ R as bs) (ha : a ∈ as) : ∃ b, R a b := by
  induction h with
  | nil => cases ha
  | @cons a' b as bs hab _ ih =>
    rcases List.mem_cons.mp ha with rfl | ha
    · exact ⟨b, hab⟩
    · exact ih ha

namespace Node

variable {limit limit' depth depth' : Nat}

/-- In an element that is read nothing stands at the limit or below it. -/
theorem lt_of_read {e x : Xml.Element} {n : Node Unit} {d : Nat} (h : read limit depth e = .ok n)
    (hx : e.StandsIn d x) : depth + d < limit := by
  induction d generalizing e n depth with
  | zero => exact (read_eq_ok_iff.mp h).1
  | succ d ih =>
    obtain ⟨c, hc, hx⟩ := Xml.Element.standsIn_succ_iff.mp hx
    obtain ⟨-, -, hparts⟩ := read_eq_ok_iff.mp h
    obtain ⟨m, hm⟩ := exists_of_forall₂ hparts hc
    have hlt := ih hm hx
    omega

mutual

/-- An element that is not read is too deep, since some element in it stands at the limit or below it. -/
theorem exists_of_read_eq_error : ∀ (e : Xml.Element) {depth : Nat} {error : Error}, read limit depth e = .error error →
    error = .tooDeep limit ∧ ∃ d x, e.StandsIn d x ∧ limit ≤ depth + d
  | .mk name attributes content, depth, error, h => by
    rw [read] at h
    split at h
    · next hlimit =>
      cases h
      exact ⟨rfl, 0, _, .root, hlimit⟩
    · dsimp only at h
      split at h
      · cases h
      · next hrun =>
        have hparts : (Xml.Element.mk name attributes content).parts = content.filterMap Xml.Content.element? := by
          have htag : (Xml.Element.mk name attributes content).isTag "r" = false := by
            rw [← Form.isRun_ofElement]
            exact Bool.eq_false_iff.mpr hrun
          rw [Xml.Element.parts, htag]
          rfl
        split at h
        · next hread =>
          cases h
          obtain ⟨rfl, c, hc, d, x, hx, hle⟩ := exists_of_readAll_eq_error content hread
          exact ⟨rfl, d + 1, x, hx.of_part (hparts ▸ hc), by omega⟩
        · cases h

theorem exists_of_readAll_eq_error : ∀ (content : List Xml.Content) {depth : Nat} {error : Error},
    readAll limit depth content = .error error →
      error = .tooDeep limit ∧ ∃ c ∈ content.filterMap Xml.Content.element?, ∃ d x, c.StandsIn d x ∧ limit ≤ depth + d
  | .element e :: content, depth, error, h => by
    have hcons : (Xml.Content.element e :: content).filterMap Xml.Content.element? =
        e :: content.filterMap Xml.Content.element? := rfl
    rw [hcons]
    rcases readAll_element_eq_error_iff.mp h with hread | ⟨-, -, hread⟩
    · obtain ⟨herror, hdeep⟩ := exists_of_read_eq_error e hread
      exact ⟨herror, e, List.mem_cons_self, hdeep⟩
    · obtain ⟨herror, c, hc, hdeep⟩ := exists_of_readAll_eq_error content hread
      exact ⟨herror, c, List.mem_cons_of_mem e hc, hdeep⟩
  | .text _ :: content, _, _, h | .comment _ :: content, _, _, h | .instruction _ :: content, _, _, h =>
    exists_of_readAll_eq_error content h

end

mutual

/-- What is read of an element does not depend on the limit. -/
theorem read_unique : ∀ (n : Node Unit) {e : Xml.Element} {n' : Node Unit} {depth depth' : Nat},
    read limit depth e = .ok n → read limit' depth' e = .ok n' → n = n'
  | mk head () children, e, mk head' () children', depth, depth', h, h' => by
    obtain ⟨-, hhead, hparts⟩ := read_eq_ok_iff.mp h
    obtain ⟨-, hhead', hparts'⟩ := read_eq_ok_iff.mp h'
    rw [head_mk] at hhead hhead'
    rw [hhead, hhead', forall₂_read_unique children hparts hparts']
    rfl

theorem forall₂_read_unique : ∀ (ns : List (Node Unit)) {es : List Xml.Element} {ns' : List (Node Unit)}
    {depth depth' : Nat}, List.Forall₂ (fun e n => read limit depth e = .ok n) es ns →
      List.Forall₂ (fun e n => read limit' depth' e = .ok n) es ns' → ns = ns'
  | [], _, _, _, _, .nil, .nil => rfl
  | n :: ns, _, _, _, _, .cons hn hns, .cons hn' hns' => by
    rw [read_unique n hn hn', forall₂_read_unique ns hns hns']

end

end Node

namespace Equation

variable {limit limit' : Nat} {root : Xml.Element} {q q' : Equation}

theorem fitsIn_of_ofElement (h : ofElement limit root = .ok q) : root.FitsIn limit := by
  intro depth e he
  obtain ⟨c, hc, d, hstands, rfl⟩ := Xml.Element.builds_iff.mp he
  obtain ⟨n, hn⟩ := exists_of_forall₂ (forall₂_forest h) hc
  exact Node.lt_of_read hn hstands

theorem not_fitsIn_of_ofElement {error : Error} (h : ofElement limit root = .error error) :
    error = .tooDeep limit ∧ ¬root.FitsIn limit := by
  have hdeep : error = .tooDeep limit ∧
      ∃ c ∈ root.forest, ∃ d x, c.StandsIn d x ∧ limit ≤ root.forestDepth + d := by
    unfold ofElement at h
    unfold Xml.Element.forest Xml.Element.forestDepth
    split at h
    · next hmath =>
      rw [if_pos hmath, if_pos hmath]
      exact Node.exists_of_readAll_eq_error root.content (Xml.map_eq_error_iff.mp h)
    · next hmath =>
      rw [if_neg hmath, if_neg hmath]
      obtain ⟨herror, hdeep⟩ := Node.exists_of_read_eq_error root (Xml.map_eq_error_iff.mp h)
      exact ⟨herror, root, List.mem_singleton_self root, hdeep⟩
  obtain ⟨herror, c, hc, d, x, hstands, hle⟩ := hdeep
  refine ⟨herror, fun hfits => ?_⟩
  have hlt := hfits (root.forestDepth + d) x (Xml.Element.builds_iff.mpr ⟨c, hc, d, hstands, rfl⟩)
  omega

theorem ofElement_unique (h : ofElement limit root = .ok q) (h' : ofElement limit' root = .ok q') : q = q' := by
  obtain ⟨roots⟩ := q
  obtain ⟨roots'⟩ := q'
  rw [Node.forall₂_read_unique roots (forall₂_forest h) (forall₂_forest h')]

/-- An element has one equation, which is read with any limit that the element fits in, and with no other. -/
theorem exists_ofElement_iff (root : Xml.Element) : ∃ q, ∀ limit,
    (root.FitsIn limit → ofElement limit root = .ok q) ∧
      (¬root.FitsIn limit → ofElement limit root = .error (.tooDeep limit)) := by
  obtain ⟨q, hq⟩ := exists_ofElement (e := root) (Nat.le_refl root.depth)
  refine ⟨q, fun limit => ?_⟩
  cases h : ofElement limit root with
  | ok q' => exact ⟨fun _ => by rw [ofElement_unique h hq], fun hdeep => absurd (fitsIn_of_ofElement h) hdeep⟩
  | error error =>
    obtain ⟨rfl, hdeep⟩ := not_fitsIn_of_ofElement h
    exact ⟨fun hfits => absurd hfits hdeep, fun _ => rfl⟩

end Equation

end OfficeMath
