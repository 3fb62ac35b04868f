import OfficeMath.Proofs.Equation.Segments

/-! Nodes whose children correspond one by one. What is looked up among the children of the one corresponds to what is
    looked up among those of the other, as long as nodes that correspond say the same by themselves. -/

namespace OfficeMath

theorem isSome_eq_of_rel {ρ σ : Type} {R : ρ → σ → Prop} {a : Option ρ} {b : Option σ} (h : Option.Rel R a b) :
    a.isSome = b.isSome := by
  cases h <;> rfl

/-- Lists whose items correspond are made into the same list. -/
theorem map_eq_of_forall₂ {ρ σ τ : Type} {R : ρ → σ → Prop} {f : ρ → τ} {g : σ → τ} {as : List ρ} {bs : List σ}
    (h : List.Forall₂ R as bs) (hfg : ∀ {x y}, R x y → f x = g y) : as.map f = bs.map g := by
  induction h with
  | nil => rfl
  | cons hxy _ ih => rw [List.map_cons, List.map_cons, hfg hxy, ih]

theorem forall₂_filter {ρ σ : Type} {R : ρ → σ → Prop} {f : ρ → Bool} {g : σ → Bool} {as : List ρ} {bs : List σ}
    (hfg : ∀ {x y}, R x y → f x = g y) (h : List.Forall₂ R as bs) : List.Forall₂ R (as.filter f) (bs.filter g) :=
  List.rel_filter (fun _ _ hxy => Bool.eq_iff_iff.mp (hfg hxy)) h

/-- A list corresponds to itself with one item replaced by one that corresponds. -/
theorem forall₂_replace {ρ : Type} {R : ρ → ρ → Prop} (hrefl : ∀ x, R x x) {x y : ρ} (hxy : R x y)
    (before after : List ρ) :
    List.Forall₂ R (before ++ x :: after) (before ++ y :: after) :=
  List.rel_append (List.forall₂_same.mpr fun x _ => hrefl x) (.cons hxy (List.forall₂_same.mpr fun x _ => hrefl x))

namespace Node

variable {α β : Type} {R : Node α → Node β → Prop} {n c : Node α} {m d : Node β}

theorem isTag_eq (h : n.head = m.head) (tag : String) : n.isTag tag = m.isTag tag := congrArg (Head.isTag · tag) h

theorem isProperty_eq (h : n.head = m.head) : n.isProperty = m.isProperty := congrArg Head.isProperty h

theorem form_eq (h : n.head = m.head) : n.form = m.form := congrArg Head.form h

theorem run?_eq (h : n.head = m.head) : n.run? = m.run? := by
  rw [run?, run?, form_eq h]

theorem isLoose_eq (h : n.head = m.head) : n.isLoose = m.isLoose := by
  rw [isLoose, isLoose, isTag_eq h, isTag_eq h]

theorem absorbs_eq (h : n.head = m.head) (fence : Fence) : n.absorbs fence = m.absorbs fence := by
  rw [absorbs, absorbs, form_eq h]

section Children

variable (hhead : ∀ {c d}, R c d → c.head = d.head) (h : List.Forall₂ R n.children m.children)

include hhead h

theorem forall₂_contentChildren : List.Forall₂ R n.contentChildren m.contentChildren :=
  forall₂_filter (fun hcd => congrArg not (isProperty_eq (hhead hcd))) h

theorem hasContent_eq : n.hasContent = m.hasContent := by
  have hcontent := (forall₂_contentChildren hhead h).length_eq
  rw [Bool.eq_iff_iff, hasContent_iff, hasContent_iff, Ne, Ne, ← List.length_eq_zero_iff, hcontent,
    List.length_eq_zero_iff]

theorem rel_onlyContentChild? : Option.Rel R n.onlyContentChild? m.onlyContentChild? := by
  have hcontent := forall₂_contentChildren hhead h
  unfold onlyContentChild?
  generalize n.contentChildren = cs at hcontent ⊢
  generalize m.contentChildren = ds at hcontent ⊢
  cases hcontent with
  | nil => exact .none
  | cons hcd htail =>
    cases htail with
    | nil => exact .some hcd
    | cons _ _ => exact .none

theorem plainText?_eq (hself : n.head = m.head) : n.plainText? = m.plainText? := by
  have hcontent := forall₂_contentChildren hhead h
  unfold plainText?
  rw [run?_eq hself]
  cases m.run? with
  | some r => rfl
  | none =>
    generalize n.contentChildren = cs at hcontent ⊢
    generalize m.contentChildren = ds at hcontent ⊢
    have hmapM : cs.mapM run? = ds.mapM run? := by
      induction hcontent with
      | nil => rfl
      | cons hcd _ ih => rw [List.mapM_cons, List.mapM_cons, ih, run?_eq (hhead hcd)]
    cases hcontent with
    | nil => rfl
    | cons _ _ => exact congrArg (Option.map fun rs => String.join (rs.map Run.source)) hmapM

/-! ### Delimiters -/

theorem forall₂_segments : List.Forall₂ (List.Forall₂ R) n.segments m.segments := by
  have hruns := forall₂_splitBy (fun a b => a.isLoose && b.isLoose) (fun a b => a.isLoose && b.isLoose)
    (fun hac hbd => by rw [isLoose_eq (hhead hac), isLoose_eq (hhead hbd)]) (forall₂_contentChildren hhead h)
  refine forall₂_filter (fun {s t} hst => ?_) hruns
  have hmarks : s.map (fun c => c.isTag "sep") = t.map (fun d => d.isTag "sep") :=
    map_eq_of_forall₂ hst fun hcd => isTag_eq (hhead hcd) "sep"
  have hany : (s.any fun c => c.isTag "sep") = t.any fun d => d.isTag "sep" := by
    simpa only [List.any_map, Function.comp_def, id_eq] using congrArg (List.any · id) hmarks
  rw [hany]

theorem rel_soleContent? : Option.Rel R n.soleContent? m.soleContent? := by
  have hsegments := forall₂_segments hhead h
  unfold soleContent?
  generalize n.segments = ss at hsegments ⊢
  generalize m.segments = ts at hsegments ⊢
  rcases hsegments with _ | ⟨_ | ⟨hcd, _ | ⟨_, _⟩⟩, _ | ⟨_, _⟩⟩ <;> constructor
  exact hcd

end Children

end Node

end OfficeMath
