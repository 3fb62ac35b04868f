import Mathlib
import OfficeMath.Equation.Enclosure

/-! Equations without their elements of properties. Nothing that is asked of a node depends on those, so a node from
    which they have been taken, at every depth, is the same construct with the same parts. -/

namespace OfficeMath

theorem splitBy_map {α β : Type} (f : α → β) (r : β → β → Bool) (l : List α) :
    (l.map f).splitBy r = (l.splitBy fun a b => r (f a) (f b)).map (List.map f) := by
  have hloop (l : List α) (a : α) (g : List α) (gs : List (List α)) :
      List.splitBy.loop r (l.map f) (f a) (g.map f) (gs.map (List.map f)) =
        (List.splitBy.loop (fun a b => r (f a) (f b)) l a g gs).map (List.map f) := by
    induction l generalizing a g gs with
    | nil => simp [List.splitBy.loop]
    | cons b l ih =>
      simp only [List.map_cons, List.splitBy.loop]
      split
      · exact ih b (a :: g) gs
      · simpa using ih b [] ((a :: g).reverse :: gs)
  cases l with
  | nil => rfl
  | cons a l => exact hloop l a [] []

/-- The construct with its parts replaced. -/
def Kind.map {ρ σ : Type} (f : ρ → σ) : Kind ρ → Kind σ
  | .generic => .generic
  | .run r => .run r
  | .fraction style num den => .fraction style (num.map f) (den.map f)
  | .radical hideDegree base degree => .radical hideDegree (base.map f) (degree.map f)
  | .script base sub sup => .script (base.map f) (sub.map f) (sup.map f)
  | .preScript base sub sup => .preScript (base.map f) (sub.map f) (sup.map f)
  | .delimiter fence segments => .delimiter fence (segments.map (List.map f))
  | .function name arguments => .function (name.map f) (arguments.map f)
  | .nary operator sub sup base => .nary operator (sub.map f) (sup.map f) (base.map f)
  | .matrix rows => .matrix (rows.map f)
  | .matrixRow cells => .matrixRow (cells.map f)
  | .limit upper base mark => .limit upper (base.map f) (mark.map f)
  | .equationArray rows => .equationArray (rows.map f)
  | .accent mark base => .accent mark (base.map f)
  | .bar position base => .bar position (base.map f)
  | .box bordered base => .box bordered (base.map f)
  | .groupCharacter sign position base => .groupCharacter sign position (base.map f)
  | .phantom isShown base => .phantom isShown (base.map f)

namespace Node

variable {α : Type}

mutual

/-- The node without the elements of properties below it. -/
def bare : Node α → Node α
  | mk head note children => mk head note (bareAll children)

/-- The trees that are no elements of properties, without those below them. -/
def bareAll : List (Node α) → List (Node α)
  | [] => []
  | n :: ns => if n.isProperty then bareAll ns else n.bare :: bareAll ns

end

theorem bareAll_eq (ns : List (Node α)) : bareAll ns = (ns.filter fun n => !n.isProperty).map bare := by
  induction ns with
  | nil => rfl
  | cons n ns ih =>
    rw [bareAll, ih]
    cases h : n.isProperty <;> simp [h]

theorem bareAll_append (ns ms : List (Node α)) : bareAll (ns ++ ms) = bareAll ns ++ bareAll ms := by
  rw [bareAll_eq, bareAll_eq, bareAll_eq, List.filter_append, List.map_append]

variable {n : Node α} {tag : String}

@[simp] theorem head_bare : n.bare.head = n.head := by
  cases n
  rfl

@[simp] theorem note_bare : n.bare.note = n.note := by
  cases n
  rfl

@[simp] theorem note_comp_bare : note ∘ bare = (note : Node α → α) := funext fun _ => note_bare

@[simp] theorem form_bare : n.bare.form = n.form := congrArg Head.form head_bare

@[simp] theorem isTag_bare : n.bare.isTag tag = n.isTag tag := congrArg (Head.isTag · tag) head_bare

@[simp] theorem isProperty_bare : n.bare.isProperty = n.isProperty := congrArg Head.isProperty head_bare

theorem bareAll_congr {ns ns' : List (Node α)} (h : ns.map bare = ns'.map bare) : bareAll ns = bareAll ns' := by
  have hfilter (ns : List (Node α)) : bareAll ns = (ns.map bare).filter fun n => !n.isProperty := by
    simp [bareAll_eq, List.filter_map, Function.comp_def]
  rw [hfilter, hfilter, h]

/-! ### Parts of a node -/

theorem children_bare : n.bare.children = n.contentChildren.map bare := by
  cases n
  exact bareAll_eq _

@[simp] theorem contentChildren_bare : n.bare.contentChildren = n.contentChildren.map bare := by
  rw [contentChildren, children_bare, List.filter_map]
  simp [Function.comp_def, contentChildren, List.filter_filter]

@[simp] theorem hasContent_bare : n.bare.hasContent = n.hasContent := by
  rw [Bool.eq_iff_iff, hasContent_iff, hasContent_iff, contentChildren_bare, Ne, List.map_eq_nil_iff]

theorem isProperty_of_isTag (htag : isPropertyTag tag = false) (hn : n.isTag tag = true) : n.isProperty = false := by
  unfold isTag Head.isTag at hn
  rw [Bool.and_eq_true, beq_iff_eq] at hn
  simp [isProperty, Head.isProperty, hn.2, htag]

theorem childrenTagged_bare (htag : isPropertyTag tag = false) :
    n.bare.childrenTagged tag = (n.childrenTagged tag).map bare := by
  rw [childrenTagged, children_bare, List.filter_map, contentChildren, List.filter_filter, childrenTagged]
  congr 1
  refine List.filter_congr fun c _ => ?_
  rw [Function.comp_apply, isTag_bare]
  cases hc : c.isTag tag with
  | false => rfl
  | true => rw [isProperty_of_isTag htag hc]; rfl

theorem contentChild?_bare (htag : isPropertyTag tag = false) :
    n.bare.contentChild? tag = (n.contentChild? tag).map bare := by
  have hchild : n.bare.child? tag = (n.child? tag).map bare := by
    have h := congrArg List.head? (childrenTagged_bare (n := n) htag)
    rwa [childrenTagged, childrenTagged, List.head?_map, List.head?_filter, List.head?_filter] at h
  unfold contentChild?
  rw [hchild]
  cases n.child? tag with
  | none => rfl
  | some c => cases hc : c.hasContent <;> simp [Option.filter, hc]

theorem filter_hasContent_map_bare (ns : List (Node α)) :
    (ns.map bare).filter hasContent = (ns.filter hasContent).map bare := by
  rw [List.filter_map]
  congr 1
  exact List.filter_congr fun c _ => hasContent_bare

@[simp] theorem run?_bare : n.bare.run? = n.run? := by
  rw [run?, form_bare, run?]

@[simp] theorem plainText?_bare : n.bare.plainText? = n.plainText? := by
  have hmapM (ns : List (Node α)) : (ns.map bare).mapM run? = ns.mapM run? := by
    induction ns with
    | nil => rfl
    | cons n ns ih => rw [List.map_cons, List.mapM_cons, List.mapM_cons, ih, run?_bare]
  unfold plainText?
  rw [run?_bare, contentChildren_bare]
  cases n.run? with
  | some r => rfl
  | none => cases n.contentChildren with
    | nil => rfl
    | cons c cs => exact congrArg (Option.map fun rs => String.join (rs.map Run.source)) (hmapM (c :: cs))

/-! ### Delimiters -/

@[simp] theorem segments_bare : n.bare.segments = n.segments.map (List.map bare) := by
  have hloose (c : Node α) : c.bare.isLoose = c.isLoose := by simp [isLoose]
  unfold segments
  rw [contentChildren_bare, splitBy_map, List.filter_map]
  simp [hloose, Function.comp_def]

@[simp] theorem soleContent?_bare : n.bare.soleContent? = n.soleContent?.map bare := by
  unfold soleContent?
  rw [segments_bare]
  rcases n.segments with _ | ⟨_ | ⟨c, _ | ⟨d, cs⟩⟩, _ | ⟨s, segments⟩⟩ <;> rfl

@[simp] theorem onlyContentChild?_bare : n.bare.onlyContentChild? = n.onlyContentChild?.map bare := by
  unfold onlyContentChild?
  rw [contentChildren_bare]
  rcases n.contentChildren with _ | ⟨c, _ | ⟨d, cs⟩⟩ <;> rfl

@[simp] theorem wrappedContent?_bare : n.bare.wrappedContent? = n.wrappedContent?.map bare := by
  unfold wrappedContent?
  rw [soleContent?_bare]
  cases n.soleContent? with
  | none => rfl
  | some c =>
    rw [Option.map_some, Option.bind_some, Option.bind_some, isTag_bare, onlyContentChild?_bare]
    split <;> rfl

@[simp] theorem absorbs_bare (fence : Fence) : n.bare.absorbs fence = n.absorbs fence := by
  rw [absorbs, form_bare, absorbs]

@[simp] theorem absorbedContent?_bare (fence : Fence) :
    n.bare.absorbedContent? fence = (n.absorbedContent? fence).map bare := by
  unfold absorbedContent?
  rw [wrappedContent?_bare]
  cases n.wrappedContent? with
  | none => rfl
  | some c => cases hc : c.absorbs fence <;> simp [Option.filter, hc]

/-! ### The construct -/

/-- The node without elements of properties is the same construct, and its parts are the parts without them. -/
theorem kind_bare : n.bare.kind = n.kind.map bare := by
  unfold kind
  rw [form_bare]
  cases n.form <;>
    simp (disch := decide) only [Kind.map, contentChild?_bare, childrenTagged_bare, filter_hasContent_map_bare,
      segments_bare]

end Node

end OfficeMath
