import OfficeMath.Proofs.Equation.Parts

/-! Segments of a delimiter. They hold its content without the marks between segments, in order, and what the segments
    are depends only on which nodes are loose and which are marks. -/

namespace OfficeMath

section Runs

variable {α β : Type}

/-- An item goes to the run of the next one, or makes up a run by itself. -/
theorem splitBy_cons_cons {r : α → α → Bool} (a b : α) (l : List α) :
    (a :: b :: l).splitBy r =
      if r a b then ((b :: l).splitBy r).modifyHead (a :: ·) else [a] :: (b :: l).splitBy r := by
  split
  · next hr =>
    obtain ⟨hflatten, hnil, hchain, hbreaks⟩ := List.splitBy_eq_iff.mp (rfl : (b :: l).splitBy r = _)
    generalize (b :: l).splitBy r = runs at *
    rcases runs with _ | ⟨_ | ⟨c, s⟩, runs⟩
    · cases hflatten
    · simp at hnil
    · obtain ⟨rfl, rfl⟩ : b = c ∧ l = s ++ runs.flatten := by simpa using hflatten
      simp only [List.mem_cons, forall_eq_or_imp] at hchain
      rw [List.modifyHead_cons, List.splitBy_eq_iff]
      refine ⟨by simp, by simpa using hnil, ?_, ?_⟩
      · simpa using ⟨⟨hr, hchain.1⟩, hchain.2⟩
      · cases runs with
        | nil => exact .singleton _
        | cons t runs => simpa using hbreaks
  · next hr =>
    have happend := List.splitBy_append (r := r) (l := [a]) (m := b :: l) (by simpa using hr)
    rwa [List.singleton_append, List.splitBy_of_isChain (List.cons_ne_nil a []) (.singleton a)] at happend

/-- Lists whose items correspond one by one, and break at the same items, have corresponding runs. -/
theorem forall₂_splitBy {R : α → β → Prop} (r : α → α → Bool) (r' : β → β → Bool)
    (hr : ∀ {a b c d}, R a c → R b d → r a b = r' c d) {l : List α} {l' : List β} (h : List.Forall₂ R l l') :
    List.Forall₂ (List.Forall₂ R) (l.splitBy r) (l'.splitBy r') := by
  induction h with
  | nil => exact .nil
  | @cons a c l l' hac htail ih =>
    cases htail with
    | nil => exact .cons (.cons hac .nil) .nil
    | cons hbd htail =>
      rw [splitBy_cons_cons, splitBy_cons_cons, hr hac hbd]
      split
      · generalize List.splitBy r _ = runs at ih ⊢
        generalize List.splitBy r' _ = runs' at ih ⊢
        cases ih with
        | nil => exact .nil
        | cons hs hruns => exact .cons (.cons hac hs) hruns
      · exact .cons (.cons hac .nil) ih

/-- Beside an item that goes with its neighbours, one more such item joins the run that is there: no run is added, and
    each one is as it was or has the item put in. -/
theorem forall₂_splitBy_insert {f : α → Bool} {S : List α → List α → Prop} {p : α} (hp : f p = true)
    (hrefl : ∀ s, S s s) (hcons : ∀ a s s', S s s' → S (a :: s) (a :: s')) (hput : ∀ s, S s (p :: s))
    (before after : List α) (hbeside : (before.getLast?.any f || after.head?.any f) = true) :
    List.Forall₂ S ((before ++ after).splitBy fun a b => f a && f b)
      ((before ++ p :: after).splitBy fun a b => f a && f b) := by
  have hsame (runs : List (List α)) : List.Forall₂ S runs runs := List.forall₂_same.mpr fun s _ => hrefl s
  have hmodify (a : α) {runs runs' : List (List α)} (h : List.Forall₂ S runs runs') :
      List.Forall₂ S (runs.modifyHead (a :: ·)) (runs'.modifyHead (a :: ·)) := by
    cases h with
    | nil => exact .nil
    | cons hs hruns => exact .cons (hcons a _ _ hs) hruns
  have hfront (runs : List (List α)) : List.Forall₂ S runs (runs.modifyHead (p :: ·)) := by
    cases runs with
    | nil => exact .nil
    | cons s runs => exact .cons (hput s) (hsame runs)
  induction before with
  | nil =>
    cases after with
    | nil => cases hbeside
    | cons b after =>
      have hb : f b = true := by simpa using hbeside
      rw [List.nil_append, List.nil_append, splitBy_cons_cons p b, hp, hb]
      exact hfront _
  | cons a before ih =>
    cases before with
    | cons b before =>
      have ih := ih (by simpa using hbeside)
      rw [List.cons_append, List.cons_append, List.cons_append, List.cons_append, splitBy_cons_cons a b,
        splitBy_cons_cons a b]
      split
      · exact hmodify a ih
      · exact .cons (hrefl [a]) ih
    | nil =>
      rw [List.singleton_append, List.singleton_append, splitBy_cons_cons a p, hp, Bool.and_true]
      cases after with
      | nil =>
        have ha : f a = true := by simpa using hbeside
        rw [ha]
        exact .cons (hcons a [] [p] (hput [])) .nil
      | cons b after =>
        rw [splitBy_cons_cons a b, splitBy_cons_cons p b, hp, Bool.true_and]
        cases ha : f a with
        | false =>
          have hb : f b = true := by simpa [ha] using hbeside
          rw [hb]
          exact .cons (hrefl [a]) (hfront _)
        | true =>
          cases f b with
          | false => exact .cons (hcons a [] [p] (hput [])) (hsame _)
          | true => exact hmodify a (hfront _)

/-- Between items that do not go with their neighbours, one more item makes up a run by itself. -/
theorem splitBy_insert {f : α → Bool} (p : α) (before after : List α)
    (h : (before.getLast?.any f || after.head?.any f) = false) :
    ((before ++ after).splitBy fun a b => f a && f b) =
        (before.splitBy fun a b => f a && f b) ++ after.splitBy (fun a b => f a && f b) ∧
      ((before ++ p :: after).splitBy fun a b => f a && f b) =
        (before.splitBy fun a b => f a && f b) ++ [p] :: after.splitBy (fun a b => f a && f b) := by
  obtain ⟨hlast, hfirst⟩ := Bool.or_eq_false_iff.mp h
  have hlast : ∀ a ∈ before.getLast?, f a = false := fun a ha => by
    rwa [Option.mem_def.mp ha, Option.any_some] at hlast
  have hfirst : ∀ a ∈ after.head?, f a = false := fun a ha => by
    rwa [Option.mem_def.mp ha, Option.any_some] at hfirst
  have hp : ((p :: after).splitBy fun a b => f a && f b) = [p] :: after.splitBy fun a b => f a && f b := by
    rw [← List.singleton_append, List.splitBy_append, List.splitBy_of_isChain (List.cons_ne_nil p []) (.singleton p)]
    · rfl
    · exact fun a _ b hb => by rw [hfirst b hb, Bool.and_false]
  constructor
  · exact List.splitBy_append fun a ha b _ => by rw [hlast a ha, Bool.false_and]
  · rw [List.splitBy_append fun a ha b _ => by rw [hlast a ha, Bool.false_and], hp]

end Runs

namespace Node

variable {α : Type} {n c : Node α}

/-- The node is a mark between segments of a delimiter. -/
def isMark (n : Node α) : Bool := n.isTag "sep"

theorem isMark_of_isTag {tag : String} (htag : c.isTag tag = true) (hne : tag ≠ "sep") : c.isMark = false :=
  Bool.eq_false_iff.mpr fun hmark => hne (Head.eq_of_isTag htag hmark)

theorem isMark_of_isLoose (h : c.isLoose = true) : c.isMark = false := by
  unfold isLoose at h
  simpa [isMark] using (Bool.and_eq_true_iff.mp h).2

/-- A mark is alone in its run. -/
theorem eq_singleton_of_mark {ns s : List (Node α)}
    (hs : s ∈ ns.splitBy fun a b => a.isLoose && b.isLoose) (hmark : s.any isMark = true) : ∃ c, s = [c] := by
  have hchain := List.isChain_of_mem_splitBy hs
  rcases s with _ | ⟨a, _ | ⟨b, s⟩⟩
  · cases hmark
  · exact ⟨a, rfl⟩
  · -- in a run of two or more all are loose
    exfalso
    have hloose : ∀ {a : Node α} {s}, (a :: s).IsChain (fun x y => (x.isLoose && y.isLoose) = true) →
        a.isLoose = true → (a :: s).any isMark = false := by
      intro a s
      induction s generalizing a with
      | nil => simpa using fun ha => isMark_of_isLoose ha
      | cons b s ih =>
        intro hchain ha
        obtain ⟨hab, hchain⟩ := List.isChain_cons_cons.mp hchain
        rw [List.any_cons, isMark_of_isLoose ha, ih hchain (Bool.and_eq_true_iff.mp hab).2, Bool.or_false]
    have ha := (Bool.and_eq_true_iff.mp (List.isChain_cons_cons.mp hchain).1).1
    rw [hloose hchain ha] at hmark
    cases hmark

/-- The segments hold the content of the delimiter without the marks. -/
theorem flatten_segments (n : Node α) : n.segments.flatten = n.contentChildren.filter fun c => !c.isMark := by
  have hruns : ∀ s ∈ n.contentChildren.splitBy fun a b => a.isLoose && b.isLoose,
      s.filter (fun c => !c.isMark) = if s.any isMark then [] else s := by
    intro s hs
    split
    · next hmark =>
      obtain ⟨c, rfl⟩ := eq_singleton_of_mark hs hmark
      simpa using hmark
    · next hmark =>
      simpa [List.filter_eq_self] using hmark
  conv_rhs => rw [← List.flatten_splitBy (fun a b => a.isLoose && b.isLoose) n.contentChildren, List.filter_flatten]
  rw [List.map_congr_left hruns, segments]
  generalize List.splitBy _ n.contentChildren = runs
  induction runs with
  | nil => rfl
  | cons s runs ih =>
    rw [List.map_cons, List.flatten_cons, ← ih, List.filter_cons]
    have hmark : (s.any fun c => c.isTag "sep") = s.any isMark := rfl
    rw [hmark]
    cases s.any isMark <;> simp

/-- The sole content is all the content that there is between marks. -/
theorem contentChildren_of_soleContent? (h : n.soleContent? = some c) :
    (n.contentChildren.filter fun c => !c.isMark) = [c] := by
  rw [← flatten_segments]
  unfold soleContent? at h
  split at h
  · next d hsegments =>
    cases h
    rw [hsegments]
    rfl
  · cases h

end Node

end OfficeMath
