import OfficeMath.Proofs.Typeset.IdleProperty

/-! Elements that are no constructs only pass on what they hold, however they are nested. The LaTeX of an `oMath` is
    that of the constructs in it, joined in their order, as long as no property stands among the elements around
    them and none of their LaTeX ends in a backslash. -/

namespace OfficeMath

open Xml (map_eq_ok_iff)

namespace Xml

/-- The element is one of properties. -/
def Element.isProperty (e : Element) : Bool := e.isMath && isPropertyTag e.tag

mutual

/-- The constructs that an element is made of: the element itself if it is one, or else those of the elements in
    it. -/
def Element.constructs : Element → List Element
  | e@(.mk _ _ content) => if (Form.construct? e).isSome then [e] else Content.constructsAll content

/-- The constructs that items are made of, in order. -/
def Content.constructsAll : List Content → List Element
  | [] => []
  | .element e :: content => e.constructs ++ Content.constructsAll content
  | _ :: content => Content.constructsAll content

end

mutual

/-- No property stands outside of the constructs that the element is made of. -/
def Element.passesOn : Element → Bool
  | e@(.mk _ _ content) => (Form.construct? e).isSome || !e.isProperty && Content.passOnAll content

/-- No property stands outside of the constructs that the items are made of. -/
def Content.passOnAll : List Content → Bool
  | [] => true
  | .element e :: content => e.passesOn && Content.passOnAll content
  | _ :: content => Content.passOnAll content

end

theorem Element.isTag_oMath_of_construct? {e : Element} (h : (Form.construct? e).isSome = true) :
    e.isTag "oMath" = false := by
  rw [Bool.eq_false_iff]
  intro hmath
  obtain ⟨-, htag⟩ := Bool.and_eq_true_iff.mp hmath
  have htag : Construct.ofTag? e.tag = none := by
    rw [eq_of_beq htag]
    exact ofTag?_eq_none_of_container (by decide)
  unfold Form.construct? at h
  split at h
  · rw [htag] at h
    cases h
  · cases h

theorem Element.not_isProperty_of_construct? {e : Element} (h : (Form.construct? e).isSome = true) :
    e.isProperty = false := by
  obtain ⟨c, hc⟩ := Option.isSome_iff_exists.mp h
  unfold Form.construct? at hc
  split at hc
  · rw [isProperty, isPropertyTag_eq_false hc, Bool.and_false]
  · cases hc

end Xml

namespace Node

variable {α : Type} {choice : ArrayEnvironment}

/-- The LaTeX of the tree by itself. -/
def ownLatex (choice : ArrayEnvironment) (n : Node α) : String := (n.typeset choice .none).note

/-- A node that is no construct passes on the LaTeX of the nodes right below it. -/
theorem ownLatex_of_generic {head : Head} {note : α} {children : List (Node α)} (h : head.form = .generic)
    (hchildren : ∀ n ∈ children, n.isProperty = false) :
    (mk head note children).ownLatex choice = Latex.joinFragments (children.map (ownLatex choice)) := by
  have hinside : Enclosure.none.inside (mk head note children) = .none := by
    unfold Enclosure.inside form
    rw [head_mk, h]
  have hproperty (n : Node α) : (n.typeset choice .none).isProperty = n.isProperty := by
    cases n
    rfl
  rw [ownLatex, typeset, note_mk, hinside, typesetAll_eq_map, latexOf, kind, form, head_mk, h]
  dsimp only
  rw [contentChildren, children_mk, List.filter_eq_self.mpr, List.map_map]
  · rfl
  · intro m hm
    obtain ⟨n, hn, rfl⟩ := List.mem_map.mp hm
    rw [hproperty, hchildren n hn, Bool.not_false]

end Node

namespace Equation

variable {options : Options} {limit depth : Nat}

/-- The text is the LaTeX of the element by itself. -/
def IsLatexOf (options : Options) (limit : Nat) (e : Xml.Element) (latex : String) : Prop :=
  ∃ q, ofElement limit e = .ok q ∧ q.latex options = latex

theorem isLatexOf_of_read {e : Xml.Element} {n : Node Unit} (h : Node.read limit depth e = .ok n)
    (hmath : e.isTag "oMath" = false) : IsLatexOf options limit e (n.ownLatex options.equationArray) :=
  ⟨⟨[n]⟩, ofElement_of_read hmath h, latex_singleton n⟩

mutual

/-- The LaTeX of an element that passes on what it holds is joined from that of the constructs in it. -/
theorem ownLatex_of_passesOn : ∀ (e : Xml.Element) {depth : Nat} {n : Node Unit}, e.passesOn = true →
    Node.read limit depth e = .ok n →
      n.isProperty = false ∧ ∃ latexes, List.Forall₂ (IsLatexOf options limit) e.constructs latexes ∧
        ((∀ s ∈ latexes, Latex.endsInBackslash s = false) →
          n.ownLatex options.equationArray = Latex.joinFragments latexes)
  | .mk name attributes content, depth, n, hpass, hn => by
    have hread := hn
    obtain ⟨-, hhead, -⟩ := Node.read_eq_ok_iff.mp hn
    have hproperty : n.isProperty = (Xml.Element.mk name attributes content).isProperty := by
      rw [Node.isProperty, hhead]
      rfl
    rw [hproperty, Xml.Element.constructs]
    rw [Xml.Element.passesOn] at hpass
    cases hconstruct : (Form.construct? (.mk name attributes content)).isSome with
    | true =>
      have hmath := Xml.Element.isTag_oMath_of_construct? hconstruct
      refine ⟨Xml.Element.not_isProperty_of_construct? hconstruct, [n.ownLatex options.equationArray], ?_, fun _ => ?_⟩
      · rw [if_pos rfl]
        exact .cons (isLatexOf_of_read hread hmath) .nil
      · rw [Latex.joinFragments_singleton]
    | false =>
      rw [hconstruct, Bool.false_or, Bool.and_eq_true, Bool.not_eq_true'] at hpass
      have hform : (Head.ofElement (.mk name attributes content)).form = .generic := by
        rw [Option.isSome_eq_false_iff, Option.isNone_iff_eq_none] at hconstruct
        rw [Head.ofElement, Form.ofElement, hconstruct]
      rw [Node.read] at hread
      split at hread
      · cases hread
      · dsimp only at hread
        rw [hform, if_neg (by decide)] at hread
        split at hread
        · cases hread
        · next ns hns =>
          cases hread
          obtain ⟨hchildren, latexes, hlatexes, hjoin⟩ := joinFragments_of_passOnAll content hpass.2 hns
          refine ⟨hpass.1, latexes, hlatexes, fun hslash => ?_⟩
          rw [Node.ownLatex_of_generic hform hchildren, (hjoin hslash).2]

theorem joinFragments_of_passOnAll : ∀ (content : List Xml.Content) {depth : Nat} {ns : List (Node Unit)},
    Xml.Content.passOnAll content = true → Node.readAll limit depth content = .ok ns →
      (∀ n ∈ ns, n.isProperty = false) ∧
        ∃ latexes, List.Forall₂ (IsLatexOf options limit) (Xml.Content.constructsAll content) latexes ∧
          ((∀ s ∈ latexes, Latex.endsInBackslash s = false) →
            (∀ s ∈ ns.map (Node.ownLatex options.equationArray), Latex.endsInBackslash s = false) ∧
              Latex.joinFragments (ns.map (Node.ownLatex options.equationArray)) = Latex.joinFragments latexes)
  | [], _, _, _, hns => by
    cases hns
    exact ⟨List.forall_mem_nil _, [], .nil, fun _ => ⟨List.forall_mem_nil _, rfl⟩⟩
  | .element e :: content, depth, _, hpass, hns => by
    rw [Xml.Content.passOnAll, Bool.and_eq_true] at hpass
    obtain ⟨n, ms, hn, hms, rfl⟩ := Node.readAll_element_eq_ok_iff.mp hns
    obtain ⟨hproperty, latexes, hlatexes, hjoin⟩ := ownLatex_of_passesOn e hpass.1 hn
    obtain ⟨hproperties, latexes', hlatexes', hjoin'⟩ := joinFragments_of_passOnAll content hpass.2 hms
    refine ⟨List.forall_mem_cons.mpr ⟨hproperty, hproperties⟩, latexes ++ latexes',
      List.rel_append hlatexes hlatexes', fun hslash => ?_⟩
    obtain ⟨hslash, hslash'⟩ := List.forall_mem_append.mp hslash
    obtain ⟨hends, hjoin'⟩ := hjoin' hslash'
    have hend : Latex.endsInBackslash (n.ownLatex options.equationArray) = false := by
      rw [hjoin hslash]
      exact Latex.endsInBackslash_joinFragments hslash
    refine ⟨List.forall_mem_cons.mpr ⟨hend, hends⟩, ?_⟩
    rw [List.map_cons, Latex.joinFragments_cons hend, hjoin hslash, hjoin', Latex.joinFragments_append hslash]
  | .text _ :: content, _, _, hpass, hns | .comment _ :: content, _, _, hpass, hns
  | .instruction _ :: content, _, _, hpass, hns => joinFragments_of_passOnAll content hpass hns

end

variable {root root' : Xml.Element} {q q' : Equation}

theorem latex_eq_joinFragments (q : Equation) :
    q.latex options = Latex.joinFragments (q.roots.map (Node.ownLatex options.equationArray)) := by
  rw [latex, typeset, Node.typesetAll_eq_map, List.map_map]
  rfl

theorem latex_of_passOnAll (hmath : root.isTag "oMath" = true) (hpass : Xml.Content.passOnAll root.content = true)
    (hq : ofElement limit root = .ok q) :
    ∃ latexes, List.Forall₂ (IsLatexOf options limit) (Xml.Content.constructsAll root.content) latexes ∧
      ((∀ s ∈ latexes, Latex.endsInBackslash s = false) → q.latex options = latexes.foldl Latex.pushFragment "") := by
  rw [ofElement, if_pos hmath] at hq
  obtain ⟨ns, hns, rfl⟩ := map_eq_ok_iff.mp hq
  obtain ⟨-, latexes, hlatexes, hjoin⟩ := joinFragments_of_passOnAll root.content hpass hns
  refine ⟨latexes, hlatexes, fun hslash => ?_⟩
  rw [latex_eq_joinFragments, (hjoin hslash).2, Latex.joinFragments_eq]

theorem rightUnique_isLatexOf : Relator.RightUnique (IsLatexOf options limit) := by
  rintro e _ _ ⟨q, hq, rfl⟩ ⟨q', hq', rfl⟩
  rw [hq] at hq'
  cases hq'
  rfl

/-- Elements that are no constructs are not seen in the LaTeX. If no property stands among them and none of the
    constructs that they pass on has LaTeX that ends in a backslash, an `oMath` is written as these constructs by
    themselves, one pushed after the other; so whatever else passes on the same constructs is written the same. -/
theorem latex_forgets_nesting (options : Options) (hmath : root.isTag "oMath" = true)
    (hpass : Xml.Content.passOnAll root.content = true) (hq : ofElement limit root = .ok q) :
    ∃ latexes, List.Forall₂ (IsLatexOf options limit) (Xml.Content.constructsAll root.content) latexes ∧
      ((∀ s ∈ latexes, Latex.endsInBackslash s = false) →
        q.latex options = latexes.foldl Latex.pushFragment "" ∧
          ∀ root' q', root'.isTag "oMath" = true → Xml.Content.passOnAll root'.content = true →
            Xml.Content.constructsAll root'.content = Xml.Content.constructsAll root.content →
              ofElement limit root' = .ok q' → q'.latex options = q.latex options) := by
  obtain ⟨latexes, hlatexes, hlatex⟩ := latex_of_passOnAll hmath hpass hq
  refine ⟨latexes, hlatexes, fun hslash => ⟨hlatex hslash, fun root' q' hmath' hpass' hsame hq' => ?_⟩⟩
  obtain ⟨latexes', hlatexes', hlatex'⟩ := latex_of_passOnAll hmath' hpass' hq'
  have heq : latexes' = latexes := by
    rw [hsame] at hlatexes'
    exact List.right_unique_forall₂' rightUnique_isLatexOf hlatexes' hlatexes
  rw [hlatex hslash, hlatex' (heq ▸ hslash), heq]

/-- A Greek letter and two letters after it are set off alike, whether they stand in unknown elements or not. -/
theorem latex_forgets_nesting_of_insertion :
    let run (text : String) : Xml.Element := .mk (.math "r") [] [.element (.mk (.math "t") [] [.text text])]
    let unknown : Xml.Content := .element (.mk (.math "unknown") [] [.element (run "α")])
    let insertion : Xml.Content := .element (.mk ⟨some "urn:other", "ins"⟩ [] [unknown, .element (run "x")])
    let nested : Xml.Element := .mk (.math "oMath") [] [insertion, .element (run "y")]
    let flat : Xml.Element := .mk (.math "oMath") [] ([run "α", run "x", run "y"].map .element)
    ∃ q q', ofElement 6 nested = .ok q ∧ ofElement 6 flat = .ok q' ∧
      q.latex {} = ["\\alpha", "x", "y"].foldl Latex.pushFragment "" ∧ q'.latex {} = q.latex {} := by
  intro run unknown insertion nested flat
  obtain ⟨q, hq⟩ : ∃ q, ofElement 6 nested = .ok q := ⟨_, rfl⟩
  obtain ⟨q', hq'⟩ : ∃ q, ofElement 6 flat = .ok q := ⟨_, rfl⟩
  obtain ⟨latexes, hlatexes, hlatex⟩ :=
    latex_forgets_nesting {} (show nested.isTag "oMath" = true from rfl) (by decide) hq
  have hruns : List.Forall₂ (IsLatexOf {} 6) [run "α", run "x", run "y"] ["\\alpha", "x", "y"] :=
    .cons ⟨_, rfl, by decide +kernel⟩ (.cons ⟨_, rfl, by decide +kernel⟩ (.cons ⟨_, rfl, by decide +kernel⟩ .nil))
  obtain rfl := List.right_unique_forall₂' rightUnique_isLatexOf hlatexes hruns
  obtain ⟨hfold, hsame⟩ := hlatex (by decide)
  exact ⟨q, q', hq, hq', hfold, hsame flat q' rfl (by decide) rfl hq'⟩

end Equation

end OfficeMath
