import OfficeMath.Convert
import OfficeMath.Proofs.Equation.FormSource
import OfficeMath.Proofs.Equation.Reading
import OfficeMath.Proofs.Latex.Fragments
import OfficeMath.Proofs.Typeset.Bare
import OfficeMath.Proofs.Xml.Inserted

/-! Properties that no construct reads. Whatever such an element of properties holds, it can be put in anywhere below
    an element, and among the items of the element itself unless that is an `oMath`, and the LaTeX stays the same. The
    items of an `oMath` are all written, with the elements of properties among them. -/

namespace OfficeMath

open Xml (map_eq_ok_iff Inserted)

variable {p e e' : Xml.Element} {level limit depth : Nat}

namespace Xml

/-- Lets through everything but the elements of properties that no construct reads. -/
def Sieve.idle : Sieve where
  keepsAttribute _ := true
  keepsContent _ _ c :=
    match c with
    | .element e => !e.isIdleProperty
    | _ => true

theorem Sieve.keepsSource_idle : Sieve.idle.KeepsSource where
  attributes _ _ := rfl
  elements _ _ e _ he := by simp [idle, he]
  texts _ := rfl

/-- An element says the same of itself when a property that no construct reads is put in. -/
theorem Inserted.head_eq (hp : p.isIdleProperty = true) (h : Inserted p level e e') :
    Head.ofElement e = Head.ofElement e' := by
  have hsift : e.sift .idle none = e'.sift .idle none :=
    h.sift_eq (fun _ _ => by simp [Sieve.idle, hp])
      (fun c c' hname _ _ => congrArg not (Element.isIdleProperty_congr hname)) none
  rw [← Sieve.keepsSource_idle.head_sift e none, hsift, Sieve.keepsSource_idle.head_sift e' none]

theorem Element.isTag_of_isIdleProperty (hp : p.isIdleProperty = true) {tag : String}
    (htag : isPropertyTag tag = false) : p.isTag tag = false := by
  rw [Bool.eq_false_iff]
  intro hp'
  simp [isIdleProperty, eq_of_beq (Bool.and_eq_true_iff.mp hp').2, htag] at hp

end Xml

namespace Node

/-- Reading goes the same way, up to elements of properties, when a property that no construct reads is put in. -/
theorem exists_read_of_inserted (hp : p.isIdleProperty = true) (h : Inserted p level e e') {n' : Node Unit}
    (hn' : read limit depth e' = .ok n') : ∃ n, read limit depth e = .ok n ∧ n.bare = n'.bare := by
  induction h generalizing depth n' with
  | here before after =>
    have hcontent (ns' : List (Node Unit))
        (hns' : readAll limit (depth + 1) (before ++ .element p :: after) = .ok ns') :
        ∃ ns, readAll limit (depth + 1) (before ++ after) = .ok ns ∧ bareAll ns = bareAll ns' := by
      obtain ⟨ms, _, hms, hrest, rfl⟩ := readAll_append_eq_ok_iff.mp hns'
      obtain ⟨m, ks, hm, hks, rfl⟩ := readAll_element_eq_ok_iff.mp hrest
      have hproperty : m.isProperty = true := by
        rw [isProperty, (read_eq_ok_iff.mp hm).2.1]
        exact (Bool.and_eq_true_iff.mp hp).1
      refine ⟨ms ++ ks, readAll_append_eq_ok_iff.mpr ⟨ms, ks, hms, hks, rfl⟩, ?_⟩
      rw [bareAll_append, bareAll_append, bareAll, if_pos hproperty]
    obtain ⟨ns, ns', rfl, hn, hbare⟩ := exists_read_of_content (S := fun ns ns' => bareAll ns = bareAll ns')
      ((Inserted.here before after).head_eq hp) rfl hcontent hn'
    exact ⟨_, hn, congrArg (mk _ ()) hbare⟩
  | @inside _ _ _ c c' before after h ih =>
    have hcontent (ns' : List (Node Unit))
        (hns' : readAll limit (depth + 1) (before ++ .element c' :: after) = .ok ns') :
        ∃ ns, readAll limit (depth + 1) (before ++ .element c :: after) = .ok ns ∧ bareAll ns = bareAll ns' := by
      obtain ⟨ms, m, m', ks, rfl, hns, hbare⟩ := exists_readAll_of_read before after (fun m' => ih) hns'
      refine ⟨_, hns, bareAll_congr ?_⟩
      rw [List.map_append, List.map_append, List.map_cons, List.map_cons, hbare]
    obtain ⟨ns, ns', rfl, hn, hbare⟩ := exists_read_of_content (S := fun ns ns' => bareAll ns = bareAll ns')
      ((Inserted.inside before after h).head_eq hp) rfl hcontent hn'
    exact ⟨_, hn, congrArg (mk _ ()) hbare⟩

end Node

namespace Equation

variable {options : Options}

/-- A node without LaTeX of its own adds nothing to an equation of which it is a root. -/
theorem latex_insert_root {n : Node Unit} (hn : latex options ⟨[n]⟩ = "") (ms ks : List (Node Unit)) :
    latex options ⟨ms ++ n :: ks⟩ = latex options ⟨ms ++ ks⟩ := by
  rw [latex_singleton] at hn
  simp only [latex, typeset, Node.typesetAll_eq_map, List.map_append, List.map_cons, hn,
    Latex.joinFragments_insert_empty]

theorem ofElement_of_read (hp : p.isTag "oMath" = false) {n : Node Unit} (hn : Node.read limit depth p = .ok n) :
    ofElement limit p = .ok ⟨[n]⟩ := by
  rw [ofElement, hp, Node.read_of_le n hn (Nat.zero_le depth)]
  rfl

/-- A property that no construct reads can be put in without a change of the LaTeX, except that among the items of an
    `oMath` it must have no LaTeX of its own. -/
theorem latex_of_inserted (hp : p.isIdleProperty = true) (h : Inserted p level e e')
    (hroot : level = 0 → e.isTag "oMath" = true → ∀ q, ofElement limit p = .ok q → q.latex options = "")
    {q' : Equation} (hq' : ofElement limit e' = .ok q') :
    ∃ q, ofElement limit e = .ok q ∧ q.latex options = q'.latex options := by
  unfold ofElement at hq' ⊢
  rw [← h.isTag_eq] at hq'
  split at hq'
  · next hmath =>
    obtain ⟨ns', hns', rfl⟩ := map_eq_ok_iff.mp hq'
    rw [if_pos hmath]
    cases h with
    | here before after =>
      obtain ⟨ms, _, hms, hrest, rfl⟩ := Node.readAll_append_eq_ok_iff.mp hns'
      obtain ⟨m, ks, hm, hks, rfl⟩ := Node.readAll_element_eq_ok_iff.mp hrest
      have hm := ofElement_of_read (Xml.Element.isTag_of_isIdleProperty hp (by decide)) hm
      refine ⟨⟨ms ++ ks⟩, ?_, (latex_insert_root (hroot rfl hmath _ hm) ms ks).symm⟩
      exact map_eq_ok_iff.mpr ⟨_, Node.readAll_append_eq_ok_iff.mpr ⟨ms, ks, hms, hks, rfl⟩, rfl⟩
    | inside before after h =>
      obtain ⟨ms, m, m', ks, rfl, hns, hbare⟩ :=
        Node.exists_readAll_of_read before after (fun m' => Node.exists_read_of_inserted hp h) hns'
      have hroots : (ms ++ m :: ks).map Node.bare = (ms ++ m' :: ks).map Node.bare := by
        rw [List.map_append, List.map_append, List.map_cons, List.map_cons, hbare]
      exact ⟨⟨_⟩, map_eq_ok_iff.mpr ⟨_, hns, rfl⟩, latex_congr hroots options⟩
  · next hmath =>
    obtain ⟨n', hn', rfl⟩ := map_eq_ok_iff.mp hq'
    rw [if_neg hmath]
    obtain ⟨n, hn, hbare⟩ := Node.exists_read_of_inserted hp h hn'
    have hroots : [n].map Node.bare = [n'].map Node.bare := congrArg ([·]) hbare
    exact ⟨⟨[n]⟩, map_eq_ok_iff.mpr ⟨n, hn, rfl⟩, latex_congr hroots options⟩

end Equation

/-- Putting in a property that no construct reads leaves the LaTeX of an element as it is, unless it is put among the
    items of an `oMath`, where it is written like everything else. -/
theorem latexOfElement_of_inserted (hp : p.isIdleProperty = true) (h : Inserted p level e e')
    (hroot : level = 0 → e.isTag "oMath" = true → latexOfElement p = "") {q' : Equation}
    (hq' : Equation.ofElement ({} : Options).maxDepth e' = .ok q') : latexOfElement e' = latexOfElement e := by
  have hroot (hlevel : level = 0) (hmath : e.isTag "oMath" = true) (q : Equation)
      (hq : Equation.ofElement ({} : Options).maxDepth p = .ok q) : q.latex {} = "" := by
    rw [← hroot hlevel hmath, latexOfElement, hq, latexOrMarker]
  obtain ⟨q, hq, hlatex⟩ := Equation.latex_of_inserted hp h hroot hq'
  rw [latexOfElement, latexOfElement, hq, hq', latexOrMarker, latexOrMarker, hlatex]

/-- The properties of a control hold a run, which is not seen in the part of a script that they are put into. -/
theorem latexOfElement_of_inserted_in_part :
    let run (text : String) : Xml.Content :=
      .element (.mk (.math "r") [] [.element (.mk (.math "t") [] [.text text])])
    let properties : Xml.Element := .mk (.math "ctrlPr") [] [run "x"]
    let script (base : List Xml.Content) : Xml.Element :=
      .mk (.math "sSup") [] [.element (.mk (.math "e") [] base), .element (.mk (.math "sup") [] [run "2"])]
    latexOfElement (script [.element properties, run "a"]) = latexOfElement (script [run "a"]) ∧
      latexOfElement (script [run "a"]) = "\x7ba\x7d^\x7b2\x7d" := by
  intro run properties script
  have hread : ∃ q, Equation.ofElement ({} : Options).maxDepth (script [.element properties, run "a"]) = .ok q :=
    ⟨_, rfl⟩
  obtain ⟨q, hq⟩ := hread
  have hinserted : Inserted properties 1 (script [run "a"]) (script [.element properties, run "a"]) :=
    .inside [] [.element (.mk (.math "sup") [] [run "2"])] (.here [] [run "a"])
  have hidle : properties.isIdleProperty = true := by decide
  exact ⟨latexOfElement_of_inserted hidle hinserted (fun hlevel => absurd hlevel (by decide)) hq, by decide⟩

/-- Among the items of an `oMath`, the run in the properties of a control is written. -/
theorem latexOfElement_of_inserted_in_math :
    let run : Xml.Content := .element (.mk (.math "r") [] [.element (.mk (.math "t") [] [.text "x"])])
    let properties : Xml.Element := .mk (.math "ctrlPr") [] [run]
    properties.isIdleProperty = true ∧
      Inserted properties 0 (.mk (.math "oMath") [] []) (.mk (.math "oMath") [] [.element properties]) ∧
      latexOfElement (.mk (.math "oMath") [] []) = "" ∧
      latexOfElement (.mk (.math "oMath") [] [.element properties]) = "x" :=
  ⟨by decide, .here [] [], by decide, by decide⟩

end OfficeMath
