import OfficeMath.Proofs.Typeset.Shown

/-! Arrays of equations and the choice of their environment. The LaTeX of an equation is one template for all choices,
    in which the name of the environment is left open at the marks that begin and end an array; everything else stands
    fixed. Without an array that is shown, or with distinctions of cases only, there is nothing to choose. -/

namespace OfficeMath

namespace Equation

open Latex

variable {q : Equation} {limit : Nat} {root : Xml.Element} {entry : Entry}

theorem latex_eq_join_numbered (options : Options) (q : Equation) :
    q.latex options =
      joinFragments (q.numbered.map fun n => (n.typeset options.equationArray .none).note) := by
  rw [latex, ← typeset_numbered, Node.typesetAll_eq_map, List.map_map]
  rfl

/-- The pieces for what some entries show: all characters, and marks if one of the entries is an array in an open
    environment. -/
def Writable (entries : List Entry) : Piece → Prop
  | .char _ => True
  | .mark _ => ∃ b ∈ entries, b.isOpenArray = true

theorem writes_writable {entries : List Entry} (h : entry ∈ entries) : entry.Writes (Writable entries) where
  bracket _ := trivial
  mark hopen _ := ⟨entry, h, hopen⟩

/-- The choices of a conversion change the names of environments and nothing else: the LaTeX of the equation is one
    template, into which the name is filled. How deep elements may nest plays no part, and neither does the name unless
    an array is shown in an environment that is left open. -/
theorem exists_template_latex (hq : ofElement limit root = .ok q) :
    ∃ t : Template, (∀ options, q.latex options = t.latex options.equationArray.name) ∧
      (∀ options options', options.equationArray = options'.equationArray → q.latex options = q.latex options') ∧
      ((∀ b ∈ q.shown, b.isOpenArray = false) →
        t.rest = [] ∧ ∀ options options', q.latex options = q.latex options') := by
  have htemplated := templated_latex (fun c _ => trivial) hq fun b hb => writes_writable hb
  obtain ⟨t, ht, hrest⟩ := htemplated.exists_template
  have hlatex (options : Options) : q.latex options = t.latex options.equationArray.name :=
    (latex_eq_join_numbered options q).trans (ht options.equationArray)
  refine ⟨t, hlatex, fun options options' hchoice => ?_, fun hclosed => ?_⟩
  · rw [hlatex, hlatex, hchoice]
  · have hnil : t.rest = [] := hrest fun m hmark => by
      obtain ⟨b, hb, hopen⟩ := hmark
      rw [hclosed b hb] at hopen
      cases hopen
    refine ⟨hnil, fun options options' => ?_⟩
    rw [hlatex, hlatex, Template.latex_of_rest_eq_nil hnil, Template.latex_of_rest_eq_nil hnil]

/-- It is the same with the LaTeX of a single node. -/
theorem exists_template_nodeLatex (hq : ofElement limit root = .ok q) (hentry : entry ∈ q.outline) :
    ∃ t : Template, (∀ options, q.nodeLatex options entry.id = t.latex options.equationArray.name) ∧
      ((∀ b ∈ entry.shown, b.isOpenArray = false) → t.rest = []) := by
  have htemplated := templated_typeset (fun c _ => trivial) hq hentry fun b hb => writes_writable hb
  obtain ⟨t, ht, hrest⟩ := htemplated.exists_template
  refine ⟨t, fun options => (nodeLatex_id options hentry).trans (ht options.equationArray), fun hclosed => ?_⟩
  refine hrest fun m hmark => ?_
  obtain ⟨b, hb, hopen⟩ := hmark
  rw [hclosed b hb] at hopen
  cases hopen

set_option maxRecDepth 4000 in
/-- An array in the name of a function leaves its environment open. One in a distinction of cases does not, and one that
    stands in the properties of a function is not shown. -/
theorem exists_template_latex_of_function_and_cases :
    let part (tag : String) (content : List Xml.Content) : Xml.Content := .element (.mk (.math tag) [] content)
    let property (tag value : String) : Xml.Content := .element (.mk (.math tag) [⟨.math "val", value⟩] [])
    let run (text : String) : Xml.Content := part "r" [part "t" [.text text]]
    let array : Xml.Content := part "eqArr" [part "e" [run "a"], part "e" [run "b"]]
    let cases : Xml.Content := part "d" [part "dPr" [property "begChr" "\x7b", property "endChr" ""], part "e" [array]]
    let named : Xml.Element := .mk (.math "func") [] [part "fName" [array], part "e" [cases]]
    let hidden : Xml.Element := .mk (.math "func") [] [part "funcPr" [array], part "fName" [run "f"], part "e" [cases]]
    (∃ q t, ofElement 9 named = .ok q ∧ (∀ options, q.latex options = Template.latex options.equationArray.name t) ∧
      t.rest ≠ []) ∧
    ∃ q, ofElement 9 hidden = .ok q ∧ ∀ options options', q.latex options = q.latex options' := by
  intro part property run array cases named hidden
  constructor
  · have hread : ∃ q, ofElement 9 named = .ok q ∧
        q.latex { equationArray := .align } ≠ q.latex { equationArray := .gathered } := by
      dsimp only [named, cases, array, run, property, part]
      exact ⟨_, rfl, by decide +kernel⟩
    obtain ⟨q, hq, hdifferent⟩ := hread
    obtain ⟨t, ht, -⟩ := exists_template_latex hq
    refine ⟨q, t, hq, ht, fun hnil => hdifferent ?_⟩
    rw [ht, ht, Template.latex_of_rest_eq_nil hnil, Template.latex_of_rest_eq_nil hnil]
  · have hread : ∃ q, ofElement 9 hidden = .ok q ∧ ∀ b ∈ q.shown, b.isOpenArray = false := by
      dsimp only [hidden, cases, array, run, property, part]
      exact ⟨_, rfl, by decide⟩
    obtain ⟨q, hq, hclosed⟩ := hread
    obtain ⟨t, -, -, hsame⟩ := exists_template_latex hq
    exact ⟨q, hq, (hsame hclosed).2⟩

end Equation

end OfficeMath
