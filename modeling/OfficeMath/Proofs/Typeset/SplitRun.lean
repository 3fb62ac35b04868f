import OfficeMath.Proofs.Store.Room
import OfficeMath.Proofs.Typeset.Nesting

/-! Runs that are split. The text of a run can be shared out to two runs that follow each other: each of them is
    converted by itself, and the one is pushed after the other with a look at where they meet, as it is done with the
    characters within a text. Only the escape of a line feed, which ends in a backslash, may hide where they meet. -/

namespace OfficeMath

open Latex

namespace Xml.Element

/-- The element is a run without properties that holds the text. -/
structure IsPlainRun (e : Element) (text : String) : Prop where
  isRun : e.isTag "r" = true
  noProperties : e.child? "rPr" = none
  source_eq : (Run.ofElement e).source = text

/-- Two `oMath` elements that hold the same, but for the text at the start: one holds it in two runs, and the other one
    in a single run. -/
structure SplitsRun (text text' : String) (split whole : Element) : Prop where
  isMath_split : split.isTag "oMath" = true
  isMath_whole : whole.isTag "oMath" = true
  content : ∃ first second joined rest,
    split.content = .element first :: .element second :: rest ∧ whole.content = .element joined :: rest ∧
      first.IsPlainRun text ∧ second.IsPlainRun text' ∧ joined.IsPlainRun (text ++ text')

end Xml.Element

namespace Node

variable {limit depth : Nat} {e : Xml.Element} {text : String}

/-- A run without properties that holds the text. -/
def plainRun (text : String) : Node Unit := .mk ⟨"r", true, .run ⟨text, {}⟩⟩ () []

theorem head_ofElement_of_isPlainRun (h : e.IsPlainRun text) : Head.ofElement e = (plainRun text).head := by
  obtain ⟨hrun, hproperties, rfl⟩ := h
  obtain ⟨hmath, htag⟩ := Bool.and_eq_true_iff.mp hrun
  have hconstruct : Form.construct? e = some .run := Form.construct?_eq_some_iff.mpr ⟨"r", by decide, hrun⟩
  have hform : Form.ofElement e = .run (Run.ofElement e) := Form.ofElement_of_construct? hconstruct
  have hstyle : (Run.ofElement e).style = {} := by
    unfold Run.ofElement
    rw [hproperties]
    rfl
  rw [Head.ofElement, hmath, eq_of_beq htag, hform, plainRun, head_mk, ← hstyle]

theorem read_of_isPlainRun (h : e.IsPlainRun text) (hdepth : depth < limit) :
    read limit depth e = .ok (plainRun text) := by
  refine read_eq_ok_iff.mpr ⟨hdepth, (head_ofElement_of_isPlainRun h).symm, ?_⟩
  rw [Xml.Element.parts, h.isRun, if_pos rfl]
  exact .nil

theorem read_of_limit_le (h : limit ≤ depth) (e : Xml.Element) : read limit depth e = .error (.tooDeep limit) := by
  obtain ⟨name, attributes, content⟩ := e
  rw [read, if_pos h]

theorem ownLatex_plainRun (choice : ArrayEnvironment) (text : String) :
    (plainRun text).ownLatex choice = convertText text := by
  have hrun : (plainRun text).ownLatex choice = Typeset.run ⟨text, {}⟩ := note_typeset_of_run? rfl
  rw [hrun, Typeset.run, Run.latex, Typeset.styled]
  split
  · next hempty => exact (String.isEmpty_iff.mp hempty).symm
  · rfl

end Node

namespace Equation

variable {text text' : String}

theorem latex_mk_cons (options : Options) (n : Node Unit) (ns : List (Node Unit)) : latex options ⟨n :: ns⟩ =
    (ns.map (Node.ownLatex options.equationArray)).foldl pushFragment (n.ownLatex options.equationArray) := by
  rw [latex_eq_joinFragments, joinFragments_eq, List.map_cons, List.foldl_cons, empty_pushFragment]

theorem map_latex_of_splitsRun (hconvert : convertText (text ++ text') = pushFragment (convertText text)
    (convertText text')) {split whole : Xml.Element} (h : Xml.Element.SplitsRun text text' split whole) (limit : Nat)
    (options : Options) :
    (ofElement limit split).map (latex options) = (ofElement limit whole).map (latex options) := by
  obtain ⟨hsplit, hwhole, first, second, joined, rest, hcontent, hcontent', hfirst, hsecond, hjoined⟩ := h
  rw [ofElement, ofElement, if_pos hsplit, if_pos hwhole, hcontent, hcontent', Node.readAll_element,
    Node.readAll_element, Node.readAll_element]
  rcases Nat.lt_or_ge 1 limit with hlimit | hlimit
  · rw [Node.read_of_isPlainRun hfirst hlimit, Node.read_of_isPlainRun hsecond hlimit,
      Node.read_of_isPlainRun hjoined hlimit]
    cases Node.readAll limit 1 rest with
    | error error => rfl
    | ok ns =>
      -- the first two fragments are pushed onto the empty text before all others
      have hlatex : latex options ⟨Node.plainRun text :: Node.plainRun text' :: ns⟩ =
          latex options ⟨Node.plainRun (text ++ text') :: ns⟩ := by
        rw [latex_mk_cons, latex_mk_cons, List.map_cons, List.foldl_cons, Node.ownLatex_plainRun,
          Node.ownLatex_plainRun, Node.ownLatex_plainRun, hconvert]
      exact congrArg Except.ok hlatex
  · rw [Node.read_of_limit_le hlimit first, Node.read_of_limit_le hlimit joined]
    rfl

/-- A run can be split: if no line feed stands in its first part, converting the whole text is converting one part and
    pushing the other after it, so that an `oMath` has the same LaTeX, or the same error, with the run or with the two
    runs that its text is shared out to. The same is true of what the stores give if there is room for all elements. -/
theorem latex_of_splitsRun (h : '\n' ∉ text.toList) :
    convertText (text ++ text') = pushFragment (convertText text) (convertText text') ∧
      ∀ split whole, Xml.Element.SplitsRun text text' split whole → ∀ limit options,
        (ofElement limit split).map (latex options) = (ofElement limit whole).map (latex options) ∧
          (split.size ≤ Store.capacity → whole.size ≤ Store.capacity →
            ((Store.ofElement limit split).bind fun s => s.latex options.equationArray) =
              (Store.ofElement limit whole).bind fun s => s.latex options.equationArray) := by
  have hconvert := convertText_append h text'
  refine ⟨hconvert, fun split whole h limit options => ?_⟩
  have hlatex := map_latex_of_splitsRun hconvert h limit options
  refine ⟨hlatex, fun hroom hroom' => ?_⟩
  rw [Store.bind_latex_of_room hroom, Store.bind_latex_of_room hroom', hlatex]

/-- A Greek letter and a Latin one, in one run or in two, before a root. -/
theorem latex_of_splitsRun_of_letters :
    let run (text : String) : Xml.Element := .mk (.math "r") [] [.element (.mk (.math "t") [] [.text text])]
    let root : Xml.Content := .element (.mk (.math "rad") [] [.element (.mk (.math "e") [] [.element (run "y")])])
    let split : Xml.Element := .mk (.math "oMath") [] [.element (run "α"), .element (run "x"), root]
    let whole : Xml.Element := .mk (.math "oMath") [] [.element (run "αx"), root]
    '\n' ∉ "α".toList ∧ Xml.Element.SplitsRun "α" "x" split whole ∧
      (ofElement 4 split).map (latex {}) = (ofElement 4 whole).map (latex {}) ∧
      (ofElement 4 whole).map (latex {}) = .ok "\\alpha x\\sqrt\x7by\x7d" ∧
      ((Store.ofElement 4 split).bind fun s => s.latex .aligned) =
        (Store.ofElement 4 whole).bind fun s => s.latex .aligned := by
  intro run root split whole
  have hplain (text : String) (hsource : (Run.ofElement (run text)).source = text) :
      (run text).IsPlainRun text := ⟨rfl, rfl, hsource⟩
  have hsplits : Xml.Element.SplitsRun "α" "x" split whole :=
    ⟨rfl, rfl, run "α", run "x", run "αx", [root], rfl, rfl, hplain "α" rfl, hplain "x" rfl, hplain "αx" rfl⟩
  have hfeed : '\n' ∉ "α".toList := by decide
  have hlatex : (ofElement 4 whole).map (latex {}) = .ok "\\alpha x\\sqrt\x7by\x7d" := by decide +kernel
  obtain ⟨hsame, hstores⟩ := (latex_of_splitsRun hfeed).2 split whole hsplits 4 {}
  exact ⟨hfeed, hsplits, hsame, hlatex, hstores (by decide) (by decide)⟩

end Equation

end OfficeMath
