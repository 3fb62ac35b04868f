import OfficeMath.Proofs.Latex.Argument
import OfficeMath.Proofs.Typeset.Lexical
import OfficeMath.Proofs.Typeset.Shown

/-! The degree of a root. It stands between brackets, where all other parts of constructs stand between braces, and
    brackets are not escaped in LaTeX. So the degree is taken in whole if and only if its LaTeX has no closing bracket
    outside braces; else it ends at the first one, and what comes after it is taken for the base. -/

namespace OfficeMath

open Latex

theorem Entry.closed_typeset (choice : ArrayEnvironment) (entry : Entry) : Closed (entry.typeset choice).note :=
  (Node.closed_typesetAll choice entry.enclosure [entry.node]).note (List.mem_singleton_self _)

/-- LaTeX that is made of characters other than closing brackets, and of marks, has none. -/
theorem Latex.Templated.closingBracket_not_mem {s : ArrayEnvironment → String}
    (h : Templated (· ≠ .char ']') s) (choice : ArrayEnvironment) : ']' ∉ (s choice).toList := by
  obtain ⟨ps, hps, hs⟩ := h
  rw [hs, fill, List.mem_flatMap]
  rintro ⟨p, hp, hmem⟩
  cases p with
  | char c =>
    obtain rfl : ']' = c := List.mem_singleton.mp hmem
    exact hps _ hp rfl
  | mark m =>
    revert hmem
    cases m <;> cases choice <;> decide

theorem Typeset.radical_of_isShownDegree {degree : String} (h : isShownDegree degree = true) (base : String) :
    radical false (some base) (some degree) = "\\sqrt[" ++ degree ++ "]" ++ braced base := by
  simp [radical, Option.filter, h]

namespace Equation

variable {q : Equation} {limit : Nat} {root : Xml.Element} {entry : Entry} {base degree : Node Nat}

/-- A node in which nothing is shown that writes a closing bracket has no closing bracket in its LaTeX. -/
theorem closingBracket_not_mem_typeset (hq : ofElement limit root = .ok q) (choice : ArrayEnvironment)
    (hentry : entry ∈ q.outline) (h : ∀ b ∈ entry.shown, b.mayWriteBracket = false) :
    ']' ∉ (entry.typeset choice).note.toList := by
  have hchar : ∀ c, c ≠ ']' → Piece.char c ≠ .char ']' := fun c hc heq => hc (Piece.char.inj heq)
  refine Templated.closingBracket_not_mem (templated_typeset hchar hq hentry fun b hb => ?_) choice
  exact ⟨fun hbracket => absurd hbracket (by rw [h b hb]; exact Bool.false_ne_true), fun _ _ => Piece.noConfusion⟩

theorem nodeLatex_of_child (options : Options) (hentry : entry ∈ q.outline) {c : Node Nat}
    (hc : c ∈ entry.node.children) :
    q.nodeLatex options c.note = ((entry.child c).typeset options.equationArray).note :=
  nodeLatex_id options (child_mem_outline hentry hc)

/-- A root whose degree is shown is written with the degree between brackets and the base between braces. -/
theorem nodeLatex_of_radical (options : Options) (hentry : entry ∈ q.outline)
    (hkind : entry.node.kind = .radical false (some base) (some degree))
    (hshown : Typeset.isShownDegree (q.nodeLatex options degree.note) = true) :
    q.nodeLatex options entry.id = "\\sqrt[" ++ q.nodeLatex options degree.note ++ "]" ++
      braced (q.nodeLatex options base.note) := by
  have hbase : base ∈ entry.node.children := Node.mem_children_of_parts (by simp [hkind, Kind.parts])
  have hdegree : degree ∈ entry.node.children := Node.mem_children_of_parts (by simp [hkind, Kind.parts])
  obtain ⟨m, hhead, hchildren, hnote⟩ := Node.exists_latexOf_typeset options.equationArray entry.enclosure entry.node
  rw [nodeLatex_of_child options hentry hdegree] at hshown
  rw [nodeLatex_id options hentry, hnote, Node.latexOf, Node.kind_of_children hchildren hhead, hkind,
    nodeLatex_of_child options hentry hdegree, nodeLatex_of_child options hentry hbase]
  exact Typeset.radical_of_isShownDegree hshown _

/-- A degree that is shown is read back whole if and only if its LaTeX has no closing bracket outside braces, and it has
    none if nothing is shown in it that writes one. With a closing bracket outside braces only what is before the first
    one is taken for the degree. The base is read back whole in any case, from where it starts. -/
theorem degree_readsBack_iff (hq : ofElement limit root = .ok q) (options : Options) (hentry : entry ∈ q.outline)
    (hkind : entry.node.kind = .radical false (some base) (some degree))
    (hshown : Typeset.isShownDegree (q.nodeLatex options degree.note) = true) :
    ∃ d b, q.nodeLatex options degree.note = d ∧ q.nodeLatex options base.note = b ∧
      q.nodeLatex options entry.id = "\\sqrt[" ++ d ++ "]" ++ braced b ∧
      (∀ after, optionalArgument? (d ++ "]" ++ (braced b ++ after)) = some (d, braced b ++ after) ↔
        hasBareBracket d = false) ∧
      (∀ after, bracedArgument? (braced b ++ after) = some (b, after)) ∧
      (hasBareBracket d = true → ∃ first rest, d = first ++ "]" ++ rest ∧
        ∀ after, optionalArgument? (d ++ "]" ++ (braced b ++ after)) =
          some (first, rest ++ "]" ++ (braced b ++ after))) ∧
      ((∀ c ∈ (entry.child degree).shown, c.mayWriteBracket = false) → hasBareBracket d = false) := by
  have hbase : base ∈ entry.node.children := Node.mem_children_of_parts (by simp [hkind, Kind.parts])
  have hdegree : degree ∈ entry.node.children := Node.mem_children_of_parts (by simp [hkind, Kind.parts])
  have hclosed {c : Node Nat} (hc : c ∈ entry.node.children) : Closed (q.nodeLatex options c.note) := by
    rw [nodeLatex_of_child options hentry hc]
    exact Entry.closed_typeset _ _
  refine ⟨_, _, rfl, rfl, nodeLatex_of_radical options hentry hkind hshown, fun after => ?_, fun after => ?_,
    fun hbare => ?_, fun hnone => ?_⟩
  · exact optionalArgument?_eq_some_iff (hclosed hdegree) _
  · exact bracedArgument?_braced (hclosed hbase) after
  · obtain ⟨first, rest, hd, hread⟩ := exists_optionalArgument?_append hbare
    exact ⟨first, rest, hd, fun after => hread _⟩
  · rw [nodeLatex_of_child options hentry hdegree]
    exact hasBareBracket_of_not_mem
      (closingBracket_not_mem_typeset hq _ (child_mem_outline hentry hdegree) hnone)

/-- A closing bracket in the numerator of a fraction stands between braces. -/
theorem degree_readsBack_iff_of_fraction :
    let part (tag : String) (content : List Xml.Content) : Xml.Content := .element (.mk (.math tag) [] content)
    let run (text : String) : Xml.Content := part "r" [part "t" [.text text]]
    let half : Xml.Content := part "f" [part "num" [run "a]"], part "den" [run "b"]]
    let root : Xml.Element := .mk (.math "rad") [] [part "deg" [half], part "e" [run "x]"]]
    ∃ q, ofElement 9 root = .ok q ∧ q.nodeLatex {} 0 = "\\sqrt[\\frac\x7ba]\x7d\x7bb\x7d]\x7bx]\x7d" ∧
      optionalArgument? "\\frac\x7ba]\x7d\x7bb\x7d]\x7bx]\x7d" = some ("\\frac\x7ba]\x7d\x7bb\x7d", "\x7bx]\x7d") := by
  intro part run half root
  have hread : ∃ q entry base degree, ofElement 9 root = .ok q ∧ entry ∈ q.outline ∧ entry.id = 0 ∧
      entry.node.kind = .radical false (some base) (some degree) ∧
      q.nodeLatex {} degree.note = "\\frac\x7ba]\x7d\x7bb\x7d" ∧ q.nodeLatex {} base.note = "x]" := by
    dsimp only [root, half, run, part]
    exact ⟨_, _, _, _, rfl, List.mem_of_getElem? (rfl : _[0]? = some _), rfl, rfl, by decide +kernel, by decide +kernel⟩
  obtain ⟨q, entry, base, degree, hq, hentry, hid, hkind, hdegree, hbase⟩ := hread
  have hshown : Typeset.isShownDegree (q.nodeLatex {} degree.note) = true := by
    rw [hdegree]
    decide
  obtain ⟨d, b, rfl, rfl, hlatex, hwhole, -⟩ := degree_readsBack_iff hq {} hentry hkind hshown
  have hdegree' := (hwhole "").mpr (by rw [hdegree]; decide)
  rw [hid, hdegree, hbase] at hlatex
  rw [hdegree, hbase] at hdegree'
  exact ⟨q, hq, hlatex, hdegree'⟩

/-- A closing bracket in the text of a degree ends the degree, and the rest of the text is taken for the base. -/
theorem nodeLatex_of_bracket_in_degree :
    let part (tag : String) (content : List Xml.Content) : Xml.Content := .element (.mk (.math tag) [] content)
    let run (text : String) : Xml.Content := part "r" [part "t" [.text text]]
    let root : Xml.Element := .mk (.math "oMath") [] [part "rad" [part "deg" [run "a]b"], part "e" [run "x"]]]
    ∃ q entry base degree, ofElement 9 root = .ok q ∧ entry ∈ q.outline ∧
      entry.node.kind = .radical false (some base) (some degree) ∧
      Typeset.isShownDegree (q.nodeLatex {} degree.note) = true ∧ q.nodeLatex {} degree.note = "a]b" ∧
      q.nodeLatex {} base.note = "x" ∧ q.nodeLatex {} entry.id = "\\sqrt[" ++ "a]b]\x7bx\x7d" ∧
      optionalArgument? "a]b]\x7bx\x7d" = some ("a", "b]\x7bx\x7d") := by
  intro part run root
  dsimp only [root, run, part]
  exact ⟨_, _, _, _, rfl, List.mem_of_getElem? (rfl : _[0]? = some _), rfl, by decide +kernel, by decide +kernel,
    by decide +kernel, by decide +kernel, by decide⟩

end Equation

end OfficeMath
