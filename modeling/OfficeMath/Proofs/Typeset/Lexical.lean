import OfficeMath.Equation.Reading
import OfficeMath.Proofs.Latex.Closed
import OfficeMath.Proofs.Latex.ControlWord
import OfficeMath.Proofs.Typeset.Inherited

/-! The LaTeX of an equation as a text of lexemes. It is closed, and so is the LaTeX of every node, because closed texts
    can be joined anywhere. Fragments are joined with a look at where they meet, but the separator of a delimiter and a
    fence that grows are written as they are after what stands before them. Where neither starts with a letter, every
    control word in the LaTeX of an equation is a command. -/

namespace OfficeMath

open Latex Typeset

/-! ### Closed texts -/

theorem Typeset.joins_closed (fence : Fence) : Joins Closed fence :=
  inherited_closed.kept.joins_of_append Closed.append fun _ _ _ => inherited_closed.lineBreak

theorem Node.closed_typesetAll {α : Type} (choice : ArrayEnvironment) (enclosure : Enclosure α) (ns : List (Node α)) :
    NotesHave Closed (typesetAll choice enclosure ns) :=
  inherited_closed.typesetAll choice enclosure ns fun _ _ fence _ => Typeset.joins_closed fence

namespace Equation

/-- The LaTeX of every equation is lexically closed: its groups are balanced at every point, no markup stands by
    itself in it, and it does not end in a backslash that waits for a character. -/
theorem lexicallyClosed_latex (options : Options) (q : Equation) : LexicallyClosed (q.latex options) := by
  have hnotes := Node.closed_typesetAll options.equationArray .none q.roots
  refine Closed.lexicallyClosed (.joinFragments fun s hs => ?_)
  obtain ⟨n, hn, rfl⟩ := List.mem_map.mp hs
  exact hnotes.note hn

end Equation

/-! ### Control words -/

/-- Nothing runs into the separator, nor into the fences where they grow: they start with no letter. -/
def Fence.isSetOff (fence : Fence) : Bool :=
  !startsWithLetter (segmentSeparator fence.separator) &&
    (!fence.grows || !startsWithLetter (bracket fence.opening) && !startsWithLetter (bracket fence.closing))

/-- The texts of a delimiter that is set off can be joined, whatever the property is. -/
theorem Typeset.joins_of_isSetOff {P : String → Prop} (hP : Inherited P) {fence : Fence} (h : fence.isSetOff = true) :
    Joins P fence := by
  simp only [Fence.isSetOff, Bool.and_eq_true, Bool.or_eq_true, Bool.not_eq_true'] at h
  obtain ⟨hseparator, hfences⟩ := h
  have hfences (hgrows : fence.grows = true) :
      startsWithLetter (bracket fence.opening) = false ∧ startsWithLetter (bracket fence.closing) = false := by
    simpa [hgrows] using hfences
  have hbracket (text : String) : P (bracket text) := hP.kept.bracket fun _ => hP.lineBreak
  exact {
    separator s hs := hP.kept.append_of_start hs (hP.kept.segmentSeparator fun _ _ _ => hP.lineBreak) hseparator
    opening hgrows := hP.kept.growingFence (hP.construct (by decide)) (hbracket fence.opening) (hfences hgrows).1
    closing hgrows := hP.kept.growingFence (hP.construct (by decide)) (hbracket fence.closing) (hfences hgrows).2 }

/-- The node is no delimiter, or it is one that is set off. -/
def Node.isSetOff {α : Type} (n : Node α) : Bool :=
  match n.form with
  | .delimiter fence => fence.isSetOff
  | _ => true

namespace Equation

variable {q : Equation}

/-- No control word runs into the text that follows it: if all delimiters of an equation are set off, every control
    word in its LaTeX is a command of a construct or of a table. -/
theorem controlWords_latex (options : Options) (h : (Node.preorderAll q.roots).all Node.isSetOff = true) :
    ∃ ls, lexemes? (q.latex options).toList = some ls ∧ controlWords ls ⊆ commands := by
  have hfences : Node.FencesJoin Separated (Node.preorderAll q.roots) := fun n hn fence hform => by
    have hn := List.all_eq_true.mp h n hn
    rw [Node.isSetOff, hform] at hn
    exact Typeset.joins_of_isSetOff inherited_separated hn
  have hseparated := inherited_separated.latex options hfences
  obtain ⟨ls, hls⟩ := hseparated.closed.exists_lexemes
  exact ⟨ls, hls, hseparated.mem_commands ls hls⟩

/-- A letter after a Greek letter between bars that grow is set off by a space. -/
theorem controlWords_latex_of_bars :
    let run (text : String) : Xml.Content :=
      .element (.mk (.math "r") [] [.element (.mk (.math "t") [] [.text text])])
    let value (tag text : String) : Xml.Content := .element (.mk (.math tag) [⟨.math "val", text⟩] [])
    let properties : Xml.Content :=
      .element (.mk (.math "dPr") [] [value "begChr" "|", value "endChr" "|", value "grow" "1"])
    let delimiter : Xml.Element :=
      .mk (.math "d") [] [properties, .element (.mk (.math "e") [] [run "α", run "b"])]
    ∃ q, ofElement 4 delimiter = .ok q ∧ q.latex {} = "\\left|\\alpha b\\right|" ∧
      ∃ ls, lexemes? (q.latex {}).toList = some ls ∧ controlWords ls ⊆ commands := by
  intro run value properties delimiter
  obtain ⟨q, hq, hlatex, hsetOff⟩ : ∃ q, ofElement 4 delimiter = .ok q ∧ q.latex {} = "\\left|\\alpha b\\right|" ∧
      (Node.preorderAll q.roots).all Node.isSetOff = true := ⟨_, rfl, by decide +kernel, by decide +kernel⟩
  exact ⟨q, hq, hlatex, controlWords_latex {} hsetOff⟩

/-- A separator that starts with a letter becomes part of the command before it. -/
theorem controlWords_latex_of_letter :
    let run (text : String) : Xml.Content :=
      .element (.mk (.math "r") [] [.element (.mk (.math "t") [] [.text text])])
    let properties : Xml.Content :=
      .element (.mk (.math "dPr") [] [.element (.mk (.math "sepChr") [⟨.math "val", "x"⟩] [])])
    let segment (text : String) : Xml.Content := .element (.mk (.math "e") [] [run text])
    let delimiter : Xml.Element := .mk (.math "d") [] [properties, segment "α", segment "b"]
    ∃ q, ofElement 4 delimiter = .ok q ∧ q.latex {} = "(\\alphax b)" ∧
      ∃ ls, lexemes? (q.latex {}).toList = some ls ∧ "alphax" ∈ controlWords ls ∧ "alphax" ∉ commands := by
  intro run properties segment delimiter
  obtain ⟨q, hq, hlatex⟩ : ∃ q, ofElement 4 delimiter = .ok q ∧ q.latex {} = "(\\alphax b)" :=
    ⟨_, rfl, by decide +kernel⟩
  obtain ⟨ls, hls, hmem⟩ : ∃ ls, lexemes? "(\\alphax b)".toList = some ls ∧ "alphax" ∈ controlWords ls :=
    ⟨_, rfl, by decide⟩
  have hcommands : "alphax" ∉ commands := by decide +kernel
  exact ⟨q, hq, hlatex, ls, hlatex ▸ hls, hmem, hcommands⟩

end Equation

end OfficeMath
