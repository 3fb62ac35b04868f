import OfficeMath.Proofs.Store.Room
import OfficeMath.Proofs.Xml.Depth

/-! The ways to convert agree. An element that nests no deeper than the limit is an equation, and what is read of a
    text nests no deeper, so a text that can be read as an element is converted as the element is. -/

namespace OfficeMath

namespace Equation

variable {limit : Nat}

theorem exists_ofElement_of_read {xml : String} {e : Xml.Element} (h : Xml.Element.read limit xml = .ok e) :
    ∃ q, ofElement limit e = .ok q :=
  exists_ofElement (Xml.Element.depth_le_of_read h)

/-- Looking for blank text first makes no difference: the element that it holds is not there either. -/
theorem read_eq_bind (xml : String) : read limit xml = (Xml.Element.read limit xml).bind (ofElement limit) := by
  unfold read
  split
  · next hblank =>
    rw [Xml.Element.read_of_isBlankText hblank]
    rfl
  · rfl

end Equation

theorem latexOfText_of_ok {options : Options} {xml : String} {e : Xml.Element}
    (h : Xml.Element.read options.maxDepth xml = .ok e) :
    latexOfText options xml = latexOrMarker options (Equation.ofElement options.maxDepth e) := by
  rw [latexOfText, Equation.read_eq_bind, h]
  rfl

theorem latexOfMathElement_eq_latexOfElement {e : Xml.Element} (h : e.isTag "oMath" = true) :
    latexOfMathElement e = latexOfElement e := by
  rw [latexOfMathElement, latexOfElement, Equation.ofMathElement, if_pos h]

/-- A text is converted as the element that is read of it, which always is an equation. The store of the element is
    built, and gives this LaTeX, if there are numbers enough for all elements; that there are too many of them is all
    that can go wrong. A text of which no element can be read gives the marker of the error. With the usual options it
    makes no difference whether the text or the element is converted. -/
theorem latexOfText_eq_latexOfElement (options : Options) (xml : String) :
    (∀ e, Xml.Element.read options.maxDepth xml = .ok e →
      (∃ q, Equation.ofElement options.maxDepth e = .ok q ∧ latexOfText options xml = q.latex options) ∧
      (e.size ≤ Store.capacity → ∃ s, Store.ofElement options.maxDepth e = .ok s ∧
        s.latex options.equationArray = .ok (latexOfText options xml)) ∧
      ∀ fault, Store.ofElement options.maxDepth e = .error fault → fault = .full ∧ Store.capacity < e.size) ∧
    (∀ error, Xml.Element.read options.maxDepth xml = .error error → latexOfText options xml = error.marker) ∧
    (∀ e, Xml.Element.read ({} : Options).maxDepth xml = .ok e →
      latexOfText {} xml = latexOfElement e ∧
        (e.isTag "oMath" = true → latexOfText {} xml = latexOfMathElement e)) := by
  refine ⟨fun e he => ?_, fun error herror => ?_, fun e he => ?_⟩
  · obtain ⟨q, hq⟩ := Equation.exists_ofElement_of_read he
    have hlatex : latexOfText options xml = q.latex options := by rw [latexOfText_of_ok he, hq, latexOrMarker]
    refine ⟨⟨q, hq, hlatex⟩, fun hroom => ⟨q.store, Store.ofElement_of_room hroom hq, ?_⟩, fun fault hfault => ?_⟩
    · rw [hlatex, Store.latex_eq hq]
    · exact Store.eq_full_of_read hq hfault
  · rw [latexOfText, Equation.read_eq_bind, herror]
    rfl
  · have helement : latexOfText {} xml = latexOfElement e := latexOfText_of_ok he
    exact ⟨helement, fun hmath => helement.trans (latexOfMathElement_eq_latexOfElement hmath).symm⟩

/-- A mark for the order of bytes does not count as text, and elements may nest as deep as the limit and no
    deeper. -/
theorem latexOfText_eq_latexOfElement_of_nested :
    let xml := "\ufeff<m:oMath><m:e/></m:oMath>"
    let math : Xml.Element := .mk (.math "oMath") [] [.element (.math "e")]
    (∃ q, Equation.ofElement 2 math = .ok q ∧ latexOfText { maxDepth := 2 } xml = q.latex { maxDepth := 2 }) ∧
      (∃ s, Store.ofElement 2 math = .ok s ∧ s.latex .aligned = .ok (latexOfText { maxDepth := 2 } xml)) ∧
      latexOfText { maxDepth := 1 } xml = "[OMML Conversion Error]" ∧
      latexOfText {} xml = latexOfElement math ∧ latexOfText {} xml = latexOfMathElement math := by
  intro xml math
  have hread : Xml.Element.read 2 xml = .ok math := by cbv
  have herror : Xml.Element.read 1 xml = .error (.tooDeep 1) := by cbv
  have hdefault : Xml.Element.read ({} : Options).maxDepth xml = .ok math := by cbv
  obtain ⟨helement, hmath⟩ := (latexOfText_eq_latexOfElement {} xml).2.2 math hdefault
  obtain ⟨hequation, hstore, -⟩ := (latexOfText_eq_latexOfElement { maxDepth := 2 } xml).1 math hread
  exact ⟨hequation, hstore (by decide), (latexOfText_eq_latexOfElement { maxDepth := 1 } xml).2.1 _ herror, helement,
    hmath rfl⟩

end OfficeMath
