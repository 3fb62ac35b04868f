import OfficeMath.Proofs.Latex.FenceToken
import OfficeMath.Proofs.Store.FenceKept
import OfficeMath.Proofs.Typeset.Lexical

/-! Delimiters whose fence grows. The content stands between the commands `\left` and `\right`, and each of them takes
    the token after it for the fence on its side; whether that is one token for the whole fence depends on the two
    fences alone, whatever the content is. -/

namespace OfficeMath

open Node (note)

namespace Latex

/-- The LaTeX is the content between the two commands, each with one token that stands for the fence on its side. -/
def IsPair (fence : Fence) (content latex : String) : Prop :=
  ∃ opening closing : Token,
    tokens latex.toList = .word "left" :: opening :: (tokens content.toList ++ [.word "right", closing]) ∧
      opening.StandsFor fence.opening ∧ closing.StandsFor fence.closing

variable {fence : Fence} {content : String}

theorem tokens_fenced (hgrows : fence.grows = true) (hcontent : Closed content) :
    tokens (Typeset.fenced fence content).toList =
      tokens (Typeset.growingFence "\\left" (bracket fence.opening)).toList ++
        (tokens (gap (Typeset.growingFence "\\left" (bracket fence.opening)) content ++ content).toList ++
          tokens (Typeset.growingFence "\\right" (bracket fence.closing)).toList) := by
  have hopening : Closed (Typeset.growingFence "\\left" (bracket fence.opening)) :=
    (Typeset.joins_closed fence).opening hgrows
  obtain ⟨ls, hls⟩ := (inherited_closed.kept.pushFragment hopening hcontent).exists_lexemes
  have hright : ∃ cs, (Typeset.growingFence "\\right" (bracket fence.closing)).toList = '\\' :: cs :=
    ⟨_, String.toList_append⟩
  obtain ⟨cs, hcs⟩ := hright
  rw [Typeset.fenced, hgrows, if_pos rfl, String.toList_append, ← List.append_assoc, ← tokens_pushFragment hopening]
  refine tokens_append hls fun _ => ?_
  rw [hcs]
  rfl

/-- Between growing fences a content is in a pair of commands if and only if both fences are simple. -/
theorem isPair_fenced_iff (hgrows : fence.grows = true) (hcontent : Closed content) :
    IsPair fence (gap (Typeset.growingFence "\\left" (bracket fence.opening)) content ++ content)
        (Typeset.fenced fence content) ↔
      isSimpleFence fence.opening = true ∧ isSimpleFence fence.closing = true := by
  have hleft (fence : String) (h : isSimpleFence fence = true) : ∃ t,
      tokens (Typeset.growingFence "\\left" (bracket fence)).toList = [.word "left", t] ∧ t.StandsFor fence :=
    tokens_growingFence rfl (by decide) h
  have hright (fence : String) (h : isSimpleFence fence = true) : ∃ t,
      tokens (Typeset.growingFence "\\right" (bracket fence)).toList = [.word "right", t] ∧ t.StandsFor fence :=
    tokens_growingFence rfl (by decide) h
  rw [IsPair, tokens_fenced hgrows hcontent]
  constructor
  · rintro ⟨opening, closing, htokens, hopening, hclosing⟩
    have hsimple := isSimpleFence_of_tokens rfl (by decide) htokens hopening
    obtain ⟨opening', hopening', -⟩ := hleft _ hsimple
    -- what the pair begins with is taken off, and then the content
    rw [hopening', List.cons_append, List.singleton_append] at htokens
    have hrest := List.append_cancel_left (List.cons.inj (List.cons.inj htokens).2).2
    rw [← List.append_nil (tokens _)] at hrest
    exact ⟨hsimple, isSimpleFence_of_tokens rfl (by decide) hrest hclosing⟩
  · rintro ⟨hopening, hclosing⟩
    obtain ⟨opening, hopening, hopens⟩ := hleft _ hopening
    obtain ⟨closing, hclosing, hcloses⟩ := hright _ hclosing
    refine ⟨opening, closing, ?_, hopens, hcloses⟩
    rw [hopening, hclosing, List.cons_append, List.singleton_append]

end Latex

namespace Store

open Latex

variable {limit d : Nat} {root : Xml.Element} {s : Store} {q : Equation} {around : Entry} {fence : Fence}
  {segments : List (List Nat)} {delimiter : Cell}

theorem closed_joinSegments (choice : ArrayEnvironment) (fence : Fence) (around : Entry) :
    Closed (Typeset.joinSegments (Typeset.segmentSeparator fence.separator)
      (around.node.segments.map (List.map fun c => (c.typeset choice around.inner).note))) := by
  refine inherited_closed.kept.joinSegments (Typeset.joins_closed fence).separator ?_
  intro segment hsegment latex hlatex
  obtain ⟨cs, hcs, rfl⟩ := List.mem_map.mp hsegment
  obtain ⟨c, hc, rfl⟩ := List.mem_map.mp hlatex
  have hnotes := Node.closed_typesetAll choice around.inner [c]
  exact hnotes.note (List.mem_singleton_self _)

/-- In the store of an element a delimiter whose fence grows, and that leaves the fence to no array, has its segments in
    a pair of the commands, with one token for each fence, if and only if both fences are simple. -/
theorem isPair_iff_of_grows (h : ofElement limit root = .ok s) (hd : s.cell d = .ok delimiter)
    (hfence : delimiter.kind = .delimiter fence segments) (hgrows : fence.grows = true)
    (hkept : s.absorbedContent fence segments = .ok none) (choice : ArrayEnvironment) :
    ∃ inner latex content, (segments.mapM fun segment => segment.mapM (s.nodeLatex choice)) = .ok inner ∧
      s.nodeLatex choice d = .ok latex ∧
      (∃ space, (space = "" ∨ space = " ") ∧
        content = space ++ Typeset.joinSegments (Typeset.segmentSeparator fence.separator) inner) ∧
      (IsPair fence content latex ↔ isSimpleFence fence.opening = true ∧ isSimpleFence fence.closing = true) := by
  obtain ⟨q, hq, -, rfl⟩ := ofElement_eq_ok_iff.mp h
  obtain ⟨around, haround, rfl, rfl⟩ := exists_entry_of_cell hd
  obtain ⟨hform, rfl⟩ := form_of_delimiter hfence
  have hpair := isPair_fenced_iff hgrows (closed_joinSegments choice fence around)
  rw [absorbedContent_eq_map haround, Except.ok.injEq, Option.map_eq_none_iff] at hkept
  rcases Equation.note_typeset_of_delimiter choice haround hform with ⟨b, -, habsorbed, -⟩ | ⟨-, hnote⟩
  · rw [hkept] at habsorbed
    cases habsorbed
  · rw [← hnote] at hpair
    exact ⟨_, _, _, nodeLatex_segments hq choice haround, nodeLatex_eq_note hq choice haround,
      ⟨_, gap_eq _ _, rfl⟩, hpair⟩

set_option maxRecDepth 4000 in
/-- A fence that opens with an angle bracket and closes with nothing. -/
theorem isPair_iff_of_grows_of_angle :
    let part (tag : String) (content : List Xml.Content) : Xml.Content := .element (.mk (.math tag) [] content)
    let property (tag value : String) : Xml.Content := .element (.mk (.math tag) [⟨.math "val", value⟩] [])
    let run (text : String) : Xml.Content := part "r" [part "t" [.text text]]
    let properties : Xml.Content := part "dPr" [property "begChr" "⟨", property "endChr" "", part "grow" []]
    let root : Xml.Element := .mk (.math "d") [] [properties, part "e" [run "x"]]
    let fence : Fence := ⟨"⟨", some "", none, true⟩
    ∃ s delimiter, ofElement 4 root = .ok s ∧ s.cell 0 = .ok delimiter ∧ delimiter.kind = .delimiter fence [[5]] ∧
      fence.grows = true ∧ s.absorbedContent fence [[5]] = .ok none ∧
      s.nodeLatex .aligned 0 = .ok "\\left\\langle x\\right." ∧
      ∃ content, IsPair fence content "\\left\\langle x\\right." := by
  intro part property run properties root fence
  have hbuilt : ∃ s delimiter, ofElement 4 root = .ok s ∧ s.cell 0 = .ok delimiter ∧
      delimiter.kind = .delimiter fence [[5]] ∧ s.absorbedContent fence [[5]] = .ok none ∧
      s.nodeLatex .aligned 0 = .ok "\\left\\langle x\\right." := by
    dsimp only [root, properties, run, property, part, fence]
    exact ⟨_, _, ofElement_eq_ok_iff.mpr ⟨_, rfl, by decide, rfl⟩, rfl, rfl, rfl, by with_unfolding_all rfl⟩
  obtain ⟨s, delimiter, hs, hd, hfence, hkept, hlatex⟩ := hbuilt
  obtain ⟨inner, latex, content, -, hlatex', -, hpair⟩ := isPair_iff_of_grows hs hd hfence rfl hkept .aligned
  cases hlatex.symm.trans hlatex'
  exact ⟨s, delimiter, hs, hd, hfence, rfl, hkept, hlatex, content, hpair.mpr ⟨by decide, rfl⟩⟩

set_option maxRecDepth 4000 in
/-- A letter runs into the command that should take it for its fence. -/
theorem nodeLatex_of_letter_fence :
    let part (tag : String) (content : List Xml.Content) : Xml.Content := .element (.mk (.math tag) [] content)
    let run (text : String) : Xml.Content := part "r" [part "t" [.text text]]
    let opening : Xml.Content := .element (.mk (.math "begChr") [⟨.math "val", "x"⟩] [])
    let root : Xml.Element := .mk (.math "d") [] [part "dPr" [opening, part "grow" []], part "e" [run "a"]]
    let fence : Fence := ⟨"x", none, none, true⟩
    ∃ s delimiter, ofElement 4 root = .ok s ∧ s.cell 0 = .ok delimiter ∧ delimiter.kind = .delimiter fence [[4]] ∧
      s.absorbedContent fence [[4]] = .ok none ∧ s.nodeLatex .aligned 0 = .ok "\\leftx a\\right)" ∧
      ∀ content, ¬ IsPair fence content "\\leftx a\\right)" := by
  intro part run opening root fence
  have hbuilt : ∃ s delimiter, ofElement 4 root = .ok s ∧ s.cell 0 = .ok delimiter ∧
      delimiter.kind = .delimiter fence [[4]] ∧ s.absorbedContent fence [[4]] = .ok none ∧
      s.nodeLatex .aligned 0 = .ok "\\leftx a\\right)" := by
    dsimp only [root, opening, run, part, fence]
    exact ⟨_, _, ofElement_eq_ok_iff.mpr ⟨_, rfl, by decide, rfl⟩, rfl, rfl, rfl, by with_unfolding_all rfl⟩
  obtain ⟨s, delimiter, hs, hd, hfence, hkept, hlatex⟩ := hbuilt
  refine ⟨s, delimiter, hs, hd, hfence, hkept, hlatex, ?_⟩
  rintro content ⟨opening, closing, htokens, -, -⟩
  have hhead : (tokens "\\leftx a\\right)".toList).head? = some (.word "leftx") := by cbv
  rw [htokens, List.head?_cons, Option.some.injEq, Token.word.injEq] at hhead
  exact absurd hhead (by decide)

end Store

end OfficeMath
