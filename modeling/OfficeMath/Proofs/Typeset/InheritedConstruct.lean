import OfficeMath.Typeset.Application
import OfficeMath.Typeset.Array
import OfficeMath.Typeset.Decoration
import OfficeMath.Typeset.Script
import OfficeMath.Typeset.Text
import OfficeMath.Proofs.Latex.Inherited

/-! Constructs inherit properties from their parts. Every construct, whichever of its parts are missing, has the property
    if its parts have it and the texts that it writes by itself; of parts that are always written in braces the weaker
    property is enough. Only a delimiter joins texts without a look at where they meet, and has to be one whose texts
    can be joined. -/

namespace OfficeMath

open Latex

/-- The texts from outside that a construct writes by itself. -/
def Form.texts : Form → List String
  | .run r => [r.source]
  | .delimiter fence => [fence.opening, fence.closing] ++ fence.separator.toList
  | .nary operator => operator.sign.toList
  | _ => []

/-- The escape of a line feed has the property if there is one in the texts that the construct writes by itself. -/
def Form.EscapesHave (P : String → Prop) (form : Form) : Prop :=
  ∀ text ∈ form.texts, '\n' ∈ text.toList → P "\\\\"

namespace Typeset

/-- The part of a construct has the property, if it is there. -/
def PartHas (P : String → Prop) (part : Option String) : Prop := ∀ s, part = some s → P s

namespace PartHas

variable {Q P : String → Prop} {part : Option String}

theorem some {s : String} (h : PartHas P (some s)) : P s := h s rfl

theorem getD (h : PartHas P part) {default : String} (hdefault : P default) : P (part.getD default) := by
  cases part with
  | none => exact hdefault
  | some s => exact h.some

theorem map (h : PartHas Q part) {f : String → String} (hf : ∀ {s}, Q s → P (f s)) : PartHas P (part.map f) := by
  rintro t ht
  obtain ⟨s, hs, rfl⟩ := Option.map_eq_some_iff.mp ht
  exact hf (h s hs)

theorem hide (h : PartHas P part) (hidden : Bool) : PartHas P (if hidden then none else part) := by
  cases hidden with
  | true => rintro s ⟨⟩
  | false => exact h

end PartHas

/-- The texts of a delimiter can be joined to what they stand next to: the separator to the segment before it, and a
    fence that grows to the command before it. -/
structure Joins (P : String → Prop) (fence : Fence) : Prop where
  separator : ∀ s, P s → P (s ++ segmentSeparator fence.separator)
  opening : fence.grows = true → P (growingFence "\\left" (bracket fence.opening))
  closing : fence.grows = true → P (growingFence "\\right" (bracket fence.closing))

theorem startsWithLetter_scripts (sub sup : Option String) : startsWithLetter (scripts sub sup) = false := by
  cases sub <;> cases sup <;> simp [startsWithLetter, scripts]

end Typeset

namespace Latex.Kept

open Typeset

variable {Q P : String → Prop} (hP : Kept Q P) {base sub sup : Option String}

include hP

theorem errorMarker {complaint : String} (h : P complaint) : P (errorMarker complaint) :=
  hP.braced (hP.weaken (hP.append_of_end (hP.construct (by decide)) h rfl))

/-! ### Text -/

theorem commandIf {condition : Bool} {name text : String} (hname : P name) (h : P text) :
    P (commandIf condition name text) := by
  cases condition with
  | true => exact hP.command hname (hP.weaken h)
  | false => exact h

theorem run {r : Run} (h : (Form.run r).EscapesHave P) : P (run r) := by
  have htext : P r.latex := hP.convertText (h r.source (List.mem_singleton_self _))
  unfold Typeset.run styled
  split
  · exact hP.empty
  · split
    · next alphabet _ => exact hP.command (hP.construct (by cases alphabet <;> decide)) (hP.weaken htext)
    · have hplain : P (Typeset.commandIf (r.style.plain && isLongWord r.latex) "\\mathrm" r.latex) :=
        hP.commandIf (hP.construct (by decide)) htext
      exact hP.commandIf (hP.construct (by decide)) (hP.commandIf (hP.construct (by decide)) hplain)

/-! ### Fractions, roots and scripts -/

theorem fraction (style : FractionStyle) {num den : Option String} (hnum : PartHas Q num) (hden : PartHas Q den) :
    P (fraction style num den) := by
  unfold Typeset.fraction
  split
  · have hnum := hnum.some
    have hden := hP.braced hden.some
    cases style with
    | bar => exact hP.append_of_start (hP.command (hP.construct (by decide)) hnum) hden startsWithLetter_braced
    | noBar => exact hP.append_of_start (hP.command (hP.construct (by decide)) hnum) hden startsWithLetter_braced
    | linear => exact hP.braced (hP.weaken (hP.between (hP.braced hnum) (hP.construct (by decide)) hden rfl rfl))
    | skewed => exact hP.between (hP.braced hnum) (hP.construct (by decide)) hden rfl rfl
  · exact hP.errorMarker (hP.complaint (by decide))

theorem radical (hideDegree : Bool) {degree : Option String} (hbase : PartHas Q base) (hdegree : PartHas P degree) :
    P (radical hideDegree base degree) := by
  unfold Typeset.radical
  cases base with
  | none => exact hP.errorMarker (hP.complaint (by decide))
  | some base =>
    have hbase := hbase.some
    dsimp only
    split
    · next shown hshown =>
      have hshown : degree = some shown := by
        cases hideDegree with
        | true => cases hshown
        | false => exact (Option.filter_eq_some_iff.mp hshown).1
      have hopened : P ("\\sqrt[" ++ shown) :=
        hP.append_of_end (hP.construct (by decide)) (hdegree shown hshown) (by decide)
      exact hP.between hopened (hP.construct (by decide)) (hP.braced hbase) rfl rfl
    · exact hP.command (hP.construct (by decide)) hbase

theorem scripts (hsub : PartHas Q sub) (hsup : PartHas Q sup) : P (scripts sub sup) := by
  have hsub := (hsub.map (hP.command (hP.construct (s := "_") (by decide)))).getD hP.empty
  have hsup := (hsup.map (hP.command (hP.construct (s := "^") (by decide)))).getD hP.empty
  refine hP.append_of_start hsub hsup ?_
  cases sup with
  | none => rfl
  | some sup => exact startsWithLetter_command (by decide)

theorem script (hbase : PartHas P base) (hsub : PartHas Q sub) (hsup : PartHas Q sup) : P (script base sub sup) := by
  have hbase : P (base.getD "") := hbase.getD hP.empty
  unfold Typeset.script
  split
  · exact hbase
  · exact hP.append_of_start (hP.braced (hP.weaken hbase)) (hP.scripts hsub hsup) (startsWithLetter_scripts sub sup)

theorem preScript (hbase : PartHas P base) (hsub : PartHas Q sub) (hsup : PartHas Q sup) :
    P (preScript base sub sup) := by
  unfold Typeset.preScript
  split
  · exact hbase.getD hP.empty
  · have hnone : P (Latex.braced "") := hP.braced (hP.weaken hP.empty)
    have hbraced : PartHas P (base.map Latex.braced) := hbase.map fun h => hP.braced (hP.weaken h)
    have hscripts := hP.append_of_start hnone (hP.scripts hsub hsup) (startsWithLetter_scripts sub sup)
    refine hP.append_of_start hscripts (hbraced.getD hP.empty) ?_
    cases base with
    | none => rfl
    | some base => exact startsWithLetter_braced

/-! ### Limits and large operators -/

theorem limit (upper : Bool) {function limit : Option String} (hfunction : PartHas P function)
    (hbase : PartHas P base) (hlimit : PartHas P limit) : P (Typeset.limit upper function base limit) := by
  have hmark : P (if upper then "^" else "_") := hP.construct (by cases upper <;> decide)
  have hstart : startsWithLetter (if upper then "^" else "_") = false := by cases upper <;> rfl
  have hne : (if upper then "^" else "_") ≠ "" := by cases upper <;> decide
  cases limit with
  | none =>
    have hmarker : P (Latex.errorMarker (if upper then "LimUpp incomplete" else "LimLow incomplete")) :=
      hP.errorMarker (hP.complaint (by cases upper <;> decide))
    have hbase := hP.append_of_start (hbase.getD hP.empty) hmarker startsWithLetter_braced
    cases base <;> exact hbase
  | some limit =>
    cases base with
    | none =>
      cases upper with
      | true => exact hP.command (hP.construct (by decide)) (hP.weaken hlimit.some)
      | false =>
        exact hP.append_of_start hlimit.some (hP.errorMarker (hP.complaint (by decide))) startsWithLetter_braced
    | some base =>
      have hbraced := hP.braced (hP.weaken hbase.some)
      exact hP.append_of_start (hfunction.getD hbraced) (hP.command hmark (hP.weaken hlimit.some))
        ((startsWithLetter_command hne).trans hstart)

theorem operatorSign {sign : Option String} (h : ∀ text ∈ sign, '\n' ∈ text.toList → P "\\\\") :
    P (operatorSign sign) := by
  unfold Typeset.operatorSign
  split
  · exact hP.construct (by decide)
  · next text =>
    have htext := h text rfl
    split
    · next c hc =>
      cases hsymbol : symbolOf? c with
      | none => exact hP.escape htext
      | some s => exact hP.symbol hsymbol
    · exact hP.escape htext

theorem nary {operator : LargeOperator} (h : (Form.nary operator).EscapesHave P) (hsub : PartHas Q sub)
    (hsup : PartHas Q sup) (hbase : PartHas P base) : P (nary operator sub sup base) := by
  have hlimits (location : Option LimitLocation) (integral : Bool) :
      P (limitsCommand location integral) ∧ startsWithLetter (limitsCommand location integral) = false := by
    unfold limitsCommand
    split <;> exact ⟨hP.construct (by decide), by decide⟩
  unfold Typeset.nary
  cases base with
  | none => exact hP.errorMarker (hP.complaint (by decide))
  | some base =>
    obtain ⟨hcommand, hstart⟩ := hlimits operator.limits ((operator.sign.filter (· ≠ "")).any isIntegral)
    have hsign : P (Typeset.operatorSign (operator.sign.filter (· ≠ ""))) := hP.operatorSign fun text htext =>
      h text (Option.mem_toList.mpr (Option.filter_eq_some_iff.mp htext).1)
    have hsign := hP.append_of_start hsign hcommand hstart
    have hscripts := hP.scripts (hsub.hide operator.hideSub) (hsup.hide operator.hideSup)
    have hlimited := hP.append_of_start hsign hscripts (startsWithLetter_scripts _ _)
    exact hP.between hlimited (hP.construct (by decide)) hbase.some rfl rfl

/-! ### Decorations -/

theorem accent (mark : Option String) (hbase : PartHas Q base) : P (accent mark base) := by
  unfold Typeset.accent
  cases base with
  | none => exact hP.errorMarker (hP.complaint (by decide))
  | some base =>
    dsimp only
    split
    · next name hname => exact hP.command (hP.accentCommand hname) hbase.some
    · have hmark : P "Accent?" := hP.construct (by decide)
      have hquestion : P (Latex.command "\\text" "Accent?") := hP.command (hP.construct (by decide)) (hP.weaken hmark)
      exact hP.append_of_start hquestion (hP.braced hbase.some) startsWithLetter_braced

theorem bar (position : VerticalPosition) (hbase : PartHas Q base) : P (bar position base) := by
  unfold Typeset.bar
  cases base with
  | none => exact hP.errorMarker (hP.complaint (by decide))
  | some base => cases position <;> exact hP.command (hP.construct (by decide)) hbase.some

theorem box (hbase : PartHas Q base) : P (box base) := by
  unfold Typeset.box
  cases base with
  | none => exact hP.errorMarker (hP.complaint (by decide))
  | some base => exact hP.command (hP.construct (by decide)) hbase.some

theorem groupCharacter (sign : Option String) (position : Option VerticalPosition) (hbase : PartHas P base) :
    P (groupCharacter sign position base) := by
  unfold Typeset.groupCharacter
  cases base with
  | none => exact hP.errorMarker (hP.complaint (by decide))
  | some base =>
    dsimp only
    split
    · split <;> exact hP.command (hP.construct (by decide)) (hP.weaken hbase.some)
    · exact hbase.some

theorem phantom (isShown : Bool) (hbase : PartHas P base) : P (phantom isShown base) := by
  unfold Typeset.phantom
  cases base with
  | none => exact hP.errorMarker (hP.complaint (by decide))
  | some base =>
    cases isShown with
    | true => exact hbase.some
    | false => exact hP.command (hP.construct (by decide)) (hP.weaken hbase.some)

/-! ### Delimiters -/

theorem segmentSeparator {separator : Option String} (h : ∀ text ∈ separator, '\n' ∈ text.toList → P "\\\\") :
    P (segmentSeparator separator) := by
  unfold Typeset.segmentSeparator
  cases separator with
  | none => exact hP.construct (by decide)
  | some s => exact hP.convertText (h s rfl)

/-- A fence that starts with no letter can grow. -/
theorem growingFence {name fence : String} (hname : P name) (hfence : P fence)
    (hstart : startsWithLetter fence = false) : P (growingFence name fence) := by
  unfold Typeset.growingFence
  split
  · exact hP.append_of_start hname (hP.construct (by decide)) rfl
  · exact hP.append_of_start hname hfence hstart

theorem pushAll {d : Draft} {fragments : List String} (hd : P d.latex) (h : ∀ f ∈ fragments, P f) :
    P (d.pushAll fragments).latex := by
  induction fragments generalizing d with
  | nil => exact hd
  | cons f fs ih =>
    refine ih ?_ fun g hg => h g (List.mem_cons_of_mem _ hg)
    rw [Draft.latex_push]
    exact hP.pushFragment hd (h f (List.mem_cons_self ..))

theorem pushSegments {separator : String} {d : Draft} {segments : List (List String)}
    (hseparator : ∀ s, P s → P (s ++ separator)) (hd : P d.latex) (h : ∀ s ∈ segments, ∀ f ∈ s, P f) :
    P (pushSegments separator d segments).latex := by
  induction segments generalizing d with
  | nil => exact hd
  | cons s segments ih =>
    refine ih (hP.pushAll ?_ (h s (List.mem_cons_self ..))) fun t ht => h t (List.mem_cons_of_mem _ ht)
    rw [Draft.latex_write]
    exact hseparator _ hd

theorem joinSegments {separator : String} {segments : List (List String)} (hseparator : ∀ s, P s → P (s ++ separator))
    (h : ∀ s ∈ segments, ∀ f ∈ s, P f) : P (joinSegments separator segments) := by
  cases segments with
  | nil => exact hP.empty
  | cons s segments =>
    have hfirst : P (Draft.empty.pushAll s).latex := hP.pushAll hP.empty (h s (List.mem_cons_self ..))
    exact hP.pushSegments hseparator hfirst fun t ht => h t (List.mem_cons_of_mem _ ht)

theorem fenced {fence : Fence} (htexts : (Form.delimiter fence).EscapesHave P) (hfence : Joins P fence)
    {content : String} (h : P content) : P (fenced fence content) := by
  unfold Typeset.fenced
  dsimp only
  split
  · next hgrows =>
    exact hP.append_of_start (hP.pushFragment (hfence.opening hgrows) h) (hfence.closing hgrows)
      (startsWithLetter_append (by decide))
  · refine hP.joinFragments fun f hf => ?_
    simp only [List.mem_cons, List.not_mem_nil, or_false] at hf
    rcases hf with rfl | rfl | rfl
    · exact hP.bracket (htexts fence.opening (by simp [Form.texts]))
    · exact h
    · exact hP.bracket (htexts fence.closing (by simp [Form.texts]))

theorem delimiter {fence : Fence} (htexts : (Form.delimiter fence).EscapesHave P) (hfence : Joins P fence)
    {absorbed : Option String} {segments : List (List String)} (habsorbed : PartHas P absorbed)
    (h : ∀ s ∈ segments, ∀ f ∈ s, P f) : P (delimiter fence absorbed segments) := by
  unfold Typeset.delimiter
  cases absorbed with
  | some latex => exact habsorbed.some
  | none => exact hP.fenced htexts hfence (hP.joinSegments hfence.separator h)

/-- Where texts can be joined anywhere, so can those of every delimiter. -/
theorem joins_of_append (happend : ∀ {s t : String}, P s → P t → P (s ++ t)) {fence : Fence}
    (h : (Form.delimiter fence).EscapesHave P) : Joins P fence := by
  have hgrowing {name fence : String} (hname : P name) (hfence : P fence) : P (Typeset.growingFence name fence) := by
    unfold Typeset.growingFence
    split
    · exact happend hname (hP.construct (by decide))
    · exact happend hname hfence
  have hseparator : P (Typeset.segmentSeparator fence.separator) := hP.segmentSeparator fun text htext =>
    h text (List.mem_append_right _ (Option.mem_toList.mpr htext))
  exact {
    separator s hs := happend hs hseparator
    opening _ := hgrowing (hP.construct (by decide)) (hP.bracket (h fence.opening (by simp [Form.texts])))
    closing _ := hgrowing (hP.construct (by decide)) (hP.bracket (h fence.closing (by simp [Form.texts]))) }

/-! ### Arrays -/

omit hP in
theorem environment_mem_environmentNames (fence : MatrixFence) : fence.environment ∈ environmentNames := by
  cases fence <;> decide

/-- The cells of a matrix are only asked for the property that the rows of an environment have to have. -/
theorem matrix (hQ : Kept Q Q) (hseparator : Q cellSeparator) (hencloses : Encloses Q P) (fence : Option Fence)
    {rows : List (List String)} (h : ∀ r ∈ rows, ∀ cell ∈ r, Q cell) : P (matrix fence rows) := by
  unfold Typeset.matrix
  split
  · exact hP.empty
  · refine hencloses _ (environment_mem_environmentNames _) _ fun latex hlatex => ?_
    obtain ⟨r, hr, rfl⟩ := List.mem_map.mp hlatex
    exact hQ.row hseparator (h r (List.mem_filter.mp hr).1)

theorem equationArray (hencloses : Encloses Q P) (choice : ArrayEnvironment) (fence : Option Fence)
    {rows : List String} (h : ∀ r ∈ rows, Q r) : P (equationArray choice fence rows) := by
  have hname : arrayEnvironment choice fence ∈ environmentNames := by
    unfold arrayEnvironment
    split
    · decide
    · cases choice <;> decide
  unfold Typeset.equationArray
  split
  · exact hP.empty
  · exact hencloses _ hname rows h

end Latex.Kept

end OfficeMath
