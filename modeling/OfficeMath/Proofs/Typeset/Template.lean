import OfficeMath.Proofs.Equation.Shown
import OfficeMath.Proofs.Latex.Template
import OfficeMath.Proofs.Typeset.InheritedConstruct
import OfficeMath.Proofs.Typeset.Lookup

/-! Constructs over LaTeX in which the names of some environments are left open. What a construct asks of the LaTeX of
    its parts has one answer for all names, so it is put together in one way from them, and it is made of their pieces
    and of those that it writes by itself. Closing brackets are told apart from all other characters: they only come
    from texts from outside, and from a degree that is shown. -/

namespace OfficeMath

open Latex

/-- Whether an argument has fences of its own is seen before it is set. -/
theorem Typeset.isFencedArgument_typeset {α : Type} (choice choice' : ArrayEnvironment) (enclosure : Enclosure α)
    (n : Node α) : isFencedArgument (n.typeset choice enclosure) = isFencedArgument (n.typeset choice' enclosure) := by
  rw [isFencedArgument, isFencedArgument, Node.onlyContentChild?_of_children (Node.children_typeset enclosure n),
    Node.onlyContentChild?_of_children (Node.children_typeset enclosure n), Option.any_map, Option.any_map]
  simp only [Node.form_eq (Node.head_typeset _ _)]

namespace Latex

/-- The command of an accent is in one of the tables. -/
theorem mem_of_accentCommand? {accent latex : String} (h : accentCommand? accent = some latex) :
    latex ∈ combiningAccents.map Prod.snd ++ spacingAccents.map Prod.snd := by
  have hcombining {c : Char} (h : combiningAccents.lookup c = some latex) :
      latex ∈ combiningAccents.map Prod.snd ++ spacingAccents.map Prod.snd :=
    List.mem_append_left _ (List.mem_map_of_mem (f := Prod.snd) (Text.mem_of_lookup h))
  have hspacing (h : spacingAccents.lookup accent = some latex) :
      latex ∈ combiningAccents.map Prod.snd ++ spacingAccents.map Prod.snd :=
    List.mem_append_right _ (List.mem_map_of_mem (f := Prod.snd) (Text.mem_of_lookup h))
  unfold accentCommand? at h
  split at h
  · rcases Option.or_eq_some_iff.mp h with h | ⟨-, h⟩
    · exact hcombining h
    · exact hspacing h
  · split at h
    · exact hcombining h
    · exact hspacing h

theorem closingBracket_mem_of_bracket {fence : String} (h : ']' ∈ (bracket fence).toList) : ']' ∈ fence.toList := by
  unfold bracket at h
  cases hfence : brackets.lookup fence with
  | none =>
    rw [hfence] at h
    exact literal_closingBracket.mem_of_mem_escape h
  | some latex =>
    have hbrackets : ∀ p ∈ brackets, ']' ∈ p.2.toList → ']' ∈ p.1.toList := by decide
    rw [hfence] at h
    exact hbrackets _ (Text.mem_of_lookup hfence) h

namespace Templated

variable {ι : Type} {permits : Piece → Prop} {s t : ArrayEnvironment → String} {text name : String}
  {f : ArrayEnvironment → ι → String}

/-- A test that has one answer for all choices decides between texts for all of them. -/
theorem ite {p : ArrayEnvironment → Prop} [∀ choice, Decidable (p choice)] (hp : ∀ choice, p choice ↔ p .aligned)
    (hs : p .aligned → Templated permits s) (ht : ¬p .aligned → Templated permits t) :
    Templated permits fun choice => if p choice then s choice else t choice := by
  by_cases h : p .aligned
  · exact .congr (fun choice => if_pos ((hp choice).mpr h)) (hs h)
  · exact .congr (fun choice => if_neg fun hchoice => h ((hp choice).mp hchoice)) (ht h)

theorem mark {m : Mark} (h : permits (.mark m)) : Templated permits fun choice => m.latex choice.name := by
  refine ⟨[.mark m], fun p hp => ?_, fun choice => by simp [fill, Piece.chars]⟩
  rwa [List.mem_singleton.mp hp]

/-- The LaTeX of each of the parts is made of permitted pieces for all choices. -/
def Each (permits : Piece → Prop) (f : ArrayEnvironment → ι → String) (parts : List ι) : Prop :=
  ∀ i ∈ parts, Templated permits fun choice => f choice i

section

variable (hchar : ∀ c, c ≠ ']' → permits (.char c))

include hchar

/-! ### Texts -/

theorem written (h : ']' ∈ text.toList → permits (.char ']')) : Templated permits fun _ => text := by
  refine .const fun c hc => ?_
  by_cases heq : c = ']'
  · subst heq
    exact h hc
  · exact hchar c heq

theorem fixed (h : ']' ∉ text.toList) : Templated permits fun _ => text := written hchar fun hmem => absurd hmem h

theorem braced (h : Templated permits s) : Templated permits fun choice => braced (s choice) :=
  ((fixed hchar (by decide)).append h).append (fixed hchar (by decide))

theorem command (hname : ']' ∉ name.toList) (h : Templated permits s) :
    Templated permits fun choice => command name (s choice) :=
  (fixed hchar hname).append (h.braced hchar)

theorem pushFragment (hs : Templated permits s) (ht : Templated permits t) :
    Templated permits fun choice => pushFragment (s choice) (t choice) := by
  have hgap : Templated permits fun choice => gap (s choice) (t choice) :=
    .ite (fun choice => by rw [hs.runsOn_eq ht choice .aligned]) (fun _ => fixed hchar (by decide))
      fun _ => fixed hchar (by decide)
  exact .congr (fun choice => pushFragment_eq_gap _ _) ((hs.append hgap).append ht)

theorem pushFragments {parts : List ι} (hs : Templated permits s) (h : Each permits f parts) :
    Templated permits fun choice => (parts.map (f choice)).foldl Latex.pushFragment (s choice) := by
  induction parts generalizing s with
  | nil => exact hs
  | cons i parts ih =>
    obtain ⟨hi, hparts⟩ := List.forall_mem_cons.mp h
    exact ih (hs.pushFragment hchar hi) hparts

theorem joinFragments {parts : List ι} (h : Each permits f parts) :
    Templated permits fun choice => joinFragments (parts.map (f choice)) :=
  .congr (fun _ => joinFragments_eq _) (pushFragments hchar (fixed hchar (by decide)) h)

theorem intercalate {separator : String} (hseparator : ']' ∉ separator.toList) {parts : List ι}
    (h : Each permits f parts) : Templated permits fun choice => separator.intercalate (parts.map (f choice)) := by
  induction parts with
  | nil => exact fixed hchar (by decide)
  | cons i parts ih =>
    obtain ⟨hi, hparts⟩ := List.forall_mem_cons.mp h
    cases parts with
    | nil => exact .congr (fun choice => by simp) hi
    | cons j parts =>
      refine .congr (fun choice => ?_) ((hi.append (fixed hchar hseparator)).append (ih hparts))
      exact String.intercalate_cons_cons

/-! ### Fractions and roots -/

theorem fraction {style : FractionStyle} {num den : Option ι} (h : Each permits f (Kind.fraction style num den).shown) :
    Templated permits fun choice => Typeset.fraction style (num.map (f choice)) (den.map (f choice)) := by
  cases num with
  | none => exact fixed hchar (by decide)
  | some num =>
    cases den with
    | none => exact fixed hchar (by decide)
    | some den =>
      have hnum : Templated permits fun choice => f choice num := h num (by simp [Kind.shown])
      have hden := (h den (by simp [Kind.shown])).braced hchar
      cases style with
      | bar => exact (hnum.command hchar (by decide)).append hden
      | noBar => exact (hnum.command hchar (by decide)).append hden
      | linear => exact (((hnum.braced hchar).append (fixed hchar (by decide))).append hden).braced hchar
      | skewed => exact ((hnum.braced hchar).append (fixed hchar (by decide))).append hden

theorem radical {hideDegree : Bool} {base degree : Option ι}
    (h : Each permits f (Kind.radical hideDegree base degree).shown)
    (hdegree : hideDegree = false → base.isSome = true → degree.isSome = true → permits (.char ']')) :
    Templated permits fun choice => Typeset.radical hideDegree (base.map (f choice)) (degree.map (f choice)) := by
  cases base with
  | none => exact fixed hchar (by decide)
  | some base =>
    have hbase : Templated permits fun choice => f choice base := h base (by simp [Kind.shown])
    have hplain : Templated permits fun choice => Latex.command "\\sqrt" (f choice base) :=
      hbase.command hchar (by decide)
    cases hideDegree with
    | true => exact hplain
    | false =>
      cases degree with
      | none => exact hplain
      | some degree =>
        have hd : Templated permits fun choice => f choice degree := h degree (by simp [Kind.shown])
        have hopening : Templated permits fun _ => "\\sqrt[" := fixed hchar (by decide)
        have hclosing : Templated permits fun _ => "]" := written hchar fun _ => hdegree rfl rfl rfl
        have hshown := ((hopening.append hd).append hclosing).append (hbase.braced hchar)
        refine .congr (fun choice => ?_) (ite (p := fun choice => Typeset.isShownDegree (f choice degree) = true)
          (fun choice => by rw [hd.isShownDegree_eq choice .aligned]) (fun _ => hshown) fun _ => hplain)
        unfold Typeset.radical
        cases hshow : Typeset.isShownDegree (f choice degree) <;> simp [Option.filter, hshow]

/-! ### Scripts -/

theorem scripts {sub sup : Option ι} (hsub : Each permits f sub.toList) (hsup : Each permits f sup.toList) :
    Templated permits fun choice => Typeset.scripts (sub.map (f choice)) (sup.map (f choice)) := by
  have hpart {name : String} {part : Option ι} (hname : ']' ∉ name.toList) (h : Each permits f part.toList) :
      Templated permits fun choice => ((part.map (f choice)).map (Latex.command name)).getD "" := by
    cases part with
    | none => exact fixed hchar (by decide)
    | some i => exact (h i (List.mem_singleton_self i)).command hchar hname
  exact (hpart (by decide) hsub).append (hpart (by decide) hsup)

theorem script {base sub sup : Option ι} (h : Each permits f (Kind.script base sub sup).shown) :
    Templated permits fun choice =>
      Typeset.script (base.map (f choice)) (sub.map (f choice)) (sup.map (f choice)) := by
  have hbase : Templated permits fun choice => (base.map (f choice)).getD "" := by
    cases base with
    | none => exact fixed hchar (by decide)
    | some i => exact h i (by simp [Kind.shown, Kind.parts])
  have hscripts : Templated permits fun choice => Typeset.scripts (sub.map (f choice)) (sup.map (f choice)) :=
    scripts hchar (fun i hi => h i (by simp_all [Kind.shown, Kind.parts]))
      fun i hi => h i (by simp_all [Kind.shown, Kind.parts])
  exact ite (fun choice => by simp) (fun _ => hbase) fun _ => (hbase.braced hchar).append hscripts

theorem preScript {base sub sup : Option ι} (h : Each permits f (Kind.preScript base sub sup).shown) :
    Templated permits fun choice =>
      Typeset.preScript (base.map (f choice)) (sub.map (f choice)) (sup.map (f choice)) := by
  have hscripts : Templated permits fun choice => Typeset.scripts (sub.map (f choice)) (sup.map (f choice)) :=
    scripts hchar (fun i hi => h i (by simp_all [Kind.shown, Kind.parts]))
      fun i hi => h i (by simp_all [Kind.shown, Kind.parts])
  have hempty : Templated permits fun _ => Latex.braced "" := fixed hchar (by decide)
  have hbase : Templated permits fun choice => (base.map (f choice)).getD "" := by
    cases base with
    | none => exact fixed hchar (by decide)
    | some i => exact h i (by simp [Kind.shown, Kind.parts])
  have hbraced : Templated permits fun choice => ((base.map (f choice)).map Latex.braced).getD "" := by
    cases base with
    | none => exact fixed hchar (by decide)
    | some i => exact Templated.braced hchar (h i (by simp [Kind.shown, Kind.parts]))
  exact ite (fun choice => by simp) (fun _ => hbase) fun _ => (hempty.append hscripts).append hbraced

/-! ### Limits and large operators -/

theorem limit {upper : Bool} {function : Option String} (hfunction : ∀ latex ∈ function, ']' ∉ latex.toList)
    {base limit : Option ι} (h : Each permits f (Kind.limit upper base limit).shown) :
    Templated permits fun choice => Typeset.limit upper function (base.map (f choice)) (limit.map (f choice)) := by
  have hmark : ']' ∉ (if upper then "^" else "_").toList := by cases upper <;> decide
  cases limit with
  | none =>
    have hmarker : Templated permits fun _ =>
        errorMarker (if upper then "LimUpp incomplete" else "LimLow incomplete") :=
      fixed hchar (by cases upper <;> decide)
    cases base with
    | none => exact (fixed hchar (by decide)).append hmarker
    | some base =>
      have hbase : Templated permits fun choice => f choice base := h base (by simp [Kind.shown, Kind.parts])
      exact hbase.append hmarker
  | some limit =>
    have hlimit : Templated permits fun choice => f choice limit := h limit (by simp [Kind.shown, Kind.parts])
    cases base with
    | none =>
      cases upper with
      | true => exact hlimit.command hchar (by decide)
      | false => exact hlimit.append (fixed hchar (by decide))
    | some base =>
      have hbase := (h base (by simp [Kind.shown, Kind.parts])).braced hchar
      cases function with
      | none => exact hbase.append (hlimit.command hchar hmark)
      | some latex => exact (fixed hchar (hfunction latex rfl)).append (hlimit.command hchar hmark)

theorem operatorSign {sign : Option String} (h : ∀ text ∈ sign, ']' ∈ text.toList → permits (.char ']')) :
    Templated permits fun _ => Typeset.operatorSign sign := by
  unfold Typeset.operatorSign
  split
  · exact fixed hchar (by decide)
  · next text =>
    have hescape : Templated permits fun _ => escape text := written hchar fun hmem =>
      h text rfl (literal_closingBracket.mem_of_mem_escape hmem)
    split
    · next c hc =>
      cases hsymbol : symbolOf? c with
      | none => exact hescape
      | some latex => exact fixed hchar (literal_closingBracket.not_mem_of_symbolOf? hsymbol)
    · exact hescape

theorem nary {operator : LargeOperator}
    (htexts : ∀ text ∈ (Form.nary operator).texts, ']' ∈ text.toList → permits (.char ']'))
    {sub sup base : Option ι} (h : Each permits f (Kind.nary operator sub sup base).shown) :
    Templated permits fun choice =>
      Typeset.nary operator (sub.map (f choice)) (sup.map (f choice)) (base.map (f choice)) := by
  cases base with
  | none => exact fixed hchar (by decide)
  | some base =>
    have hsign : Templated permits fun _ => Typeset.operatorSign (operator.sign.filter (· ≠ "")) :=
      operatorSign hchar fun text htext => htexts text (Option.mem_toList.mpr (Option.filter_eq_some_iff.mp htext).1)
    have hlimits : Templated permits fun _ =>
        Typeset.limitsCommand operator.limits ((operator.sign.filter (· ≠ "")).any Typeset.isIntegral) := by
      unfold Typeset.limitsCommand
      split <;> exact fixed hchar (by decide)
    have hbase : Templated permits fun choice => f choice base := h base (by simp [Kind.shown])
    have hscripts : Templated permits fun choice => Typeset.scripts
        ((if operator.hideSub then none else sub).map (f choice))
        ((if operator.hideSup then none else sup).map (f choice)) := by
      refine scripts hchar (fun i hi => h i ?_) fun i hi => h i ?_
      · cases hhide : operator.hideSub <;> simp_all [Kind.shown]
      · cases hhide : operator.hideSup <;> simp_all [Kind.shown]
    have hhidden (hide : Bool) (part : Option ι) (choice : ArrayEnvironment) :
        (if hide then none else part.map (f choice)) = (if hide then none else part).map (f choice) := by
      cases hide <;> rfl
    have hspace : Templated permits fun _ => " " := fixed hchar (by decide)
    refine .congr (fun choice => ?_) ((((hsign.append hlimits).append hscripts).append hspace).append hbase)
    rw [← hhidden, ← hhidden]
    rfl

/-! ### Decorations -/

theorem accent {mark : Option String} {base : Option ι} (h : Each permits f (Kind.accent mark base).shown) :
    Templated permits fun choice => Typeset.accent mark (base.map (f choice)) := by
  cases base with
  | none => exact fixed hchar (by decide)
  | some base =>
    have hbase : Templated permits fun choice => f choice base := h base (List.mem_singleton_self base)
    have hnames : ∀ name ∈ combiningAccents.map Prod.snd ++ spacingAccents.map Prod.snd, ']' ∉ name.toList := by decide
    simp only [Typeset.accent, Option.map_some]
    split
    · next name hname => exact hbase.command hchar (hnames name (mem_of_accentCommand? hname))
    · have hquestion : Templated permits fun _ => Latex.command "\\text" "Accent?" := fixed hchar (by decide)
      exact hquestion.append (hbase.braced hchar)

theorem bar {position : VerticalPosition} {base : Option ι} (h : Each permits f (Kind.bar position base).shown) :
    Templated permits fun choice => Typeset.bar position (base.map (f choice)) := by
  cases base with
  | none => exact fixed hchar (by decide)
  | some base =>
    have hbase : Templated permits fun choice => f choice base := h base (List.mem_singleton_self base)
    cases position <;> exact hbase.command hchar (by decide)

theorem box {bordered : Bool} {base : Option ι} (h : Each permits f (Kind.box bordered base).shown) :
    Templated permits fun choice => Typeset.box (base.map (f choice)) := by
  cases base with
  | none => exact fixed hchar (by decide)
  | some base =>
    have hbase : Templated permits fun choice => f choice base := h base (List.mem_singleton_self base)
    exact hbase.command hchar (by decide)

theorem groupCharacter {sign : Option String} {position : Option VerticalPosition} {base : Option ι}
    (h : Each permits f (Kind.groupCharacter sign position base).shown) :
    Templated permits fun choice => Typeset.groupCharacter sign position (base.map (f choice)) := by
  cases base with
  | none => exact fixed hchar (by decide)
  | some base =>
    have hbase : Templated permits fun choice => f choice base := h base (List.mem_singleton_self base)
    simp only [Typeset.groupCharacter, Option.map_some]
    split
    · split <;> exact hbase.command hchar (by decide)
    · exact hbase

theorem phantom {isShown : Bool} {base : Option ι} (h : Each permits f (Kind.phantom isShown base).shown) :
    Templated permits fun choice => Typeset.phantom isShown (base.map (f choice)) := by
  cases base with
  | none => exact fixed hchar (by decide)
  | some base =>
    have hbase : Templated permits fun choice => f choice base := h base (List.mem_singleton_self base)
    cases isShown with
    | true => exact hbase
    | false => exact hbase.command hchar (by decide)

/-! ### Delimiters -/

theorem pushSegments {separator : String} (hseparator : ']' ∈ separator.toList → permits (.char ']'))
    {d : ArrayEnvironment → Draft} (hd : Templated permits fun choice => (d choice).latex) {segments : List (List ι)}
    (h : Each permits f segments.flatten) :
    Templated permits fun choice =>
      (Typeset.pushSegments separator (d choice) (segments.map fun s => s.map (f choice))).latex := by
  induction segments generalizing d with
  | nil => exact hd
  | cons s segments ih =>
    obtain ⟨hs, hsegments⟩ := List.forall_mem_append.mp h
    refine ih (d := fun choice => ((d choice).write separator).pushAll (s.map (f choice))) ?_ hsegments
    have hwritten : Templated permits fun choice => ((d choice).write separator).latex :=
      .congr (fun choice => Draft.latex_write ..) (hd.append (written hchar hseparator))
    exact .congr (fun choice => Draft.latex_pushAll ..) (hwritten.pushFragments hchar hs)

theorem joinSegments {separator : String} (hseparator : ']' ∈ separator.toList → permits (.char ']'))
    {segments : List (List ι)} (h : Each permits f segments.flatten) :
    Templated permits fun choice => Typeset.joinSegments separator (segments.map fun s => s.map (f choice)) := by
  cases segments with
  | nil => exact fixed hchar (by decide)
  | cons s segments =>
    obtain ⟨hs, hsegments⟩ := List.forall_mem_append.mp h
    have hfirst : Templated permits fun choice => (Draft.empty.pushAll (s.map (f choice))).latex :=
      joinFragments hchar hs
    exact pushSegments hchar hseparator hfirst hsegments

theorem fenced {fence : Fence} (htexts : ∀ text ∈ (Form.delimiter fence).texts, ']' ∈ text.toList → permits (.char ']'))
    (hs : Templated permits s) : Templated permits fun choice => Typeset.fenced fence (s choice) := by
  have hbracket {text : String} (htext : text ∈ (Form.delimiter fence).texts) :
      Templated permits fun _ => bracket text :=
    written hchar fun hmem => htexts text htext (closingBracket_mem_of_bracket hmem)
  have hopening : Templated permits fun _ => bracket fence.opening := hbracket (by simp [Form.texts])
  have hclosing : Templated permits fun _ => bracket fence.closing := hbracket (by simp [Form.texts])
  have hgrowing {name latex : String} (hname : ']' ∉ name.toList) (h : Templated permits fun _ => latex) :
      Templated permits fun _ => Typeset.growingFence name latex := by
    refine (fixed hchar hname).append ?_
    split
    · exact fixed hchar (by decide)
    · exact h
  unfold Typeset.fenced
  dsimp only
  split
  · exact ((hgrowing (by decide) hopening).pushFragment hchar hs).append (hgrowing (by decide) hclosing)
  · have hempty : Templated permits fun _ => "" := fixed hchar (by decide)
    have hpushed := ((hempty.pushFragment hchar hopening).pushFragment hchar hs).pushFragment hchar hclosing
    exact .congr (fun choice => joinFragments_eq _) hpushed

theorem delimiter {fence : Fence}
    (htexts : ∀ text ∈ (Form.delimiter fence).texts, ']' ∈ text.toList → permits (.char ']'))
    {segments : List (List ι)} (h : Each permits f (Kind.delimiter fence segments).shown) :
    Templated permits fun choice => Typeset.delimiter fence none (segments.map fun s => s.map (f choice)) := by
  refine fenced hchar htexts (joinSegments hchar ?_ h)
  unfold Typeset.segmentSeparator
  cases hseparator : fence.separator with
  | none => exact fun hmem => absurd hmem (by decide)
  | some separator =>
    intro hmem
    exact htexts separator (by simp [Form.texts, hseparator]) (literal_closingBracket.mem_convertText.mp hmem)

/-! ### Arrays -/

theorem row {cells : List ι} (h : Each permits f cells) : Templated permits fun choice => row (cells.map (f choice)) :=
  intercalate hchar (by decide) h

/-- An environment between the texts that begin and end it. -/
theorem rows {first last : ArrayEnvironment → String} (hfirst : Templated permits first)
    (hlast : Templated permits last) {rows : List ι} (h : Each permits f rows) :
    Templated permits fun choice =>
      first choice ++ "\n" ++ rowSeparator.intercalate (rows.map (f choice)) ++ "\n" ++ last choice := by
  have hline : Templated permits fun _ => "\n" := fixed hchar (by decide)
  exact (((hfirst.append hline).append (intercalate hchar (by decide) h)).append hline).append hlast

theorem environment (hname : ']' ∉ name.toList) {rows : List ι} (h : Each permits f rows) :
    Templated permits fun choice => environment name (rows.map (f choice)) := by
  have hcommand {mark : String} (hmark : ']' ∉ mark.toList) : Templated permits fun _ => Latex.command mark name :=
    Templated.command hchar hmark (fixed hchar hname)
  have hfirst : Templated permits fun _ => Latex.command "\\begin" name := hcommand (by decide)
  exact Templated.rows hchar hfirst (hcommand (by decide)) h

theorem matrix {fence : Option Fence} {rows : List (List ι)} (h : Each permits f rows.flatten) :
    Templated permits fun choice => Typeset.matrix fence (rows.map fun r => r.map (f choice)) := by
  have hfilter (choice : ArrayEnvironment) : (rows.map fun r => r.map (f choice)).filter (!·.isEmpty) =
      (rows.filter (!·.isEmpty)).map fun r => r.map (f choice) := by
    rw [List.filter_map]
    simp [Function.comp_def]
  have hrows : Each permits (fun choice r => Latex.row (r.map (f choice))) (rows.filter (!·.isEmpty)) := by
    intro r hr
    exact row hchar fun i hi => h i (List.mem_flatten.mpr ⟨r, (List.mem_filter.mp hr).1, hi⟩)
  have hname : ']' ∉ (fence.elim .none Fence.matrixFence).environment.toList := by
    cases fence.elim .none Fence.matrixFence <;> decide
  unfold Typeset.matrix
  simp only [hfilter]
  cases hfilled : rows.filter (!·.isEmpty) with
  | nil => exact fixed hchar (by decide)
  | cons r rest =>
    rw [hfilled] at hrows
    refine .congr (fun choice => ?_) (Templated.environment hchar hname hrows)
    simp [Function.comp_def]

theorem equationArray {fence : Option Fence} {rows : List ι} (h : Each permits f rows)
    (hmark : rows ≠ [] → fence.any Fence.isCases = false → ∀ m, permits (.mark m)) :
    Templated permits fun choice => Typeset.equationArray choice fence (rows.map (f choice)) := by
  unfold Typeset.equationArray Typeset.arrayEnvironment
  cases hrows : rows with
  | nil => exact fixed hchar (by decide)
  | cons r rest =>
    rw [hrows] at h
    cases hcases : fence.any Fence.isCases with
    | true =>
      have hname : ']' ∉ "cases".toList := by decide
      exact Templated.environment hchar hname h
    | false =>
      have hmarks := hmark (by simp [hrows]) hcases
      exact Templated.rows hchar (mark (hmarks .begins)) (mark (hmarks .ends)) h

/-! ### Functions -/

theorem renderedName (hs : Templated permits s) : Templated permits fun choice => Typeset.renderedName (s choice) := by
  have htrim := hs.trim
  have hcommand (choice : ArrayEnvironment) : functionCommand? (Text.trim (s choice)) =
      functionCommand? (Text.trim (s .aligned)) := htrim.functionCommand?_eq choice .aligned
  unfold Typeset.renderedName
  simp only [hcommand]
  split
  · next name hname => exact fixed hchar (literal_closingBracket.not_mem_of_functionCommand? hname).2
  · refine ite (fun choice => ?_) (fun _ => htrim) fun _ => htrim.command hchar (by decide)
    rw [htrim.head?_eq choice .aligned, htrim.occursIn_operatorname_eq choice .aligned]

theorem namelessFunction {arguments : List ι} (h : Each permits f arguments) :
    Templated permits fun choice => Typeset.namelessFunction (arguments.map (f choice)) := by
  have hmissing : Templated permits fun _ => "ERROR: " ++ "Missing function name; args: " := fixed hchar (by decide)
  have hlisted : Templated permits fun choice => ", ".intercalate (arguments.map (f choice)) :=
    intercalate hchar (by decide) h
  refine ite (fun choice => by simp) (fun _ => fixed hchar (by decide)) fun _ => ?_
  exact .congr (fun choice => by rw [errorMarker, String.append_assoc]) ((hmissing.append hlisted).braced hchar)

theorem application {α : Type} {enclosure : Enclosure α} {arguments : List (Node α)} (hs : Templated permits s)
    (h : Each permits (fun choice n => (n.typeset choice enclosure).note) arguments) :
    Templated permits fun choice =>
      Typeset.application (s choice) (arguments.map (Node.typeset choice enclosure)) := by
  have hunderscore (choice : ArrayEnvironment) :
      (s choice).toList.contains '_' = true ↔ (s .aligned).toList.contains '_' = true := by
    simp [hs.underscore_mem_iff choice .aligned]
  have hspace {t : ArrayEnvironment → String} (ht : Templated permits t) :
      Templated permits fun choice => s choice ++ " " ++ t choice := (hs.append (fixed hchar (by decide))).append ht
  have hparens {t : ArrayEnvironment → String} (ht : Templated permits t) :
      Templated permits fun choice => s choice ++ "(" ++ t choice ++ ")" :=
    ((hs.append (fixed hchar (by decide))).append ht).append (fixed hchar (by decide))
  rcases arguments with _ | ⟨argument, _ | ⟨second, rest⟩⟩
  · exact hs
  · have hargument := h argument (List.mem_singleton_self argument)
    refine ite (fun choice => hs.eq_lim_iff choice .aligned) (fun _ => hargument.command hchar (by decide)) fun _ => ?_
    refine ite hunderscore (fun _ => hspace hargument) fun _ => ?_
    refine ite (fun choice => ?_) (fun _ => hs.pushFragment hchar hargument) fun _ => hparens hargument
    rw [Typeset.isFencedArgument_typeset choice .aligned]
  · have hlist {separator : String} (hseparator : ']' ∉ separator.toList) : Templated permits fun choice =>
        separator.intercalate (((argument :: second :: rest).map (Node.typeset choice enclosure)).map Node.note) :=
      .congr (fun choice => by rw [List.map_map]; rfl) (intercalate hchar hseparator h)
    exact ite hunderscore (fun _ => hspace (hlist (by decide))) fun _ => hparens (hlist (by decide))

end

end Templated

end Latex

end OfficeMath
