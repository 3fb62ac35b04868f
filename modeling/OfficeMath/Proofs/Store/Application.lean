import OfficeMath.Proofs.Store.Absorption
import OfficeMath.Proofs.Typeset.Underscore

/-! Functions applied to arguments. A name with a subscript of its own stands before its arguments without parentheses,
    and it is known by the underscore in its LaTeX. Of the names that are typed, with a superscript or without, those
    with an underscore in them are taken for such a name; all others are followed by their arguments in parentheses,
    in the fences that a single argument has, or below a limit. -/

namespace OfficeMath

open Node (note typeset)

namespace Typeset

variable {name : String} {arguments : List (Node String)}

/-- A name with an underscore stands before its arguments without parentheses. -/
theorem application_of_underscore (hname : '_' ∈ name.toList) (harguments : arguments ≠ []) :
    application name arguments = name ++ " " ++ " ".intercalate (arguments.map note) := by
  have hlim : name ≠ "\\lim" := by
    rintro rfl
    exact absurd hname (by decide)
  rcases arguments with _ | ⟨a, _ | ⟨b, arguments⟩⟩
  · exact absurd rfl harguments
  · simp [application, hname, hlim]
  · simp [application, hname]

theorem application_singleton (hname : '_' ∉ name.toList) (argument : Node String) :
    application name [argument] =
      if name = "\\lim" then Latex.command "\\lim_" argument.note
      else if isFencedArgument argument then Latex.pushFragment name argument.note
      else name ++ "(" ++ argument.note ++ ")" := by
  simp [application, hname]

theorem application_cons_cons (hname : '_' ∉ name.toList) (a b : Node String) :
    application name (a :: b :: arguments) =
      name ++ "(" ++ ", ".intercalate ((a :: b :: arguments).map note) ++ ")" := by
  simp [application, hname]

end Typeset

namespace Store

variable {limit f name : Nat} {root : Xml.Element} {s : Store} {q : Equation} {entry : Entry} {function : Cell}
  {arguments : List Nat} {choice : ArrayEnvironment} {text : String} {sup : Option Nat}

/-- The text is typed as the name of a function, as runs or as runs under a superscript and no subscript. -/
inductive TypesName (s : Store) (name : Nat) (text : String) : Option Nat → Prop
  | runs (htext : s.plainText name = .ok (some text)) : TypesName s name text none
  | superscript {c base : Nat} {script : Cell} {sup : Option Nat} (honly : s.onlyContentChild name = .ok (some c))
      (hscript : s.cell c = .ok script) (hkind : script.kind = .script (some base) none sup)
      (htext : s.plainText base = .ok (some text)) : TypesName s name text sup

/-- An underscore is typed in the name, or the LaTeX of its superscript has one. -/
def ShowsUnderscore (s : Store) (choice : ArrayEnvironment) (text : String) (sup : Option Nat) : Prop :=
  '_' ∈ text.toList ∨ ∃ id ∈ sup, ∃ latex, s.nodeLatex choice id = .ok latex ∧ '_' ∈ latex.toList

/-- The LaTeX of a function is its name with the arguments below a limit, in the fences that a single argument has, or
    in parentheses. -/
structure IsApplied (s : Store) (name : String) (arguments : List Nat) (latexes : List String) (latex : String) :
    Prop where
  limit : ∀ a, latexes = [a] → name = "\\lim" → latex = "\\lim_\x7b" ++ a ++ "\x7d"
  fenced : ∀ id a, arguments = [id] → latexes = [a] → name ≠ "\\lim" → s.isFencedArgument id = .ok true →
    latex = Latex.pushFragment name a
  parenthesized : (∀ id, arguments = [id] → name ≠ "\\lim" ∧ s.isFencedArgument id ≠ .ok true) →
    latex = name ++ "(" ++ ", ".intercalate latexes ++ ")"

/-- The name and the arguments of a function stand among the children of its node. -/
theorem function_of_cell (hkind : entry.cell.kind = .function (some name) arguments) :
    ∃ n cs, entry.node.kind = .function (some n) cs ∧ n.note = name ∧ cs.map note = arguments ∧
      n.isTag "fName" = true := by
  have hkind : entry.node.kind.map note = .function (some name) arguments := hkind
  unfold Node.kind at hkind ⊢
  cases hform : entry.node.form with
  | function =>
    rw [hform] at hkind
    dsimp only [Kind.map] at hkind
    injection hkind with hname harguments
    obtain ⟨n, hn, rfl⟩ := Option.map_eq_some_iff.mp hname
    exact ⟨n, _, by rw [hn], rfl, harguments, Node.isTag_of_contentChild? hn⟩
  | _ =>
    rw [hform] at hkind
    cases hkind

/-- The base of a construct with a superscript alone stands among the children of its node. -/
theorem superscript_of_cell {base : Nat} (hkind : entry.cell.kind = .script (some base) none sup) :
    ∃ b sup', entry.node.kind = .script (some b) none sup' ∧ b.note = base ∧ sup'.map note = sup ∧
      b.isTag "e" = true := by
  have hkind : entry.node.kind.map note = .script (some base) none sup := hkind
  unfold Node.kind at hkind ⊢
  cases hform : entry.node.form with
  | script =>
    rw [hform] at hkind
    dsimp only [Kind.map] at hkind
    injection hkind with hbase hsub hsup
    obtain ⟨b, hb, rfl⟩ := Option.map_eq_some_iff.mp hbase
    exact ⟨b, _, by rw [hb, Option.map_eq_none_iff.mp hsub], rfl, hsup, Node.isTag_of_contentChild? hb⟩
  | _ =>
    rw [hform] at hkind
    cases hkind

theorem form_of_isTag (hq : Equation.ofElement limit root = .ok q) (hentry : entry ∈ q.outline) {tag : String}
    (htag : entry.node.isTag tag = true) (hmem : tag ∈ containerTags) : entry.node.form = .generic :=
  Node.form_of_container (Equation.exists_head_of_mem_outline hq hentry) hmem htag

/-- The LaTeX of a name that is typed has an underscore if and only if one is shown in it. -/
theorem underscore_mem_functionName_iff (hq : Equation.ofElement limit root = .ok q) (hentry : entry ∈ q.outline)
    (hform : entry.node.form = .generic) (hname : q.store.TypesName entry.id text sup) :
    '_' ∈ (Typeset.functionName (entry.typeset choice)).toList ↔ q.store.ShowsUnderscore choice text sup := by
  have hplain {around : Entry} (haround : around ∈ q.outline) :
      q.store.plainText around.id = .ok around.node.plainText? :=
    plainText_eq (Equation.holds_store q around haround) (Equation.lists_store haround)
  cases hname with
  | runs htext =>
    rw [hplain hentry, Except.ok.injEq] at htext
    rw [Node.underscore_mem_functionName_of_runs hform htext]
    simp [ShowsUnderscore]
  | superscript hsole hscript hkind htext =>
    have hchild : q.store.onlyContentChild entry.id = .ok (entry.node.onlyContentChild?.map note) :=
      onlyContentChild_eq (Equation.lists_store hentry)
    obtain ⟨c, honly, rfl⟩ := Option.map_eq_some_iff.mp (Except.ok.inj (hchild.symm.trans hsole))
    have hc := Equation.child_mem_outline hentry (Node.mem_children_of_onlyContentChild? honly)
    obtain rfl := Except.ok.inj ((Equation.holds_store q _ hc).symm.trans hscript)
    obtain ⟨b, ds, hscripts, rfl, rfl, htag⟩ := superscript_of_cell hkind
    have hparts : ∀ d ∈ c.kind.parts, (entry.child c).child d ∈ q.outline := fun d hd =>
      Equation.child_mem_outline hc (Node.mem_children_of_parts hd)
    have hscripts : c.kind = .script (some b) none ds := hscripts
    rw [hscripts] at hparts
    have hb := hparts b (by simp [Kind.parts])
    rw [show b.note = ((entry.child c).child b).id from rfl, hplain hb, Except.ok.injEq] at htext
    have hbase := form_of_isTag hq hb htag (by decide)
    rw [Node.underscore_mem_functionName_of_superscript hform honly hscripts hbase htext, ShowsUnderscore]
    refine or_congr_right ?_
    cases ds with
    | none => simp
    | some d =>
      have hlatex : q.store.nodeLatex choice d.note = .ok (d.typeset choice (entry.inner.inside c)).note :=
        nodeLatex_eq_note hq choice (hparts d (by simp [Kind.parts]))
      simp [hlatex]

/-- Arguments are put below, into fences or between parentheses where no underscore stands in the name. -/
theorem isApplied_application {N : String} (hN : '_' ∉ N.toList) (hentry : entry ∈ q.outline) {cs : List (Node Nat)}
    (hcs : ∀ c ∈ cs, c ∈ entry.node.children) (hne : cs ≠ []) :
    q.store.IsApplied N (cs.map note) ((cs.map (typeset choice entry.inner)).map note)
      (Typeset.application N (cs.map (typeset choice entry.inner))) := by
  rcases cs with _ | ⟨c, _ | ⟨d, cs⟩⟩
  · exact absurd rfl hne
  · have hfenced : q.store.isFencedArgument c.note = .ok (Typeset.isFencedArgument (c.typeset choice entry.inner)) :=
      isFencedArgument_eq (Equation.child_mem_outline hentry (hcs c List.mem_cons_self))
    simp only [List.map_cons, List.map_nil, Typeset.application_singleton hN]
    constructor
    · rintro a ha hlim
      cases ha
      rw [if_pos hlim, Latex.command, Latex.braced, ← String.append_assoc]
      rfl
    · rintro id a hid ha hlim hid'
      cases hid
      cases ha
      rw [hfenced, Except.ok.injEq] at hid'
      rw [if_neg hlim, if_pos hid']
    · intro hother
      obtain ⟨hlim, hid⟩ := hother c.note rfl
      rw [hfenced, Ne, Except.ok.injEq] at hid
      rw [if_neg hlim, if_neg hid]
      rfl
  · simp only [List.map_cons, Typeset.application_cons_cons hN]
    constructor
    · rintro a ha
      cases ha
    · rintro id a hid
      cases hid
    · intro _
      rfl

/-- A function with a name that is typed, as runs or as runs under a superscript, and with arguments has the name with
    the arguments below it, in their own fences or in parentheses. Only where an underscore is shown in the name, it
    is taken for a name with a subscript. -/
theorem isApplied_of_typesName (h : ofElement limit root = .ok s) (hf : s.cell f = .ok function)
    (hkind : function.kind = .function (some name) arguments) (harguments : arguments ≠ [])
    (hname : s.TypesName name text sup) (choice : ArrayEnvironment) :
    ∃ N latexes latex, s.functionName (s.nodeLatex choice) name = .ok N ∧
      arguments.mapM (s.nodeLatex choice) = .ok latexes ∧ s.nodeLatex choice f = .ok latex ∧
      (¬ s.ShowsUnderscore choice text sup → s.IsApplied N arguments latexes latex) ∧
      (s.ShowsUnderscore choice text sup → latex = N ++ " " ++ " ".intercalate latexes) := by
  obtain ⟨q, hq, -, rfl⟩ := ofElement_eq_ok_iff.mp h
  obtain ⟨entry, hentry, rfl, rfl⟩ := exists_entry_of_cell hf
  obtain ⟨n, cs, hnode, rfl, rfl, htag⟩ := function_of_cell hkind
  have hparts : ∀ c ∈ n :: cs, c ∈ entry.node.children := fun c hc =>
    Node.mem_children_of_parts (by rw [hnode]; exact hc)
  obtain ⟨hn, hcs⟩ := List.forall_mem_cons.mp hparts
  have hchild := Equation.child_mem_outline hentry hn
  have hne : cs ≠ [] := by
    rintro rfl
    exact harguments rfl
  have hrenders : Renders q choice (n.size + 1) (q.store.nodeLatex choice) := fun around haround _ =>
    nodeLatex_eq_note hq choice haround
  have hlatexes := mapM_render_eq fun c hc => nodeLatex_eq_note hq choice (Equation.child_mem_outline hentry (hcs c hc))
  have hlatex : (entry.typeset choice).note = Typeset.application
      (Typeset.functionName (n.typeset choice entry.inner)) (cs.map (typeset choice entry.inner)) := by
    obtain ⟨m, hhead, hchildren, hnote⟩ := Node.exists_latexOf_typeset choice entry.enclosure entry.node
    rw [hnote, Node.latexOf, Node.kind_of_children hchildren hhead, hnode]
    rfl
  have hunderscore : '_' ∈ (Typeset.functionName ((entry.child n).typeset choice)).toList ↔
      q.store.ShowsUnderscore choice text sup :=
    underscore_mem_functionName_iff hq hchild (form_of_isTag hq hchild htag (by decide)) hname
  have hfunction := functionName_eq hrenders hchild (Nat.lt_succ_self _)
  have hwritten := nodeLatex_eq_note hq choice hentry
  rw [hlatex] at hwritten
  exact ⟨_, _, _, hfunction, hlatexes, hwritten,
    fun hplain => isApplied_application (mt hunderscore.mp hplain) hentry hcs hne,
    fun hshows => Typeset.application_of_underscore (hunderscore.mpr hshows) (by simpa using hne)⟩

/-- A sine with a superscript has its argument in parentheses. -/
theorem isApplied_of_typesName_of_sine :
    let part (tag : String) (content : List Xml.Content) : Xml.Content := .element (.mk (.math tag) [] content)
    let run (text : String) : Xml.Content := part "r" [part "t" [.text text]]
    let sine : Xml.Content := part "sSup" [part "e" [run "sin"], part "sup" [run "2"]]
    let root : Xml.Element := .mk (.math "func") [] [part "fName" [sine], part "e" [run "x"]]
    ∃ s function, ofElement 6 root = .ok s ∧ s.cell 0 = .ok function ∧ function.kind = .function (some 1) [7] ∧
      s.TypesName 1 "sin" (some 5) ∧ ¬ s.ShowsUnderscore .aligned "sin" (some 5) ∧
      s.nodeLatex .aligned 0 = .ok "\\sin^\x7b2\x7d(x)" := by
  intro part run sine root
  have hbuilt : ∃ s function script, ofElement 6 root = .ok s ∧ s.cell 0 = .ok function ∧
      function.kind = .function (some 1) [7] ∧ s.onlyContentChild 1 = .ok (some 2) ∧ s.cell 2 = .ok script ∧
      script.kind = .script (some 3) none (some 5) ∧ s.plainText 3 = .ok (some "sin") ∧
      s.nodeLatex .aligned 5 = .ok "2" ∧ s.nodeLatex .aligned 7 = .ok "x" ∧
      s.functionName (s.nodeLatex .aligned) 1 = .ok "\\sin^\x7b2\x7d" ∧ s.isFencedArgument 7 = .ok false := by
    dsimp only [root, sine, run, part]
    exact ⟨_, _, _, ofElement_eq_ok_iff.mpr ⟨_, rfl, by decide, rfl⟩, rfl, rfl, rfl, rfl, rfl, rfl, rfl, rfl, rfl, rfl⟩
  obtain ⟨s, function, script, hs, hf, hkind, honly, hscript, hscripts, htext, hsup, hx, hN, hfenced⟩ := hbuilt
  have hname : s.TypesName 1 "sin" (some 5) := .superscript honly hscript hscripts htext
  have hplain : ¬ s.ShowsUnderscore .aligned "sin" (some 5) := by
    rintro (hmem | ⟨id, hid, latex, hlatex, hmem⟩)
    · exact absurd hmem (by decide)
    · cases hid
      cases hsup.symm.trans hlatex
      exact absurd hmem (by decide)
  obtain ⟨N, latexes, latex, hN', hlatexes, hlatex, happlied, -⟩ :=
    isApplied_of_typesName hs hf hkind (List.cons_ne_nil 7 []) hname .aligned
  cases hN.symm.trans hN'
  rw [List.mapM_cons, hx] at hlatexes
  cases hlatexes
  have hparentheses := (happlied hplain).parenthesized fun id hid => by
    cases hid
    exact ⟨by decide, by rw [hfenced]; simp⟩
  refine ⟨s, function, hs, hf, hkind, hname, hplain, ?_⟩
  rw [hlatex, hparentheses]
  rfl

set_option maxRecDepth 4000 in
/-- An underscore that is typed in a name is taken for a subscript. -/
theorem nodeLatex_of_typed_underscore :
    let part (tag : String) (content : List Xml.Content) : Xml.Content := .element (.mk (.math tag) [] content)
    let run (text : String) : Xml.Content := part "r" [part "t" [.text text]]
    let root : Xml.Element := .mk (.math "func") [] [part "fName" [run "a_b"], part "e" [run "x"]]
    ∃ s function, ofElement 6 root = .ok s ∧ s.cell 0 = .ok function ∧ function.kind = .function (some 1) [3] ∧
      s.TypesName 1 "a_b" none ∧ s.functionName (s.nodeLatex .aligned) 1 = .ok "\\operatorname\x7ba\\_b\x7d" ∧
      s.nodeLatex .aligned 3 = .ok "x" ∧ s.nodeLatex .aligned 0 = .ok "\\operatorname\x7ba\\_b\x7d x" ∧
      ¬ s.IsApplied "\\operatorname\x7ba\\_b\x7d" [3] ["x"] "\\operatorname\x7ba\\_b\x7d x" := by
  intro part run root
  have hbuilt : ∃ s function, ofElement 6 root = .ok s ∧ s.cell 0 = .ok function ∧
      function.kind = .function (some 1) [3] ∧ s.plainText 1 = .ok (some "a_b") ∧
      s.functionName (s.nodeLatex .aligned) 1 = .ok "\\operatorname\x7ba\\_b\x7d" ∧
      s.nodeLatex .aligned 3 = .ok "x" ∧ s.nodeLatex .aligned 0 = .ok "\\operatorname\x7ba\\_b\x7d x" ∧
      s.isFencedArgument 3 = .ok false := by
    dsimp only [root, run, part]
    exact ⟨_, _, ofElement_eq_ok_iff.mpr ⟨_, rfl, by decide, rfl⟩, rfl, rfl, rfl, rfl, rfl, rfl, rfl⟩
  obtain ⟨s, function, hs, hf, hkind, htext, hN, hx, hlatex, hfenced⟩ := hbuilt
  refine ⟨s, function, hs, hf, hkind, .runs htext, hN, hx, hlatex, fun happlied => ?_⟩
  have hparentheses := happlied.parenthesized fun id hid => by
    cases hid
    exact ⟨by decide, by rw [hfenced]; simp⟩
  exact absurd hparentheses (by decide)

end Store

end OfficeMath
