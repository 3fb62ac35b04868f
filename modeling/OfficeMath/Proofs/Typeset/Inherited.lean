import OfficeMath.Proofs.Equation.Parts
import OfficeMath.Proofs.Typeset.InheritedConstruct
import OfficeMath.Convert

/-! Equations inherit properties from what they are put together from. A construct only writes the LaTeX of nodes below
    its own, which carry their LaTeX when it is set, so from the leaves up every node has the property, as long as the
    texts of every delimiter can be joined. -/

namespace OfficeMath

open Latex Typeset

variable {P : String → Prop}

namespace Node

variable {ns : List (Node String)} {n m : Node String}

/-- Every node of the trees carries LaTeX that has the property. -/
def NotesHave (P : String → Prop) (ns : List (Node String)) : Prop := ∀ m ∈ preorderAll ns, P m.note

namespace NotesHave

theorem nil : NotesHave P [] := fun _ hm => nomatch hm

theorem cons (hnote : P n.note) (hchildren : NotesHave P n.children) (h : NotesHave P ns) : NotesHave P (n :: ns) := by
  obtain ⟨head, note, children⟩ := n
  intro m hm
  rcases List.mem_append.mp hm with hm | hm
  · rcases List.mem_cons.mp hm with rfl | hm
    · exact hnote
    · exact hchildren m hm
  · exact h m hm

theorem of_mem (h : NotesHave P ns) (hm : m ∈ ns) : P m.note ∧ NotesHave P m.children := by
  have hsubset : m.preorder ⊆ preorderAll ns := by
    induction ns with
    | nil => cases hm
    | cons n ns ih =>
      rcases List.mem_cons.mp hm with rfl | hm
      · exact List.subset_append_left _ _
      · exact List.subset_append_of_subset_right _ (ih (fun k hk => h k (List.mem_append_right _ hk)) hm)
  obtain ⟨head, note, children⟩ := m
  exact ⟨h _ (hsubset (List.mem_cons_self ..)), fun k hk => h k (hsubset (List.mem_cons_of_mem _ hk))⟩

theorem note (h : NotesHave P ns) (hm : m ∈ ns) : P m.note := (h.of_mem hm).1

theorem children (h : NotesHave P ns) (hm : m ∈ ns) : NotesHave P m.children := (h.of_mem hm).2

theorem notes (h : NotesHave P ns) {ms : List (Node String)} (hms : ms ⊆ ns) : ∀ s ∈ ms.map Node.note, P s := by
  intro s hs
  obtain ⟨m, hm, rfl⟩ := List.mem_map.mp hs
  exact h.note (hms hm)

theorem contentChild? (h : NotesHave P n.children) (tag : String) :
    PartHas P ((n.contentChild? tag).map Node.note) := by
  rintro s hs
  obtain ⟨m, hm, rfl⟩ := Option.map_eq_some_iff.mp hs
  exact h.note (mem_children_of_contentChild? hm)

theorem absorbedContent (h : NotesHave P n.children) (fence : Fence) :
    PartHas P ((n.absorbedContent? fence).map Node.note) := by
  intro latex hlatex
  obtain ⟨m, hm, rfl⟩ := Option.map_eq_some_iff.mp hlatex
  rcases mem_children_of_wrappedContent? (Option.filter_eq_some_iff.mp hm).1 with hm | ⟨c, hc, hm⟩
  · exact h.note hm
  · exact (h.children hc).note hm

theorem cellsOf (h : NotesHave P n.children) {rows : List (Node String)} (hrows : rows ⊆ n.children) :
    ∀ r ∈ cellsOf rows, ∀ cell ∈ r, P cell := by
  intro cells hcells latex hlatex
  obtain ⟨r, hr, rfl⟩ := List.mem_map.mp hcells
  have hchildren := h.children (hrows hr)
  split at hlatex
  · next cells hkind =>
    obtain ⟨m, hm, rfl⟩ := List.mem_map.mp hlatex
    exact hchildren.note (mem_children_of_parts (by rwa [hkind]))
  · cases hlatex

end NotesHave

/-- Every delimiter among the nodes has texts that can be joined. -/
def FencesJoin {α : Type} (P : String → Prop) (ns : List (Node α)) : Prop :=
  ∀ n ∈ ns, ∀ fence, n.form = .delimiter fence → Joins P fence

end Node

/-- What a construct writes by itself has the property: the escape of a line feed in its texts, what stands between the
    cells of a row, and what a delimiter joins to other texts. -/
structure Form.Writes (P : String → Prop) (form : Form) : Prop where
  escapes : form.EscapesHave P
  cells : form = .matrixRow → P cellSeparator
  joins : ∀ fence, form = .delimiter fence → Joins P fence

namespace Node

variable {α : Type} {n c : Node α}

/-- The LaTeX of the child may stand in that of the node outside braces and environments. -/
def writesBare (n c : Node α) : Bool :=
  match n.form with
  | .generic | .delimiter _ => !c.isProperty
  | .function => c.isTag "fName" || c.isTag "e"
  | .limit _ => c.isTag "e" || c.isTag "lim"
  | .radical _ => c.isTag "deg"
  | .script | .preScript | .nary _ | .matrixRow | .groupCharacter _ _ | .phantom _ => c.isTag "e"
  | .run _ | .fraction _ | .matrix | .equationArray | .accent _ | .bar _ | .box _ => false

mutual

/-- The nodes whose LaTeX may stand in that of the node outside braces and environments, and the node itself. -/
def exposed : Node α → List (Node α)
  | n@(mk _ _ children) => n :: exposedAmong n children

/-- The nodes that a node exposes through the ones among its children. -/
def exposedAmong (n : Node α) : List (Node α) → List (Node α)
  | [] => []
  | c :: cs => (if n.writesBare c then c.exposed else []) ++ exposedAmong n cs

end

theorem mem_exposed_iff {m : Node α} :
    m ∈ n.exposed ↔ m = n ∨ ∃ c ∈ n.children, n.writesBare c = true ∧ m ∈ c.exposed := by
  have hamong (cs : List (Node α)) :
      m ∈ n.exposedAmong cs ↔ ∃ c ∈ cs, n.writesBare c = true ∧ m ∈ c.exposed := by
    induction cs with
    | nil => simp [exposedAmong]
    | cons c cs ih =>
      rw [exposedAmong, List.mem_append, ih, List.exists_mem_cons_iff]
      cases n.writesBare c <;> simp
  rw [← hamong]
  cases n
  exact List.mem_cons

theorem self_mem_exposed (n : Node α) : n ∈ n.exposed := mem_exposed_iff.mpr (.inl rfl)

theorem mem_exposed_of_child {m : Node α} (hmem : c ∈ n.children) (hbare : n.writesBare c = true)
    (hm : m ∈ c.exposed) : m ∈ n.exposed :=
  mem_exposed_iff.mpr (.inr ⟨c, hmem, hbare, hm⟩)

end Node

namespace Latex.Kept

open Node (NotesHave)

section
variable {Q : String → Prop} (hP : Kept Q P) {n : Node String}

include hP

/-! ### Functions -/

theorem plainName {name : String} (h : plainName? n = some name) : P name := by
  obtain ⟨text, -, h⟩ := Option.bind_eq_some_iff.mp h
  exact hP.plainOperator h

theorem scriptedName {name : String} (hn : NotesHave Q n.children) (h : scriptedName? n = some name) : P name := by
  obtain ⟨c, hc, h⟩ := Option.bind_eq_some_iff.mp h
  have hchildren := hn.children (Node.mem_children_of_onlyContentChild? hc)
  split at h
  · next base sub sup hkind =>
    obtain ⟨plain, hplain, rfl⟩ := Option.map_eq_some_iff.mp h
    have hpart {part : Option (Node String)} (hpart : part.toList ⊆ c.kind.parts) :
        PartHas Q (part.map Node.note) := fun s hs => by
      obtain ⟨m, hm, rfl⟩ := Option.map_eq_some_iff.mp hs
      exact hchildren.note (Node.mem_children_of_parts (hpart (Option.mem_toList.mpr hm)))
    have hsub : PartHas Q (sub.map Node.note) := hpart (by simp [hkind, Kind.parts])
    have hsup : PartHas Q (sup.map Node.note) := hpart (by simp [hkind, Kind.parts])
    exact hP.append_of_start (hP.plainName hplain) (hP.scripts hsub hsup) (startsWithLetter_scripts _ _)
  · cases h

theorem renderedName {latex : String} (h : P latex) : P (renderedName latex) := by
  have htrim : P (Text.trim latex) := hP.trim h
  unfold Typeset.renderedName
  dsimp only
  split
  · next name hname => exact hP.functionCommand hname
  · split
    · exact htrim
    · exact hP.operatorName htrim

theorem functionName (hnote : P n.note) (hn : NotesHave Q n.children) : P (functionName n) := by
  unfold Typeset.functionName
  split
  · next name hname => exact hP.plainName hname
  · have hscripted : PartHas P (scriptedName? n) := fun name hname => hP.scriptedName hn hname
    exact hscripted.getD (hP.renderedName hnote)

theorem namelessFunction {arguments : List String} (h : ∀ a ∈ arguments, P a) : P (namelessFunction arguments) := by
  unfold Typeset.namelessFunction
  split
  · exact hP.errorMarker (hP.complaint (by decide))
  · have harguments : P (", ".intercalate arguments) := hP.intercalate (hP.construct (by decide)) rfl rfl h
    exact hP.errorMarker (hP.append_of_end (hP.complaint (by decide)) harguments rfl)

theorem application {name : String} {arguments : List (Node String)} (hname : P name)
    (h : ∀ a ∈ arguments, P a.note) : P (application name arguments) := by
  have hnotes : ∀ latex ∈ arguments.map Node.note, P latex := by simpa using h
  have hspace {latex : String} (hlatex : P latex) : P (name ++ " " ++ latex) :=
    hP.between hname (hP.construct (by decide)) hlatex rfl rfl
  have hparens {latex : String} (hlatex : P latex) : P (name ++ "(" ++ latex ++ ")") :=
    hP.append_of_start (hP.between hname (hP.construct (by decide)) hlatex rfl rfl) (hP.construct (by decide)) rfl
  unfold Typeset.application
  dsimp only
  split
  · exact hname
  · next argument =>
    have hargument := h argument (List.mem_singleton_self argument)
    split
    · exact hP.command (hP.construct (by decide)) (hP.weaken hargument)
    · split
      · exact hspace hargument
      · split
        · exact hP.pushFragment hname hargument
        · exact hparens hargument
  · split
    · exact hspace (hP.intercalate (hP.construct (by decide)) rfl rfl hnotes)
    · exact hparens (hP.intercalate (hP.construct (by decide)) rfl rfl hnotes)

theorem function {name : Option (Node String)} {arguments : List (Node String)}
    (hname : ∀ m, name = some m → P m.note ∧ NotesHave Q m.children) (h : ∀ a ∈ arguments, P a.note) :
    P (function name arguments) := by
  cases name with
  | none => exact hP.namelessFunction (by simpa using h)
  | some name =>
    obtain ⟨hnote, hchildren⟩ := hname name rfl
    exact hP.application (hP.functionName hnote hchildren) h

/-! ### Trees -/

/-- What a node is set from has the weaker property anywhere in its tree, and the property itself where it is not
    written in braces or in an environment. -/
theorem latexOf (hQ : Kept Q Q) (hseparator : Q cellSeparator) (hencloses : Encloses Q P) (choice : ArrayEnvironment)
    (fence : Option Fence) (hall : NotesHave Q n.children)
    (hbare : ∀ c ∈ n.children, n.writesBare c = true → P c.note)
    (habsorbed : ∀ fence, n.form = .delimiter fence → PartHas P ((n.absorbedContent? fence).map Node.note))
    (hown : n.form.Writes P) : P (n.latexOf choice fence) := by
  have hpart (tag : String) : PartHas Q ((n.contentChild? tag).map Node.note) := hall.contentChild? tag
  have hbarePart {tag : String} (htag : ∀ c, c.isTag tag = true → n.writesBare c = true) :
      PartHas P ((n.contentChild? tag).map Node.note) := fun s hs => by
    obtain ⟨c, hc, rfl⟩ := Option.map_eq_some_iff.mp hs
    exact hbare c (Node.mem_children_of_contentChild? hc) (htag c (Node.isTag_of_contentChild? hc))
  unfold Node.latexOf Node.kind
  unfold Node.writesBare at hbare hbarePart
  -- a construct only writes its parts, which stand among the children
  cases hform : n.form with
  | generic =>
    rw [hform] at hbare
    refine hP.joinFragments fun s hs => ?_
    obtain ⟨c, hc, rfl⟩ := List.mem_map.mp hs
    exact hbare c (Node.mem_children_of_contentChildren hc) (List.mem_filter.mp hc).2
  | run r => exact hP.run (hform ▸ hown.escapes)
  | fraction style => exact hP.fraction style (hpart "num") (hpart "den")
  | radical hideDegree =>
    rw [hform] at hbarePart
    exact hP.radical hideDegree (hpart "e") (hbarePart fun c hc => hc)
  | script =>
    rw [hform] at hbarePart
    exact hP.script (hbarePart fun c hc => hc) (hpart "sub") (hpart "sup")
  | preScript =>
    rw [hform] at hbarePart
    exact hP.preScript (hbarePart fun c hc => hc) (hpart "sub") (hpart "sup")
  | delimiter own =>
    rw [hform] at hbare
    refine hP.delimiter (hform ▸ hown.escapes) (hown.joins own hform) (habsorbed own hform) fun s hs latex hlatex => ?_
    obtain ⟨segment, hsegment, rfl⟩ := List.mem_map.mp hs
    obtain ⟨c, hc, rfl⟩ := List.mem_map.mp hlatex
    have hcontent := Node.mem_contentChildren_of_segments (List.mem_flatten.mpr ⟨segment, hsegment, hc⟩)
    exact hbare c (Node.mem_children_of_contentChildren hcontent) (List.mem_filter.mp hcontent).2
  | function =>
    rw [hform] at hbare
    refine hP.function (fun m hm => ?_) fun a ha => ?_
    · have hmem := Node.mem_children_of_contentChild? hm
      exact ⟨hbare m hmem (by rw [Node.isTag_of_contentChild? hm, Bool.true_or]), hall.children hmem⟩
    · obtain ⟨hmem, htag⟩ := List.mem_filter.mp (List.mem_filter.mp ha).1
      exact hbare a hmem (by rw [htag, Bool.or_true])
  | nary operator =>
    rw [hform] at hbarePart
    exact hP.nary (hform ▸ hown.escapes) (hpart "sub") (hpart "sup") (hbarePart fun c hc => hc)
  | matrix => exact hP.matrix hQ hseparator hencloses fence (hall.cellsOf fun m => Node.mem_children_of_childrenTagged)
  | matrixRow =>
    rw [hform] at hbare
    refine hP.row (hown.cells hform) fun s hs => ?_
    obtain ⟨c, hc, rfl⟩ := List.mem_map.mp hs
    obtain ⟨hmem, htag⟩ := List.mem_filter.mp hc
    exact hbare c hmem htag
  | limit upper =>
    rw [hform] at hbarePart
    have hfunction : PartHas P (((n.contentChild? "e").bind Node.plainText?).bind functionCommand?) := fun s hs => by
      obtain ⟨text, -, hs⟩ := Option.bind_eq_some_iff.mp hs
      exact hP.functionCommand hs
    have hbase : PartHas P ((n.contentChild? "e").map Node.note) := hbarePart fun c hc => by rw [hc, Bool.true_or]
    exact hP.limit upper hfunction hbase (hbarePart fun c hc => by rw [hc, Bool.or_true])
  | equationArray =>
    have hrows : (n.childrenTagged "e").filter Node.hasContent ⊆ n.children := fun m hm =>
      Node.mem_children_of_childrenTagged (List.mem_filter.mp hm).1
    exact hP.equationArray hencloses choice fence (hall.notes hrows)
  | accent mark => exact hP.accent mark (hpart "e")
  | bar position => exact hP.bar position (hpart "e")
  | box bordered => exact hP.box (hpart "e")
  | groupCharacter sign position =>
    rw [hform] at hbarePart
    exact hP.groupCharacter sign position (hbarePart fun c hc => hc)
  | phantom isShown =>
    rw [hform] at hbarePart
    exact hP.phantom isShown (hbarePart fun c hc => hc)

end

variable {α : Type} {Q : String → Prop}

mutual

theorem typeset (hQ : Kept Q Q) (hseparator : Q cellSeparator) (hencloses : Encloses Q Q) (choice : ArrayEnvironment)
    (enclosure : Enclosure α) :
    ∀ n : Node α, (∀ m ∈ n.preorder, m.form.Writes Q) →
      Q (n.typeset choice enclosure).note ∧ NotesHave Q (n.typeset choice enclosure).children
  | .mk head note children, h => by
    have hinner := typesetAll hQ hseparator hencloses choice (enclosure.inside (.mk head note children)) children
      fun n hn => h n (List.mem_cons_of_mem _ hn)
    refine ⟨?_, hinner⟩
    exact hQ.latexOf hQ hseparator hencloses choice enclosure.fence? hinner (fun c hc _ => hinner.note hc)
      (fun fence _ => hinner.absorbedContent fence) (h (.mk head note children) (List.mem_cons_self ..))

/-- From the leaves up, every node gets LaTeX that has the property. -/
theorem typesetAll (hQ : Kept Q Q) (hseparator : Q cellSeparator) (hencloses : Encloses Q Q)
    (choice : ArrayEnvironment) (enclosure : Enclosure α) :
    ∀ ns : List (Node α), (∀ m ∈ Node.preorderAll ns, m.form.Writes Q) →
      NotesHave Q (Node.typesetAll choice enclosure ns)
  | [], _ => .nil
  | n :: ns, h =>
    have hn := typeset hQ hseparator hencloses choice enclosure n fun m hm => h m (List.mem_append_left _ hm)
    .cons hn.1 hn.2 (typesetAll hQ hseparator hencloses choice enclosure ns fun m hm =>
      h m (List.mem_append_right _ hm))

end

end Latex.Kept

namespace Latex.Inherited

open Node (NotesHave FencesJoin)

variable {α : Type}

/-- From the leaves up, every node gets LaTeX that has the property. -/
theorem typesetAll (hP : Inherited P) (choice : ArrayEnvironment) (enclosure : Enclosure α) (ns : List (Node α))
    (h : FencesJoin P (Node.preorderAll ns)) : NotesHave P (Node.typesetAll choice enclosure ns) :=
  hP.kept.typesetAll (hP.construct (by decide)) hP.environment choice enclosure ns fun n hn => {
    escapes _ _ _ := hP.lineBreak
    cells _ := hP.construct (by decide)
    joins := h n hn }

/-- The LaTeX of an equation has the property. -/
theorem latex (hP : Inherited P) (options : Options) {q : Equation} (h : FencesJoin P (Node.preorderAll q.roots)) :
    P (q.latex options) := by
  have hnotes := hP.typesetAll options.equationArray .none q.roots h
  exact hP.kept.joinFragments (hnotes.notes fun m hm => hm)

end Latex.Inherited

end OfficeMath
