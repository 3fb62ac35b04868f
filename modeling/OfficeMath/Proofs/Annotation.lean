import OfficeMath.Proofs.Store.Room
import OfficeMath.Proofs.Typeset.IdleProperty
import OfficeMath.Proofs.Typeset.Insertion
import OfficeMath.Proofs.Typeset.Replacement

/-! Annotations in elements. An element of another namespace in which there are no elements, such as a bookmark, can be
    put in among the children of any element without a change of the LaTeX, except where it changes what the elements
    around look at: whether there is content, which name is spelled, what stands alone, and what the segments are. -/

namespace OfficeMath

open Xml (map_eq_ok_iff Inserted)

namespace Xml

/-- The element is no element of office math, and there are no elements in it. -/
def Element.isForeignLeaf (e : Element) : Bool := !e.isMath && e.elements.isEmpty

/-- What the elements among the items say by themselves. -/
def Content.heads (content : List Content) : List Head := (content.filterMap Content.element?).map Head.ofElement

/-- The second element is the first with `p` put in where it is admitted, among the items of the element itself or of
    one below it. The element has a role in what is around it, and it is set inside that. -/
inductive AnnotatedIn (choice : ArrayEnvironment) (p : Element) : Role → Enclosure Unit → Element → Element → Prop
  | here {role : Role} {enclosure : Enclosure Unit} {name : Name} {attributes : List Attribute}
      (before after : List Content)
      (h : role.Admits ((Element.mk name attributes (before ++ after)).tree.typeset choice enclosure)
        (Content.heads before) (Content.heads after)) :
      AnnotatedIn choice p role enclosure (.mk name attributes (before ++ after))
        (.mk name attributes (before ++ .element p :: after))
  | inside {role : Role} {enclosure : Enclosure Unit} {name : Name} {attributes : List Attribute} {c c' : Element}
      (before after : List Content)
      (h : AnnotatedIn choice p
        (role.inside ((Element.mk name attributes (before ++ .element c :: after)).tree.typeset choice enclosure)
          (Content.heads before) (Head.ofElement c))
        (enclosure.inside (Element.mk name attributes (before ++ .element c :: after)).tree) c c') :
      AnnotatedIn choice p role enclosure (.mk name attributes (before ++ .element c :: after))
        (.mk name attributes (before ++ .element c' :: after))

/-- The second element is the first with `p` put in where it is admitted. Of an `oMath` only the roots are looked at. -/
def Annotated (choice : ArrayEnvironment) (p e e' : Element) : Prop :=
  AnnotatedIn choice p (if e.isTag "oMath" then .root else .plain) .none e e'

/-- Lets through everything but the elements of other namespaces. -/
def Sieve.math : Sieve where
  keepsAttribute _ := true
  keepsContent _ _ c :=
    match c with
    | .element e => e.isMath
    | _ => true

theorem Sieve.keepsSource_math : Sieve.math.KeepsSource where
  attributes _ _ := rfl
  elements _ _ _ he _ := he
  texts _ := rfl

variable {choice : ArrayEnvironment} {p e e' : Element} {role : Role} {enclosure : Enclosure Unit} {level : Nat}

/-- An element says the same of itself when an element of another namespace is put in. -/
theorem Inserted.head_eq_of_not_isMath (hp : p.isMath = false) (h : Inserted p level e e') :
    Head.ofElement e = Head.ofElement e' := by
  have hsift : e.sift .math none = e'.sift .math none :=
    h.sift_eq (fun _ _ => hp) (fun c c' hname _ _ => congrArg Name.isMath hname) none
  rw [← Sieve.keepsSource_math.head_sift e none, hsift, Sieve.keepsSource_math.head_sift e' none]

theorem AnnotatedIn.inserted (h : AnnotatedIn choice p role enclosure e e') : ∃ level, Inserted p level e e' := by
  induction h with
  | here before after _ => exact ⟨0, .here before after⟩
  | inside before after _ ih =>
    obtain ⟨level, h⟩ := ih
    exact ⟨level + 1, .inside before after h⟩

/-- An element gets no smaller when one is put in. -/
theorem Inserted.size_le (h : Inserted p level e e') : e.size ≤ e'.size := by
  induction h with
  | here before after =>
    rw [Element.size, Element.size, Content.sizeAll_append, Content.sizeAll_append, Content.sizeAll]
    omega
  | inside before after _ ih =>
    rw [Element.size, Element.size, Content.sizeAll_append, Content.sizeAll_append, Content.sizeAll, Content.sizeAll]
    omega

theorem isMath_of_isForeignLeaf (hp : p.isForeignLeaf = true) : p.isMath = false :=
  (Bool.not_eq_true' _).mp (Bool.and_eq_true_iff.mp hp).1

theorem AnnotatedIn.head_eq (hp : p.isForeignLeaf = true) (h : AnnotatedIn choice p role enclosure e e') :
    Head.ofElement e = Head.ofElement e' := by
  obtain ⟨level, h⟩ := h.inserted
  exact h.head_eq_of_not_isMath (isMath_of_isForeignLeaf hp)

/-! ### Trees -/

theorem Content.map_head_trees (content : List Content) : (Content.trees content).map Node.head = heads content := by
  unfold heads
  induction content with
  | nil => rfl
  | cons c content ih =>
    cases c with
    | element e => simp [Content.trees, Content.element?, ih]
    | _ => exact ih

theorem Element.isForeignLeaf_tree (hp : p.isForeignLeaf = true) : p.tree.IsForeignLeaf := by
  have hmath := isMath_of_isForeignLeaf hp
  refine ⟨by rw [head_tree]; exact hmath, ?_, ?_⟩
  · rw [Node.form, head_tree, Head.ofElement, Form.ofElement, Form.construct?, hmath, if_neg Bool.false_ne_true]
  · have hempty : p.elements = [] := List.isEmpty_iff.mp (Bool.and_eq_true_iff.mp hp).2
    obtain ⟨name, attributes, content⟩ := p
    have hnil : Content.trees content = [] := by
      rw [← List.map_eq_nil_iff (f := Node.head), Content.map_head_trees, Content.heads]
      exact List.map_eq_nil_iff.mpr hempty
    rw [tree, Node.children_mk, hnil, ite_self]

/-- A run has no nodes below it, whatever its items are. -/
theorem Element.tree_of_isRun {name : Name} {attributes : List Attribute} {content : List Content}
    (hrun : (Head.ofElement (.mk name attributes content)).form.isRun = true) :
    (mk name attributes content).tree = .mk (Head.ofElement (.mk name attributes content)) () [] := by
  rw [tree, if_pos hrun]

theorem Element.tree_of_not_isRun {name : Name} {attributes : List Attribute} {content : List Content}
    (hrun : (Head.ofElement (.mk name attributes content)).form.isRun = false) :
    (mk name attributes content).tree =
      .mk (Head.ofElement (.mk name attributes content)) () (Content.trees content) := by
  rw [tree, hrun, if_neg Bool.false_ne_true]

/-! ### What is seen -/

variable {enclosure' : Enclosure Unit}

theorem Element.heads_tree (e : Element) : ∀ c ∈ e.tree.children,
    (∃ e, c.head = Head.ofElement e) ∧ ∀ g ∈ c.children, ∃ e, g.head = Head.ofElement e := by
  intro c hc
  obtain ⟨e, rfl⟩ := Element.exists_of_mem_children hc
  refine ⟨⟨e, e.head_tree⟩, fun g hg => ?_⟩
  obtain ⟨e, rfl⟩ := Element.exists_of_mem_children hg
  exact ⟨e, e.head_tree⟩

/-- What is in an element in which an annotation is admitted is set as if nothing enclosed it. -/
theorem typeset_of_admits {before after : List Head} (hfits : role.Fits enclosure e.tree) (hrole : role ≠ .hidden)
    (h : role.Admits (e.tree.typeset choice enclosure) before after) {c : Node Unit} (hc : c ∈ e.tree.children) :
    c.typeset choice (enclosure.inside e.tree) = c.typeset choice .none := by
  obtain ⟨hadmits, hsegments⟩ := h.resolve_left hrole
  have hchildren : (e.tree.typeset choice enclosure).children =
      e.tree.children.map (Node.typeset choice (enclosure.inside e.tree)) := Node.children_typeset enclosure e.tree
  refine Node.typeset_inside e.heads_tree (fun fence hform => ?_) (fun d hd he => ?_) hc
  · have hform : (e.tree.typeset choice enclosure).form = .delimiter fence :=
      (Node.form_eq (Node.head_typeset enclosure e.tree)).trans hform
    rw [Node.admitsSegment, hform] at hsegments
    have hnone := (Bool.and_eq_true_iff.mp hsegments).1
    rwa [← Option.isSome_eq_false_iff, Node.isSome_absorbedContent?_of_children hchildren, Option.isSome_eq_false_iff,
      Option.isNone_iff_eq_none] at hnone
  · obtain ⟨fence, hform, rfl⟩ := hfits.eq_segment d hd he hrole
    refine ⟨fence, hform, fun c hc => ?_⟩
    rw [Role.admits, Node.onlyContentChild?_of_children hchildren, hc, Option.map_some, Option.all_some,
      Node.absorbs_eq (Node.head_typeset _ c)] at hadmits
    exact (Bool.not_eq_true' _).mp hadmits

section Trees

variable {ms ks : List (Node Unit)} {m m' : Node Unit} (hself : Head.ofElement e = Head.ofElement e')

/-- What is in an element with an annotation is set as if nothing enclosed it. -/
theorem typeset_of_isForeignLeaf (hm : m.IsForeignLeaf) (htree : e.tree = .mk (Head.ofElement e) () (ms ++ m :: ks))
    (henclosure : ∀ d, enclosure = .direct d → e.tree.isTag "e" = true → ∃ fence, d.form = .delimiter fence)
    {c : Node Unit} (hc : c ∈ e.tree.children) :
    c.typeset choice (enclosure.inside e.tree) = c.typeset choice .none := by
  refine Node.typeset_inside e.heads_tree (fun fence _ => ?_) (fun d hd he => ?_) hc
  · rw [htree]
    exact Node.absorbedContent?_insert hm fence
  · obtain ⟨fence, hform⟩ := henclosure d hd he
    refine ⟨fence, hform, fun c hc => ?_⟩
    rw [htree] at hc
    rw [Node.eq_of_onlyContentChild?_insert hm hc, Node.absorbs, hm.form_eq]

include hself

/-- An element is seen alike with an annotation where it is admitted. -/
theorem seenAlike_of_insert (hm : m.IsForeignLeaf) (hrun : (Head.ofElement e).form.isRun = false)
    (htree : e.tree = .mk (Head.ofElement e) () (ms ++ ks))
    (htree' : e'.tree = .mk (Head.ofElement e') () (ms ++ m :: ks)) (hfits : role.Fits enclosure e.tree)
    (halike : enclosure.Alike enclosure')
    (h : role.Admits (e.tree.typeset choice enclosure) (ms.map Node.head) (ks.map Node.head)) :
    Node.SeenAlike role (e.tree.typeset choice enclosure) (e'.tree.typeset choice enclosure') := by
  have hhead : e.tree.head = e'.tree.head := by rw [Element.head_tree, Element.head_tree, hself]
  by_cases hrole : role = .hidden
  · subst hrole
    refine .of_hidden ?_
    rw [Node.head_typeset, Node.head_typeset, hhead]
  have henclosure (d : Node Unit) (hd : enclosure' = .direct d) (he : e'.tree.isTag "e" = true) :
      ∃ fence, d.form = .delimiter fence := by
    subst hd
    cases halike with | direct hdelimiter =>
    obtain ⟨fence, hform, -⟩ := hfits.eq_segment _ rfl (Node.isTag_eq hhead "e" ▸ he) hrole
    exact ⟨fence, Node.form_eq hdelimiter ▸ hform⟩
  -- the nodes around the annotation are set the same with it and without
  have hset : e.tree.children.map (Node.typeset choice (enclosure.inside e.tree)) =
      ms.map (Node.typeset choice .none) ++ ks.map (Node.typeset choice .none) := by
    rw [List.map_congr_left fun c hc => typeset_of_admits hfits hrole h hc, htree, Node.children_mk, List.map_append]
  have hset' : e'.tree.children.map (Node.typeset choice (enclosure'.inside e'.tree)) =
      ms.map (Node.typeset choice .none) ++ m.typeset choice .none :: ks.map (Node.typeset choice .none) := by
    rw [List.map_congr_left fun c hc => typeset_of_isForeignLeaf hm htree' henclosure hc, htree', Node.children_mk,
      List.map_append, List.map_cons]
  obtain ⟨hadmits, hsegments⟩ := h.resolve_left hrole
  obtain ⟨hm', hempty⟩ := Node.isForeignLeaf_typeset choice hm .none
  have hheads (ns : List (Node Unit)) : ns.map Node.head = (ns.map (Node.typeset choice .none)).map Node.head := by
    rw [List.map_map]
    exact List.map_congr_left fun c _ => (Node.head_typeset .none c).symm
  rw [Node.typeset_of_children hset, hheads, hheads] at hsegments
  rw [Node.typeset_of_children hset] at hadmits ⊢
  rw [Node.typeset_of_children hset', ← halike.fence?_eq, ← hhead]
  refine (Node.asAnnotated_insert hm' (by rwa [Element.head_tree])).seenAlike ⟨e, e.head_tree⟩ ?_ rfl hadmits
  exact Node.latexOf_insert hm' hempty hsegments

/-- An element is seen alike with one in it replaced by one that is seen alike. -/
theorem seenAlike_of_replace (htree : e.tree = .mk (Head.ofElement e) () (ms ++ m :: ks))
    (htree' : e'.tree = .mk (Head.ofElement e') () (ms ++ m' :: ks)) (hfits : role.Fits enclosure e.tree)
    (halike : enclosure.Alike enclosure') (hhead : m.head = m'.head)
    (h : (enclosure.inside e.tree).Alike (enclosure'.inside e'.tree) →
      Node.SeenAlike (role.inside (e.tree.typeset choice enclosure) (ms.map Node.head) m.head)
        (m.typeset choice (enclosure.inside e.tree)) (m'.typeset choice (enclosure'.inside e'.tree))) :
    Node.SeenAlike role (e.tree.typeset choice enclosure) (e'.tree.typeset choice enclosure') := by
  have hrel : List.Forall₂ (fun c c' : Node Unit => c.head = c'.head) e.tree.children e'.tree.children := by
    rw [htree, htree']
    exact forall₂_replace (R := fun c c' : Node Unit => c.head = c'.head) (fun _ => rfl) hhead ms ks
  have hinside : (enclosure.inside e.tree).Alike (enclosure'.inside e'.tree) :=
    halike.inside e.tree e'.tree (by rw [Element.head_tree, Element.head_tree, hself])
      (isSome_eq_of_rel (Node.rel_soleContent? id hrel)) (isSome_eq_of_rel (Node.rel_onlyContentChild? id hrel))
  have hset : e.tree.children.map (Node.typeset choice (enclosure.inside e.tree)) =
      ms.map (Node.typeset choice (enclosure.inside e.tree)) ++ m.typeset choice (enclosure.inside e.tree) ::
        ks.map (Node.typeset choice (enclosure.inside e.tree)) := by
    rw [htree, Node.children_mk, List.map_append, List.map_cons]
  have hset' : e'.tree.children.map (Node.typeset choice (enclosure'.inside e'.tree)) =
      ms.map (Node.typeset choice (enclosure.inside e.tree)) ++ m'.typeset choice (enclosure'.inside e'.tree) ::
        ks.map (Node.typeset choice (enclosure.inside e.tree)) := by
    rw [htree', Node.children_mk, List.map_append, List.map_cons, ← htree',
      List.map_congr_left fun c _ => (Node.typeset_alike hinside c).symm,
      List.map_congr_left fun c _ => (Node.typeset_alike hinside c).symm]
  have hgeneric {tag : String} (hmem : tag ∈ containerTags) (htag : e.tree.isTag tag = true) :
      (e.tree.typeset choice enclosure).form = .generic :=
    (Node.form_eq (Node.head_typeset enclosure e.tree)).trans (Node.form_of_container ⟨e, e.head_tree⟩ hmem htag)
  have hheads : (ms.map (Node.typeset choice (enclosure.inside e.tree))).map Node.head = ms.map Node.head := by
    rw [List.map_map]
    exact List.map_congr_left fun c _ => Node.head_typeset _ c
  refine Node.seenAlike_replace ((Node.children_typeset enclosure e.tree).trans hset)
    ((Node.children_typeset enclosure' e'.tree).trans hset') ?_ hfits.ne_root
    (fun hrole => hgeneric (by decide) (hfits.isTag_of_name hrole))
    (fun fence hrole => hgeneric (by decide) (hfits.isTag_of_segment fence hrole))
    (Node.note_typeset enclosure e.tree) ?_ ?_
  · rw [Node.head_typeset, Node.head_typeset, Element.head_tree, Element.head_tree, hself]
  · rw [halike.fence?_eq]
    exact Node.note_typeset enclosure' e'.tree
  · rw [hheads, Node.head_typeset]
    exact h hinside

end Trees

/-- An element with an annotation is seen like the element without it. -/
theorem seenAlike_of_annotatedIn (hp : p.isForeignLeaf = true) (h : AnnotatedIn choice p role enclosure e e')
    (hfits : role.Fits enclosure e.tree) (halike : enclosure.Alike enclosure') :
    Node.SeenAlike role (e.tree.typeset choice enclosure) (e'.tree.typeset choice enclosure') := by
  have hruns {e e' : Element} {enclosure enclosure' : Enclosure Unit} {role : Role}
      (hself : Head.ofElement e = Head.ofElement e') (halike : enclosure.Alike enclosure')
      (hrun : (Head.ofElement e).form.isRun = true) :
      Node.SeenAlike role (e.tree.typeset choice enclosure) (e'.tree.typeset choice enclosure') := by
    have htree : e.tree = e'.tree := by
      obtain ⟨name, attributes, content⟩ := e
      obtain ⟨name', attributes', content'⟩ := e'
      rw [Element.tree_of_isRun hrun, Element.tree_of_isRun (hself ▸ hrun), hself]
    rw [← htree, Node.typeset_alike halike]
    exact .refl role _
  have hself := h.head_eq hp
  induction h generalizing enclosure' with
  | @here role enclosure name attributes before after h =>
    cases hrun : (Head.ofElement (.mk name attributes (before ++ after))).form.isRun with
    | true => exact hruns hself halike hrun
    | false =>
      rw [← Content.map_head_trees, ← Content.map_head_trees] at h
      refine seenAlike_of_insert hself (Element.isForeignLeaf_tree hp) hrun ?_ ?_ hfits halike h
      · rw [Element.tree_of_not_isRun hrun, Content.trees_append]
      · rw [Element.tree_of_not_isRun (hself ▸ hrun), Content.trees_append]
        rfl
  | @inside role enclosure name attributes c c' before after h ih =>
    cases hrun : (Head.ofElement (.mk name attributes (before ++ .element c :: after))).form.isRun with
    | true => exact hruns hself halike hrun
    | false =>
      have hc : c.tree.head = c'.tree.head := by
        rw [Element.head_tree, Element.head_tree, h.head_eq hp]
      have htree : (Element.mk name attributes (before ++ .element c :: after)).tree =
          .mk (Head.ofElement (.mk name attributes (before ++ .element c :: after))) ()
            (Content.trees before ++ c.tree :: Content.trees after) := by
        rw [Element.tree_of_not_isRun hrun, Content.trees_append]
        rfl
      have htree' : (Element.mk name attributes (before ++ .element c' :: after)).tree =
          .mk (Head.ofElement (.mk name attributes (before ++ .element c' :: after))) ()
            (Content.trees before ++ c'.tree :: Content.trees after) := by
        rw [Element.tree_of_not_isRun (hself ▸ hrun), Content.trees_append]
        rfl
      refine seenAlike_of_replace hself htree htree' hfits halike hc fun halike => ?_
      rw [← Content.map_head_trees, ← Element.head_tree] at ih
      exact ih hfits.inside halike (hc.trans c'.head_tree)

end Xml

/-! ### Equations -/

namespace Node

variable {p e e' : Xml.Element} {level limit depth : Nat}

/-- An element is read if it is read with an annotation put in. -/
theorem exists_read_of_isForeignLeaf (hp : p.isForeignLeaf = true) (h : Inserted p level e e') {n' : Node Unit}
    (hn' : read limit depth e' = .ok n') : ∃ n, read limit depth e = .ok n := by
  induction h generalizing depth n' with
  | @here tag attributes before after =>
    have hself : Head.ofElement (.mk tag attributes (before ++ after)) = Head.ofElement (.mk tag attributes _) :=
      (Inserted.here before after).head_eq_of_not_isMath (Xml.isMath_of_isForeignLeaf hp)
    obtain ⟨ns, -, -, hn, -⟩ := exists_read_of_content (S := fun _ _ => True) hself trivial (fun ns' hns' =>
      (exists_readAll_of_insert before after hns').imp fun ns hns => ⟨hns, trivial⟩) hn'
    exact ⟨_, hn⟩
  | @inside level tag attributes c c' before after h ih =>
    have hself : Head.ofElement (.mk tag attributes (before ++ .element c :: after)) =
        Head.ofElement (.mk tag attributes _) :=
      (Inserted.inside before after h).head_eq_of_not_isMath (Xml.isMath_of_isForeignLeaf hp)
    obtain ⟨ns, -, -, hn, -⟩ := exists_read_of_content (S := fun _ _ => True) hself trivial (fun ns' hns' => by
      obtain ⟨ms, m, -, ks, -, hns, -⟩ := exists_readAll_of_read (R := fun _ _ => True) before after
        (fun m' hm' => (ih hm').imp fun m hm => ⟨hm, trivial⟩) hns'
      exact ⟨_, hns, trivial⟩) hn'
    exact ⟨_, hn⟩

end Node

namespace Equation

variable {p e e' : Xml.Element} {level limit : Nat} {options : Options}

theorem exists_ofElement_of_isForeignLeaf (hp : p.isForeignLeaf = true) (h : Inserted p level e e') {q' : Equation}
    (hq' : ofElement limit e' = .ok q') : ∃ q, ofElement limit e = .ok q := by
  unfold ofElement at hq' ⊢
  rw [← h.isTag_eq] at hq'
  split at hq'
  · next hmath =>
    obtain ⟨ns', hns', -⟩ := map_eq_ok_iff.mp hq'
    rw [if_pos hmath]
    cases h with
    | here before after =>
      obtain ⟨ns, hns⟩ := Node.exists_readAll_of_insert before after hns'
      exact ⟨_, map_eq_ok_iff.mpr ⟨ns, hns, rfl⟩⟩
    | inside before after h =>
      obtain ⟨ms, m, -, ks, -, hns, -⟩ := Node.exists_readAll_of_read (R := fun _ _ => True) before after
        (fun m' hm' => (Node.exists_read_of_isForeignLeaf hp h hm').imp fun m hm => ⟨hm, trivial⟩) hns'
      exact ⟨_, map_eq_ok_iff.mpr ⟨_, hns, rfl⟩⟩
  · next hmath =>
    obtain ⟨n', hn', -⟩ := map_eq_ok_iff.mp hq'
    rw [if_neg hmath]
    obtain ⟨n, hn⟩ := Node.exists_read_of_isForeignLeaf hp h hn'
    exact ⟨_, map_eq_ok_iff.mpr ⟨n, hn, rfl⟩⟩

/-- Roots that are seen alike are written the same. -/
theorem latex_replace_root {n n' : Node Unit}
    (h : (n.typeset options.equationArray .none).note = (n'.typeset options.equationArray .none).note)
    (ms ks : List (Node Unit)) : latex options ⟨ms ++ n :: ks⟩ = latex options ⟨ms ++ n' :: ks⟩ := by
  simp only [latex, typeset, Node.typesetAll_eq_map, List.map_append, List.map_cons, h]

/-- Nothing encloses the roots of an equation. -/
theorem inside_of_isMath (h : e.isTag "oMath" = true) : Enclosure.none.inside e.tree = .none := by
  have htag : e.tree.isTag "oMath" = true := by
    rw [Node.isTag, e.head_tree]
    exact h
  have hform : e.tree.form = .generic := Node.form_of_container ⟨e, e.head_tree⟩ (by decide) htag
  rw [Enclosure.inside_of_not_isDelimiter (by rw [hform]; rfl)]

theorem latex_of_annotated (hp : p.isForeignLeaf = true) (h : Xml.Annotated options.equationArray p e e')
    {q' : Equation} (hq' : ofElement limit e' = .ok q') :
    ∃ q, ofElement limit e = .ok q ∧ q.latex options = q'.latex options := by
  obtain ⟨level, hinserted⟩ := h.inserted
  obtain ⟨q, hq⟩ := exists_ofElement_of_isForeignLeaf hp hinserted hq'
  refine ⟨q, hq, ?_⟩
  obtain ⟨roots⟩ := q
  obtain ⟨roots'⟩ := q'
  obtain rfl : roots = _ := roots_of_ofElement hq
  obtain rfl : roots' = _ := roots_of_ofElement hq'
  have hplain {e e' : Xml.Element} (h : Xml.AnnotatedIn options.equationArray p .plain .none e e') :
      (e.tree.typeset options.equationArray .none).note = (e'.tree.typeset options.equationArray .none).note := by
    have hfits : Role.plain.Fits .none e.tree :=
      ⟨Role.noConfusion, Role.noConfusion, fun _ => Role.noConfusion, fun _ h => nomatch h⟩
    exact (Xml.seenAlike_of_annotatedIn hp h hfits .none).note_eq Role.noConfusion
  rw [← hinserted.isTag_eq]
  cases hmath : e.isTag "oMath" with
  | false =>
    rw [Xml.Annotated, hmath, if_neg Bool.false_ne_true] at h
    rw [if_neg Bool.false_ne_true, if_neg Bool.false_ne_true]
    exact latex_replace_root (hplain h) [] []
  | true =>
    rw [Xml.Annotated, hmath, if_pos rfl] at h
    rw [if_pos rfl, if_pos rfl]
    cases h with
    | here before after _ =>
      have hempty : latex options ⟨[p.tree]⟩ = "" := by
        rw [latex_singleton]
        exact (Node.isForeignLeaf_typeset options.equationArray (Xml.Element.isForeignLeaf_tree hp) .none).2
      rw [Xml.Element.content_mk, Xml.Element.content_mk, Xml.Content.trees_append, Xml.Content.trees_append]
      exact (latex_insert_root hempty _ _).symm
    | @inside _ _ tag attributes c c' before after h =>
      rw [inside_of_isMath hmath] at h
      rw [Xml.Element.content_mk, Xml.Element.content_mk, Xml.Content.trees_append, Xml.Content.trees_append]
      exact latex_replace_root (hplain h) _ _

end Equation

/-- An annotation can be put in among the items of any element without a change of the LaTeX, wherever what is looked
    at in the element from around it stays the same. A part that is there only if it has content must have some, the name
    of a function and the base of a limit must be written as they are spelled, a delimiter in an argument and an array
    that brings a fence must not be alone, and a delimiter must not get one more segment. Where the element is not shown,
    nothing is asked. -/
theorem latexOfElement_of_annotated {p e e' : Xml.Element} (hp : p.isForeignLeaf = true)
    (h : Xml.Annotated .aligned p e e') {q' : Equation}
    (hq' : Equation.ofElement ({} : Options).maxDepth e' = .ok q') :
    latexOfElement e' = latexOfElement e ∧
      (e'.size ≤ Store.capacity →
        ((Store.ofElement ({} : Options).maxDepth e').bind fun s => s.latex .aligned) =
          (Store.ofElement ({} : Options).maxDepth e).bind fun s => s.latex .aligned) := by
  obtain ⟨q, hq, hlatex⟩ := @Equation.latex_of_annotated p e e' _ {} hp h _ hq'
  refine ⟨by rw [latexOfElement, latexOfElement, hq, hq', latexOrMarker, latexOrMarker, hlatex], fun hroom => ?_⟩
  obtain ⟨level, hinserted⟩ := h.inserted
  have hroom' : e.size ≤ Store.capacity := Nat.le_trans (hinserted.size_le) hroom
  have hstore {e : Xml.Element} (hroom : e.size ≤ Store.capacity) := Store.bind_latex_of_room hroom
    ({} : Options).maxDepth {}
  rw [show ArrayEnvironment.aligned = ({} : Options).equationArray from rfl, hstore hroom, hstore hroom', hq, hq']
  exact congrArg Except.ok hlatex.symm

/-- A bookmark is not seen in a numerator that has content, nor in the name of a function that is written as it is
    spelled. -/
theorem latexOfElement_of_annotated_in_part :
    let node (tag : String) (content : List Xml.Content) : Xml.Content := .element (.mk (.math tag) [] content)
    let run (text : String) : Xml.Content := node "r" [node "t" [.text text]]
    let bookmark : Xml.Element := .mk ⟨some "urn:other", "bookmarkStart"⟩ [] []
    let fraction (num : List Xml.Content) : Xml.Element :=
      .mk (.math "f") [] [node "num" num, node "den" [run "x"]]
    let function (name : List Xml.Content) : Xml.Element :=
      .mk (.math "func") [] [node "fName" name, node "e" [run "x"]]
    latexOfElement (fraction [run "a", .element bookmark]) = latexOfElement (fraction [run "a"]) ∧
      latexOfElement (fraction [run "a"]) = "\\frac\x7ba\x7d\x7bx\x7d" ∧
      latexOfElement (function [run "sin", .element bookmark]) = latexOfElement (function [run "sin"]) ∧
      latexOfElement (function [run "sin"]) = "\\sin(x)" := by
  intro node run bookmark fraction function
  have hp : bookmark.isForeignLeaf = true := rfl
  obtain ⟨q, hq⟩ : ∃ q, Equation.ofElement ({} : Options).maxDepth (fraction [run "a", .element bookmark]) = .ok q :=
    ⟨_, rfl⟩
  obtain ⟨q', hq'⟩ : ∃ q, Equation.ofElement ({} : Options).maxDepth
      (function [run "sin", .element bookmark]) = .ok q := ⟨_, rfl⟩
  have hfraction : Xml.Annotated .aligned bookmark (fraction [run "a"]) (fraction [run "a", .element bookmark]) :=
    .inside [] [node "den" [run "x"]] (.here [run "a"] [] (by decide))
  have hfunction : Xml.Annotated .aligned bookmark (function [run "sin"]) (function [run "sin", .element bookmark]) :=
    .inside [] [node "e" [run "x"]] (.here [run "sin"] [] (by decide +kernel))
  exact ⟨(latexOfElement_of_annotated hp hfraction hq).1, by decide, (latexOfElement_of_annotated hp hfunction hq').1,
    by decide⟩

/-- A bookmark is seen where it changes what is looked at: in a part without content, in a name or the base of a limit
    that is spelled, beside what stands alone, and as a segment of a delimiter. -/
theorem latexOfElement_of_annotated_where_seen :
    let node (tag : String) (content : List Xml.Content) : Xml.Content := .element (.mk (.math tag) [] content)
    let run (text : String) : Xml.Content := node "r" [node "t" [.text text]]
    let bold (text : String) : Xml.Content :=
      node "r" [node "rPr" [.element (.mk (.math "sty") [⟨.math "val", "b"⟩] [])], node "t" [.text text]]
    let matrix : Xml.Content := node "m" [node "mr" [node "e" [run "x"]]]
    let bookmark : Xml.Element := .mk ⟨some "urn:other", "bookmarkStart"⟩ [] []
    let element (tag : String) (content : List Xml.Content) : Xml.Element := .mk (.math tag) [] content
    let function (name argument : List Xml.Content) : Xml.Element :=
      element "func" [node "fName" name, node "e" argument]
    let limit (base : List Xml.Content) : Xml.Element := element "limLow" [node "e" base, node "lim" [run "x"]]
    let script (base : List Xml.Content) : Xml.Content := node "sSub" [node "e" base, node "sub" [run "2"]]
    let seen (level : Nat) (e e' : Xml.Element) (latex latex' : String) : Prop :=
      Inserted bookmark level e e' ∧ e.depth ≤ ({} : Options).maxDepth ∧ e'.depth ≤ ({} : Options).maxDepth ∧
        latexOfElement e = latex ∧ latexOfElement e' = latex'
    bookmark.isForeignLeaf = true ∧
      -- without content there is no part
      seen 1 (element "f" [node "num" [], node "den" [run "x"]])
        (element "f" [node "num" [.element bookmark], node "den" [run "x"]])
        "\x7bERROR: Incomplete Fraction\x7d" "\\frac\x7b\x7d\x7bx\x7d" ∧
      seen 1 (function [] [run "x"]) (function [.element bookmark] [run "x"])
        "\x7bERROR: Missing function name; args: x\x7d" "\\operatorname\x7b\x7d(x)" ∧
      seen 1 (limit []) (limit [.element bookmark])
        "x\x7bERROR: LimLow incomplete\x7d" "\x7b\x7d_\x7bx\x7d" ∧
      seen 1 (element "func" [node "fName" [run "sin"], node "e" [run "x"], node "e" []])
        (element "func" [node "fName" [run "sin"], node "e" [run "x"], node "e" [.element bookmark]])
        "\\sin(x)" "\\sin(x, )" ∧
      -- a name and the base of a limit are no plain text any more, and a script is not alone in a name
      seen 1 (function [bold "sin"] [run "x"]) (function [bold "sin", .element bookmark] [run "x"])
        "\\sin(x)" "\\mathbf\x7bsin\x7d(x)" ∧
      seen 1 (function [script [run "log"]] [run "x"]) (function [script [run "log"], .element bookmark] [run "x"])
        "\\log_\x7b2\x7d x" "\\operatorname\x7b\x7blog\x7d_\x7b2\x7d\x7d x" ∧
      seen 3 (function [script [run "log"]] [run "x"]) (function [script [run "log", .element bookmark]] [run "x"])
        "\\log_\x7b2\x7d x" "\\operatorname\x7b\x7blog\x7d_\x7b2\x7d\x7d x" ∧
      seen 3 (function [node "sSub" [node "e" [bold "sin"]]] [run "x"])
        (function [node "sSub" [node "e" [bold "sin", .element bookmark]]] [run "x"])
        "\\sin(x)" "\\mathbf\x7bsin\x7d(x)" ∧
      seen 1 (limit [run "lim"]) (limit [run "lim", .element bookmark])
        "\\lim_\x7bx\x7d" "\x7blim\x7d_\x7bx\x7d" ∧
      -- a delimiter is not alone in an argument, nor a matrix in a delimiter
      seen 1 (function [run "sin"] [node "d" [run "x"]]) (function [run "sin"] [node "d" [run "x"], .element bookmark])
        "\\sin(x)" "\\sin((x))" ∧
      seen 1 (element "d" [node "e" [matrix]]) (element "d" [node "e" [matrix, .element bookmark]])
        "\\begin\x7bpmatrix\x7d\nx\n\\end\x7bpmatrix\x7d"
        "(\\begin\x7bmatrix\x7d\nx\n\\end\x7bmatrix\x7d)" ∧
      seen 0 (element "d" [matrix]) (element "d" [matrix, .element bookmark])
        "\\begin\x7bpmatrix\x7d\nx\n\\end\x7bpmatrix\x7d"
        "(\\begin\x7bmatrix\x7d\nx\n\\end\x7bmatrix\x7d)" ∧
      -- a delimiter has one more segment
      seen 0 (element "d" [node "e" [run "x"]]) (element "d" [node "e" [run "x"], .element bookmark])
        "(x)" "(x, )" := by
  intro node run bold matrix bookmark element function limit script seen
  refine ⟨rfl, ⟨.inside [] _ (.here [] []), ?_⟩, ⟨.inside [] _ (.here [] []), ?_⟩, ⟨.inside [] _ (.here [] []), ?_⟩,
    ⟨.inside [_, _] [] (.here [] []), ?_⟩, ⟨.inside [] _ (.here [_] []), ?_⟩, ⟨.inside [] _ (.here [_] []), ?_⟩,
    ⟨.inside [] _ (.inside [] [] (.inside [] _ (.here [_] []))), ?_⟩,
    ⟨.inside [] _ (.inside [] [] (.inside [] [] (.here [_] []))), ?_⟩, ⟨.inside [] _ (.here [_] []), ?_⟩,
    ⟨.inside [_] [] (.here [_] []), ?_⟩, ⟨.inside [] [] (.here [_] []), ?_⟩, ⟨.here [_] [], ?_⟩, ⟨.here [_] [], ?_⟩⟩ <;>
    decide +kernel

end OfficeMath
