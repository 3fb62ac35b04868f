import OfficeMath.Proofs.Equation.Alike
import OfficeMath.Proofs.Equation.Bare
import OfficeMath.Proofs.Equation.Parts
import OfficeMath.Proofs.Typeset.Locality

/-! What a node is set inside. Only the fence that encloses a node and nothing else comes from above, so a tree is set
    the same inside delimiters that say the same of themselves, and whatever notes its nodes carry. -/

namespace OfficeMath

namespace Enclosure

variable {α β : Type} {enclosure : Enclosure α} {enclosure' : Enclosure β}

/-- The enclosures are made by delimiters that say the same of themselves. -/
inductive Alike : Enclosure α → Enclosure β → Prop
  | none : Alike none none
  | direct {d : Node α} {d' : Node β} (hhead : d.head = d'.head) : Alike (direct d) (direct d')
  | throughContainer {d : Node α} {d' : Node β} (hhead : d.head = d'.head) :
      Alike (throughContainer d) (throughContainer d')

theorem inside_of_isDelimiter {n : Node α} (h : n.form.isDelimiter = true) :
    enclosure.inside n = if n.soleContent?.isSome then direct n else none := by
  unfold inside
  cases hform : n.form with
  | delimiter fence => rfl
  | _ => simp [hform, Form.isDelimiter] at h

theorem inside_of_not_isDelimiter {n : Node α} (h : n.form.isDelimiter = false) :
    enclosure.inside n = match enclosure with
      | direct d => if n.isTag "e" && n.onlyContentChild?.isSome then throughContainer d else none
      | _ => none := by
  unfold inside
  cases hform : n.form with
  | delimiter fence => simp [hform, Form.isDelimiter] at h
  | _ => cases enclosure <;> rfl

theorem Alike.fence?_eq (h : Alike enclosure enclosure') : enclosure.fence? = enclosure'.fence? := by
  cases h with
  | none => rfl
  | direct hhead | throughContainer hhead =>
    unfold fence? delimiter?
    rw [Option.bind_some, Option.bind_some, Node.form_eq hhead]

theorem Alike.inside (h : Alike enclosure enclosure') (n : Node α) (n' : Node β) (hhead : n.head = n'.head)
    (hsole : n.soleContent?.isSome = n'.soleContent?.isSome)
    (honly : n.onlyContentChild?.isSome = n'.onlyContentChild?.isSome) :
    Alike (enclosure.inside n) (enclosure'.inside n') := by
  have hform := Node.form_eq hhead
  cases hd : n.form.isDelimiter with
  | true =>
    rw [inside_of_isDelimiter hd, inside_of_isDelimiter (hform ▸ hd), ← hsole]
    split
    · exact .direct hhead
    · exact .none
  | false =>
    rw [inside_of_not_isDelimiter hd, inside_of_not_isDelimiter (hform ▸ hd), ← honly, ← Node.isTag_eq hhead]
    cases h with
    | none => exact .none
    | throughContainer _ => exact .none
    | direct hd =>
      dsimp only
      split
      · exact .throughContainer hd
      · exact .none

end Enclosure

namespace Node

variable {α : Type} {choice : ArrayEnvironment}

mutual

/-- Delimiters that say the same of themselves are alike to what they enclose. -/
theorem typeset_alike {enclosure enclosure' : Enclosure α} (h : enclosure.Alike enclosure') :
    ∀ n : Node α, n.typeset choice enclosure = n.typeset choice enclosure'
  | mk head note children => by
    rw [typeset, typeset, h.fence?_eq, typesetAll_alike (h.inside (mk head note children) _ rfl rfl rfl) children]

theorem typesetAll_alike {enclosure enclosure' : Enclosure α} (h : enclosure.Alike enclosure') :
    ∀ ns : List (Node α), typesetAll choice enclosure ns = typesetAll choice enclosure' ns
  | [] => rfl
  | n :: ns => by rw [typesetAll, typesetAll, typeset_alike h n, typesetAll_alike h ns]

end

mutual

/-- The numbers of the nodes are not seen. -/
theorem typeset_number {enclosure : Enclosure α} {enclosure' : Enclosure Nat} (h : enclosure.Alike enclosure')
    (first : Nat) :
    ∀ n : Node α, (n.number first).typeset choice enclosure' = n.typeset choice enclosure
  | mk head note children => by
    have hhead {n : Node α} {m : Node Nat} (h : ∃ first, m = n.number first) : n.head = m.head := by
      obtain ⟨first, rfl⟩ := h
      exact (head_number first n).symm
    have hchildren := forall₂_numberAll (first + 1) children
    have hinside := h.inside (mk head note children) (mk head first (numberAll (first + 1) children)) rfl
      (isSome_eq_of_rel (rel_soleContent? hhead hchildren)) (isSome_eq_of_rel (rel_onlyContentChild? hhead hchildren))
    rw [number, typeset, typeset, ← h.fence?_eq, typesetAll_numberAll hinside (first + 1) children]

theorem typesetAll_numberAll {enclosure : Enclosure α} {enclosure' : Enclosure Nat} (h : enclosure.Alike enclosure')
    (first : Nat) :
    ∀ ns : List (Node α), typesetAll choice enclosure' (numberAll first ns) = typesetAll choice enclosure ns
  | [] => rfl
  | n :: ns => by
    rw [numberAll, typesetAll, typesetAll, typeset_number h first n, typesetAll_numberAll h (first + n.size) ns]

end

theorem head_typeset (enclosure : Enclosure α) (n : Node α) : (n.typeset choice enclosure).head = n.head := by
  cases n
  rfl

/-! ### Fences that are not brought -/

/-- An array is content that is no mark between segments. -/
theorem isProperty_of_isArray {n : Node α} (hhead : ∃ e, n.head = Head.ofElement e) (h : n.isArray = true) :
    n.isProperty = false ∧ n.isMark = false := by
  obtain ⟨e, he⟩ := hhead
  have htag : n.isTag "m" = true ∨ n.isTag "eqArr" = true := by
    have h : (Form.ofElement e == .matrix || Form.ofElement e == .equationArray) = true := by
      rwa [isArray, form, he] at h
    rw [Form.isMatrix_ofElement, Form.isEquationArray_ofElement, Bool.or_eq_true] at h
    rw [isTag, isTag, he]
    exact h
  rcases htag with htag | htag
  · exact ⟨isProperty_of_isTag (by decide) htag, isMark_of_isTag htag (by decide)⟩
  · exact ⟨isProperty_of_isTag (by decide) htag, isMark_of_isTag htag (by decide)⟩

/-- An element with the tag of a container is no construct. -/
theorem form_of_container {n : Node α} (hhead : ∃ e, n.head = Head.ofElement e) {tag : String}
    (hmem : tag ∈ containerTags) (htag : n.isTag tag = true) : n.form = .generic := by
  obtain ⟨e, he⟩ := hhead
  have htag : e.isTag tag = true := by rwa [isTag, he] at htag
  obtain ⟨hmath, htag⟩ := Bool.and_eq_true_iff.mp htag
  have hnone : Form.construct? e = none := by
    rw [Form.construct?, if_pos hmath, eq_of_beq htag, ofTag?_eq_none_of_container hmem]
  rw [form, he, Head.ofElement, Form.ofElement, hnone]

theorem latexOf_of_not_absorbs {n : Node String} {fence : Fence} (h : n.absorbs fence = false) :
    n.latexOf choice (some fence) = n.latexOf choice none := by
  unfold absorbs at h
  unfold latexOf kind
  cases hform : n.form with
  | matrix =>
    have hfence : fence.matrixFence = .none := by simpa [hform] using h
    simp only [Typeset.matrix, Option.elim_some, Option.elim_none, hfence]
  | equationArray =>
    have hfence : fence.isCases = false := by simpa [hform] using h
    simp only [Typeset.equationArray, Typeset.arrayEnvironment, Option.any_some, Option.any_none, hfence]
  | _ => rfl

section Unabsorbed

variable {enclosure : Enclosure α} {n c d : Node α} {fence : Fence}

/-- A node that does not bring the fence around it is set as if it were not there. -/
theorem typeset_of_not_absorbs (hinside : enclosure.inside n = Enclosure.none.inside n)
    (hd : enclosure.delimiter? = some d) (hform : d.form = .delimiter fence) (h : n.absorbs fence = false) :
    n.typeset choice enclosure = n.typeset choice .none := by
  have hfence : enclosure.fence? = some fence := by rw [Enclosure.fence?, hd, Option.bind_some, hform]
  obtain ⟨head, note, children⟩ := n
  rw [typeset, typeset, hinside, hfence]
  congr 1
  exact latexOf_of_not_absorbs ((absorbs_eq rfl fence).trans h)

theorem absorbs_of_isProperty (hhead : ∃ e, n.head = Head.ofElement e) (h : n.isProperty = true) (fence : Fence) :
    n.absorbs fence = false := by
  have harray : n.isArray = false := by
    by_contra harray
    rw [(isProperty_of_isArray hhead (Bool.eq_true_of_not_eq_false harray)).1] at h
    cases h
  rw [isArray, Bool.or_eq_false_iff] at harray
  unfold absorbs
  cases hform : n.form <;> simp_all

/-- What is in an `e` with no array alone in it that brings the fence is set as if the fence were not there. -/
theorem typeset_throughContainer (hheads : ∀ c ∈ n.children, ∃ e, c.head = Head.ofElement e)
    (hd : d.form = .delimiter fence) (h : ∀ c, n.onlyContentChild? = some c → c.absorbs fence = false)
    (honly : n.onlyContentChild?.isSome = true) (hc : c ∈ n.children) :
    c.typeset choice (.throughContainer d) = c.typeset choice .none := by
  obtain ⟨g, hg⟩ := Option.isSome_iff_exists.mp honly
  refine typeset_of_not_absorbs (Enclosure.inside_throughContainer d) rfl hd ?_
  cases hproperty : c.isProperty with
  | true => exact absorbs_of_isProperty (hheads c hc) hproperty fence
  | false =>
    have hcontent : c ∈ n.contentChildren := List.mem_filter.mpr ⟨hc, by rw [hproperty]; rfl⟩
    rw [eq_of_mem_contentChildren hg hcontent]
    exact h g hg

/-- An `e` with no array alone in it that brings the fence is set as if the fence were not there. -/
theorem typeset_of_isTag_e (hhead : ∃ e, n.head = Head.ofElement e)
    (hheads : ∀ c ∈ n.children, ∃ e, c.head = Head.ofElement e) (hd : d.form = .delimiter fence)
    (he : n.isTag "e" = true) (h : ∀ c, n.onlyContentChild? = some c → c.absorbs fence = false) :
    n.typeset choice (.direct d) = n.typeset choice .none := by
  have hform := form_of_container hhead (by decide) he
  have hinner : typesetAll choice ((Enclosure.direct d).inside n) n.children =
      typesetAll choice (Enclosure.none.inside n) n.children := by
    have hgeneric : n.form.isDelimiter = false := by rw [hform]; rfl
    rw [Enclosure.inside_of_not_isDelimiter hgeneric, Enclosure.inside_of_not_isDelimiter hgeneric]
    dsimp only
    split
    · next honly =>
      rw [typesetAll_eq_map, typesetAll_eq_map]
      refine List.map_congr_left fun c hc => typeset_throughContainer hheads hd h ?_ hc
      exact (Bool.and_eq_true_iff.mp honly).2
    · rfl
  obtain ⟨head, note, children⟩ := n
  rw [children_mk] at hinner
  rw [typeset, typeset, hinner]
  congr 1
  refine latexOf_of_not_isArray ?_ _ _
  rw [isArray, form, head_mk, show head.form = .generic from hform]
  rfl

/-- What is in a delimiter that leaves its fence to no array is set as if the fence were not there. -/
theorem typeset_direct
    (hheads : ∀ c ∈ d.children, (∃ e, c.head = Head.ofElement e) ∧ ∀ g ∈ c.children, ∃ e, g.head = Head.ofElement e)
    (hd : d.form = .delimiter fence) (habsorbed : d.absorbedContent? fence = none)
    (hsole : d.soleContent?.isSome = true) (hc : c ∈ d.children) :
    c.typeset choice (.direct d) = c.typeset choice .none := by
  obtain ⟨s, hs⟩ := Option.isSome_iff_exists.mp hsole
  obtain ⟨hhead, hbelow⟩ := hheads c hc
  rw [absorbedContent?, wrappedContent?, hs, Option.bind_some, Option.filter_eq_none_iff] at habsorbed
  have hbetween (hproperty : c.isProperty = false) (hmark : c.isMark = false) : c = s := by
    have hmem : c ∈ d.contentChildren.filter fun c => !c.isMark :=
      List.mem_filter.mpr ⟨List.mem_filter.mpr ⟨hc, by rw [hproperty]; rfl⟩, by rw [hmark]; rfl⟩
    rwa [contentChildren_of_soleContent? hs, List.mem_singleton] at hmem
  cases he : c.isTag "e" with
  | false =>
    refine typeset_of_not_absorbs (Enclosure.inside_direct he) rfl hd ?_
    cases hproperty : c.isProperty with
    | true => exact absorbs_of_isProperty hhead hproperty fence
    | false =>
      cases hmark : c.isMark with
      | true => rw [absorbs, form_of_container hhead (by decide) hmark]
      | false =>
        rw [← hbetween hproperty hmark, he, if_neg Bool.false_ne_true] at habsorbed
        exact Bool.eq_false_iff.mpr (habsorbed c rfl)
  | true =>
    rw [← hbetween (isProperty_of_isTag (by decide) he) (isMark_of_isTag he (by decide)), he, if_pos rfl] at habsorbed
    exact typeset_of_isTag_e hhead hbelow hd he fun g hg => Bool.eq_false_iff.mpr (habsorbed g hg)

/-- A node is set as if nothing enclosed it, if what it is in brings no fence. -/
theorem typeset_inside
    (hheads : ∀ c ∈ n.children, (∃ e, c.head = Head.ofElement e) ∧ ∀ g ∈ c.children, ∃ e, g.head = Head.ofElement e)
    (hdelimiter : ∀ fence, n.form = .delimiter fence → n.absorbedContent? fence = none)
    (hsegment : ∀ d, enclosure = .direct d → n.isTag "e" = true →
      ∃ fence, d.form = .delimiter fence ∧ ∀ c, n.onlyContentChild? = some c → c.absorbs fence = false)
    (hc : c ∈ n.children) : c.typeset choice (enclosure.inside n) = c.typeset choice .none := by
  cases hd : n.form.isDelimiter with
  | true =>
    obtain ⟨fence, hform⟩ := Form.exists_fence_of_isDelimiter hd
    rw [Enclosure.inside_of_isDelimiter hd]
    split
    · next hsole => exact typeset_direct hheads hform (hdelimiter fence hform) hsole hc
    · rfl
  | false =>
    rw [Enclosure.inside_of_not_isDelimiter hd]
    split
    · next d =>
      split
      · next he =>
        obtain ⟨he, honly⟩ := Bool.and_eq_true_iff.mp he
        obtain ⟨fence, hform, hnot⟩ := hsegment d rfl he
        exact typeset_throughContainer (fun c hc => (hheads c hc).1) hform hnot honly hc
      · rfl
    · rfl

end Unabsorbed

end Node

end OfficeMath
