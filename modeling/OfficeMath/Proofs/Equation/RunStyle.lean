import OfficeMath.Proofs.Equation.FormSource

/-! How the properties of a run come to one style. A `sty` that is given fixes bold and italic; where it leaves them
    open, an alphabet goes before the switches `b` and `i`. Each property is read from the first element with its name,
    so that elements with different names can stand in any order. -/

namespace OfficeMath

/-- The value by which `scr` names the alphabet. -/
def Alphabet.value : Alphabet → String
  | script => "script"
  | fraktur => "fraktur"
  | doubleStruck => "double-struck"
  | sansSerif => "sans-serif"
  | monospace => "monospace"

theorem Alphabet.ofValue?_value (a : Alphabet) : ofValue? (some a.value) = some a := by
  cases a <;> rfl

namespace RunStyle

variable {properties properties' : Xml.Element} {sty : Option String} {style : RunStyle}

/-- The value of `sty`, if it has one. -/
def sty? (properties : Xml.Element) : Option String := (properties.child? "sty").bind Xml.Element.val?

/-- The values of `sty` that leave bold and italic open. -/
def openStyles : List (Option String) := [none, some "p", some "nor"]

/-- The values of `sty` that name an alphabet. -/
def alphabetStyles : List (String × Alphabet) := [("sc", .script), ("fr", .fraktur)]

/-- The first `scr` names the alphabet by its value; without a value it names the script alphabet. -/
def ScrNames (properties : Xml.Element) (a : Alphabet) : Prop :=
  ∃ scr, properties.child? "scr" = some scr ∧ (scr.val? = some a.value ∨ scr.val? = none ∧ a = .script)

/-- The first property with the name is there, and no value switches it off. -/
def IsSwitchedOn (properties : Xml.Element) (name : String) : Prop :=
  ∃ switch, properties.child? name = some switch ∧ ∀ value ∈ switch.val?, Text.trim value ∉ offValues

/-- The style is what the properties ask for, apart from the alphabet that `scr` names. -/
structure Follows (properties : Xml.Element) (style : RunStyle) : Prop where
  plain_iff : style.plain = true ↔ sty? properties = some "p"
  /-- Bold and italic are up to `sty` alone unless this leaves them open and no alphabet is chosen. -/
  of_sty : ¬(sty? properties ∈ openStyles ∧ style.alphabet = none) →
    (style.bold = true ↔ sty? properties ∈ [some "b", some "bi"]) ∧
      (style.italic = true ↔ sty? properties ∈ [some "i", some "bi"])
  of_switches : sty? properties ∈ openStyles → style.alphabet = none →
    (style.bold = true ↔ IsSwitchedOn properties "b") ∧ (style.italic = true ↔ IsSwitchedOn properties "i")
  alphabet_of_sty : ∀ p ∈ alphabetStyles, sty? properties = some p.1 → style.alphabet = some p.2

/-! ### What `sty` fixes -/

theorem leavesOpen_iff : leavesOpen sty = true ↔ sty ∈ openStyles := by
  simp [leavesOpen, openStyles, or_assoc]

theorem plain_ofSty : (ofSty sty).plain = true ↔ sty = some "p" := by
  unfold ofSty
  split <;> simp_all

theorem bold_ofSty : (ofSty sty).bold = true ↔ sty ∈ [some "b", some "bi"] := by
  unfold ofSty
  split <;> simp_all

theorem italic_ofSty : (ofSty sty).italic = true ↔ sty ∈ [some "i", some "bi"] := by
  unfold ofSty
  split <;> simp_all

theorem alphabet_ofSty {p : String × Alphabet} (h : p ∈ alphabetStyles) : (ofSty (some p.1)).alphabet = some p.2 := by
  revert p
  decide

/-- What is left open is neither bold nor italic by `sty`, and in no alphabet. -/
theorem ofSty_of_open (h : sty ∈ openStyles) :
    (ofSty sty).bold = false ∧ (ofSty sty).italic = false ∧ (ofSty sty).alphabet = none := by
  revert sty
  decide

/-! ### Alphabets and switches -/

theorem isOn_child?_iff {name : String} : isOn (properties.child? name) = true ↔ IsSwitchedOn properties name := by
  simp only [isOn, isOnValue, IsSwitchedOn, Option.any_eq_true]
  refine exists_congr fun switch => and_congr_right fun _ => ?_
  cases switch.val? <;> simp

theorem alphabetOf_of_scrNames {a : Alphabet} (h : ScrNames properties a) : alphabetOf properties = some a := by
  obtain ⟨scr, hscr, hvalue⟩ := h
  have ha : Alphabet.ofValue? scr.val? = some a := by
    rcases hvalue with hvalue | ⟨hvalue, rfl⟩
    · rw [hvalue, Alphabet.ofValue?_value]
    · rw [hvalue]
      rfl
  rw [alphabetOf, hscr, Option.bind_some, ha, Option.some_or]

/-! ### The style -/

theorem ofProperties_of_open (h : sty? properties ∈ openStyles) : ofProperties properties =
    match alphabetOf properties with
    | some alphabet => { ofSty (sty? properties) with alphabet := some alphabet }
    | none => { ofSty (sty? properties) with
        bold := isOn (properties.child? "b"), italic := isOn (properties.child? "i") } :=
  if_pos (leavesOpen_iff.mpr h)

theorem ofProperties_of_fixed (h : sty? properties ∉ openStyles) : ofProperties properties = ofSty (sty? properties) :=
  if_neg (mt leavesOpen_iff.mp h)

theorem follows_ofProperties (properties : Xml.Element) : Follows properties (ofProperties properties) := by
  by_cases hopen : sty? properties ∈ openStyles
  · obtain ⟨hbold, hitalic, halphabet⟩ := ofSty_of_open hopen
    have hnames : ∀ p ∈ alphabetStyles, sty? properties ≠ some p.1 := fun p hp hsty => by
      rw [hsty, alphabet_ofSty hp] at halphabet
      cases halphabet
    rw [ofProperties_of_open hopen]
    cases alphabetOf properties with
    | some a =>
      exact {
        plain_iff := plain_ofSty
        of_sty _ := ⟨bold_ofSty, italic_ofSty⟩
        of_switches _ hnone := nomatch hnone
        alphabet_of_sty p hp hsty := absurd hsty (hnames p hp) }
    | none =>
      exact {
        plain_iff := plain_ofSty
        of_sty hchosen := absurd ⟨hopen, halphabet⟩ hchosen
        of_switches _ _ := ⟨isOn_child?_iff, isOn_child?_iff⟩
        alphabet_of_sty p hp hsty := absurd hsty (hnames p hp) }
  · rw [ofProperties_of_fixed hopen]
    exact {
      plain_iff := plain_ofSty
      of_sty _ := ⟨bold_ofSty, italic_ofSty⟩
      of_switches h := absurd h hopen
      alphabet_of_sty p hp hsty := by rw [hsty, alphabet_ofSty hp] }

theorem alphabet_ofProperties {a : Alphabet} (h : ScrNames properties a) (hopen : sty? properties ∈ openStyles) :
    (ofProperties properties).alphabet = some a := by
  rw [ofProperties_of_open hopen, alphabetOf_of_scrNames h]

theorem ofProperties_eq_of_filter (h : ∀ name,
    properties.elements.filter (·.isTag name) = properties'.elements.filter (·.isTag name)) :
    ofProperties properties = ofProperties properties' := by
  refine ofProperties_congr fun name _ => ?_
  have hchild (e : Xml.Element) : e.child? name = (e.elements.filter (·.isTag name)).head? :=
    (List.head?_filter ..).symm
  rw [hchild, hchild, h name]

/-- The properties of a run come to the style that they ask for: `sty` says whether it is plain, and bold and italic
    too unless it leaves them open to an alphabet or else to the switches. Where it does, an alphabet that `scr` names
    is the alphabet of the style. Only the order of elements with the same name matters. -/
theorem ofProperties_resolves (properties : Xml.Element) :
    Follows properties (ofProperties properties) ∧
      (sty? properties ∈ openStyles → ∀ a, ScrNames properties a → (ofProperties properties).alphabet = some a) ∧
      ∀ properties', (∀ name,
          properties.elements.filter (·.isTag name) = properties'.elements.filter (·.isTag name)) →
        ofProperties properties = ofProperties properties' :=
  ⟨follows_ofProperties properties, fun hopen _ h => alphabet_ofProperties h hopen, fun _ =>
    ofProperties_eq_of_filter⟩

/-- An alphabet and a switch without a value, in either order. -/
theorem ofProperties_resolves_of_doubleStruck :
    let scr : Xml.Element := .mk (.math "scr") [⟨.math "val", "double-struck"⟩] []
    let b : Xml.Element := Xml.Element.math "b"
    let properties : Xml.Element := .mk (.math "rPr") [] [.element scr, .element b]
    let swapped : Xml.Element := .mk (.math "rPr") [] [.element b, .element scr]
    sty? properties ∈ openStyles ∧ ScrNames properties .doubleStruck ∧
      (∀ name, properties.elements.filter (·.isTag name) = swapped.elements.filter (·.isTag name)) ∧
      (ofProperties properties).alphabet = some .doubleStruck ∧ (ofProperties properties).bold = false ∧
      ofProperties properties = ofProperties swapped := by
  intro scr b properties swapped
  obtain ⟨hfollows, halphabet, hswap⟩ := ofProperties_resolves properties
  have hopen : sty? properties ∈ openStyles := .head _
  have hnames : ScrNames properties .doubleStruck := ⟨scr, rfl, .inl rfl⟩
  have hfilter (name : String) :
      properties.elements.filter (·.isTag name) = swapped.elements.filter (·.isTag name) := by
    have hnot : scr.isTag name = true → b.isTag name = false := by
      intro hscr
      have hname : Xml.Name.math "scr" = Xml.Name.math name := Xml.Element.isTag_iff.mp hscr
      rw [← (Xml.Name.mk.inj hname).2]
      decide
    change [scr, b].filter (·.isTag name) = [b, scr].filter (·.isTag name)
    cases hscr : scr.isTag name with
    | true => simp [hscr, hnot hscr]
    | false => simp [hscr, List.filter_cons]
  have hchosen := halphabet hopen .doubleStruck hnames
  have hlight : (ofProperties properties).bold = false := by
    have hsty : sty? properties = none := rfl
    rw [← Bool.not_eq_true, (hfollows.of_sty (by simp [hchosen])).1, hsty]
    simp
  exact ⟨hopen, hnames, hfilter, hchosen, hlight, hswap swapped hfilter⟩

/-- Bold by `sty` drops the alphabet that `scr` names. -/
theorem alphabet_ofProperties_of_bold :
    let sty : Xml.Element := .mk (.math "sty") [⟨.math "val", "b"⟩] []
    let scr : Xml.Element := .mk (.math "scr") [⟨.math "val", "fraktur"⟩] []
    let properties : Xml.Element := .mk (.math "rPr") [] [.element scr, .element sty]
    ScrNames properties .fraktur ∧ (∀ p ∈ alphabetStyles, sty? properties ≠ some p.1) ∧
      (ofProperties properties).alphabet = none := by
  intro sty scr properties
  have hnames : ScrNames properties .fraktur := ⟨scr, rfl, .inl rfl⟩
  have hsty : sty? properties = some "b" := rfl
  exact ⟨hnames, by rw [hsty]; decide, rfl⟩

end RunStyle

end OfficeMath
