import OfficeMath.Latex.Draft
import OfficeMath.Latex.Escape

/-! Symbols of mathematical text and their LaTeX. A character is written by its symbol if it has one, as a
    plain letter if it is an italic letter of the mathematical alphabets, by its escape if LaTeX would read it
    as markup, and else as itself; the texts of the characters are joined so that no command runs on. -/

namespace OfficeMath
namespace Latex

/-! ### Tables -/

/-- Greek letters, and their variant forms. Those that look like a Latin letter have no command. -/
def greekLetters : List (Char × String) := [
  ('α', "\\alpha"), ('β', "\\beta"), ('γ', "\\gamma"), ('δ', "\\delta"), ('ε', "\\epsilon"),
  ('ζ', "\\zeta"), ('η', "\\eta"), ('θ', "\\theta"), ('ι', "\\iota"), ('κ', "\\kappa"),
  ('λ', "\\lambda"), ('μ', "\\mu"), ('ν', "\\nu"), ('ξ', "\\xi"), ('ο', "o"), ('π', "\\pi"),
  ('ρ', "\\rho"), ('ς', "\\varsigma"), ('σ', "\\sigma"), ('τ', "\\tau"), ('υ', "\\upsilon"),
  ('φ', "\\phi"), ('χ', "\\chi"), ('ψ', "\\psi"), ('ω', "\\omega"),
  ('Α', "A"), ('Β', "B"), ('Γ', "\\Gamma"), ('Δ', "\\Delta"), ('Ε', "E"), ('Ζ', "Z"), ('Η', "H"),
  ('Θ', "\\Theta"), ('Ι', "I"), ('Κ', "K"), ('Λ', "\\Lambda"), ('Μ', "M"), ('Ν', "N"), ('Ξ', "\\Xi"),
  ('Ο', "O"), ('Π', "\\Pi"), ('Ρ', "P"), ('Σ', "\\Sigma"), ('Τ', "T"), ('Υ', "\\Upsilon"),
  ('Φ', "\\Phi"), ('Χ', "X"), ('Ψ', "\\Psi"), ('Ω', "\\Omega"),
  ('ϵ', "\\varepsilon"), ('ϑ', "\\vartheta"), ('ϰ', "\\varkappa"), ('ϕ', "\\varphi"), ('ϱ', "\\varrho"),
  ('ϖ', "\\varpi")]

/-- Signs that stand for a thing of their own: constants, sets, quantifiers and marks. -/
def letterlikeSymbols : List (Char × String) := [
  ('∂', "\\partial"), ('∇', "\\nabla"), ('∞', "\\infty"), ('∅', "\\emptyset"), ('ℏ', "\\hbar"),
  ('ℓ', "\\ell"), ('℘', "\\wp"), ('ℑ', "\\Im"), ('ℜ', "\\Re"), ('ℵ', "\\aleph"), ('ℎ', "h"),
  ('ℕ', "\\mathbb\x7bN\x7d"), ('ℤ', "\\mathbb\x7bZ\x7d"), ('ℚ', "\\mathbb\x7bQ\x7d"),
  ('ℝ', "\\mathbb\x7bR\x7d"), ('ℂ', "\\mathbb\x7bC\x7d"), ('∀', "\\forall"), ('∃', "\\exists"),
  ('∄', "\\nexists"), ('¬', "\\neg"), ('∠', "\\angle"), ('△', "\\triangle"), ('∴', "\\therefore"),
  ('∵', "\\because"), ('°', "^\x7b\\circ\x7d"), ('′', "'"), ('″', "''"), ('‴', "'''"), ('√', "\\sqrt")]

/-- Binary operators. -/
def binaryOperators : List (Char × String) := [
  ('±', "\\pm"), ('∓', "\\mp"), ('×', "\\times"), ('÷', "\\div"), ('−', "-"), ('⋅', "\\cdot"),
  ('·', "\\cdot"), ('∘', "\\circ"), ('∙', "\\bullet"), ('•', "\\bullet"), ('∗', "\\ast"),
  ('⋆', "\\star"), ('⊕', "\\oplus"), ('⊖', "\\ominus"), ('⊗', "\\otimes"), ('⊙', "\\odot"),
  ('∧', "\\wedge"), ('∨', "\\vee"), ('∩', "\\cap"), ('∪', "\\cup"), ('∖', "\\setminus"),
  ('⊎', "\\uplus"), ('⊓', "\\sqcap"), ('⊔', "\\sqcup"), ('†', "\\dagger"), ('‡', "\\ddagger")]

/-- Relations. -/
def relations : List (Char × String) := [
  ('≠', "\\ne"), ('≤', "\\leq"), ('≥', "\\geq"), ('≦', "\\leqq"), ('≧', "\\geqq"), ('≨', "\\lneqq"),
  ('≩', "\\gneqq"), ('≪', "\\ll"), ('≫', "\\gg"), ('≡', "\\equiv"), ('≈', "\\approx"), ('≅', "\\cong"),
  ('∼', "\\sim"), ('≃', "\\simeq"), ('≍', "\\asymp"), ('≐', "\\doteq"), ('≜', "\\triangleq"),
  ('∝', "\\propto"), ('≺', "\\prec"), ('≻', "\\succ"), ('⪯', "\\preceq"), ('⪰', "\\succeq"),
  ('∈', "\\in"), ('∉', "\\notin"), ('∋', "\\ni"), ('∌', "\\not\\ni"), ('⊂', "\\subset"),
  ('⊃', "\\supset"), ('⊆', "\\subseteq"), ('⊇', "\\supseteq"), ('⊄', "\\not\\subset"),
  ('⊊', "\\subsetneq"), ('⊋', "\\supsetneq"), ('⊥', "\\perp"), ('∥', "\\parallel"), ('∣', "\\mid"),
  ('⊢', "\\vdash"), ('⊨', "\\models")]

/-- Arrows. -/
def arrows : List (Char × String) := [
  ('←', "\\leftarrow"), ('↑', "\\uparrow"), ('→', "\\rightarrow"), ('↓', "\\downarrow"),
  ('↔', "\\leftrightarrow"), ('↕', "\\updownarrow"), ('↖', "\\nwarrow"), ('↗', "\\nearrow"),
  ('↘', "\\searrow"), ('↙', "\\swarrow"), ('⇐', "\\Leftarrow"), ('⇒', "\\Rightarrow"),
  ('⇑', "\\Uparrow"), ('⇓', "\\Downarrow"), ('⇔', "\\Leftrightarrow"), ('↦', "\\mapsto"),
  ('↩', "\\hookleftarrow"), ('↪', "\\hookrightarrow"), ('⇀', "\\rightharpoonup"),
  ('↼', "\\leftharpoonup"), ('⇌', "\\rightleftharpoons"), ('⟵', "\\longleftarrow"),
  ('⟶', "\\longrightarrow"), ('⟷', "\\longleftrightarrow"), ('⟸', "\\Longleftarrow"),
  ('⟹', "\\Longrightarrow"), ('⟺', "\\Longleftrightarrow")]

/-- Dots, and the operators that take limits. -/
def largeOperators : List (Char × String) := [
  ('…', "\\dots"), ('⋮', "\\vdots"), ('⋯', "\\cdots"), ('⋰', "\\adots"), ('⋱', "\\ddots"),
  ('∑', "\\sum"), ('∏', "\\prod"), ('∐', "\\coprod"), ('∫', "\\int"), ('∬', "\\iint"), ('∭', "\\iiint"),
  ('∮', "\\oint"), ('∯', "\\oiint"), ('∰', "\\oiiint"), ('⋀', "\\bigwedge"), ('⋁', "\\bigvee"),
  ('⋂', "\\bigcap"), ('⋃', "\\bigcup"), ('⨀', "\\bigodot"), ('⨁', "\\bigoplus"), ('⨂', "\\bigotimes"),
  ('⨄', "\\biguplus"), ('⨆', "\\bigsqcup"), ('⅀', "\\Bbbsum")]

/-- Spaces, and characters that are not seen. -/
def spaces : List (Char × String) := [
  ('\u2002', "\\enspace"), ('\u2003', "\\quad"), ('\u2009', "\\,"), ('\u200a', "\\:"),
  ('\u205f', "\\:"), ('\u00a0', "~"),
  ('\u200b', ""), ('\u2061', ""), ('\u2062', ""), ('\u2063', "")]

/-- All characters that have a symbol. -/
def symbols : List (Char × String) :=
  greekLetters ++ letterlikeSymbols ++ binaryOperators ++ relations ++ arrows ++ largeOperators ++ spaces

/-! ### Text -/

/-- The symbol of a character. -/
def symbolOf? (c : Char) : Option String := symbols.lookup c

/-- The plain letter of an italic letter of the mathematical alphabets: U+1D434 to U+1D44D are the capitals,
    U+1D44E to U+1D467 the small letters. -/
def plainLetter? (c : Char) : Option Char :=
  let n := c.toNat
  if 0x1D434 ≤ n && n ≤ 0x1D44D then some (Char.ofNat (n - 0x1D434 + 0x41))
  else if 0x1D44E ≤ n && n ≤ 0x1D467 then some (Char.ofNat (n - 0x1D44E + 0x61))
  else none

/-- What a character of mathematical text is written as. -/
def translate (c : Char) : String :=
  match symbolOf? c with
  | some symbol => symbol
  | none =>
    match plainLetter? c with
    | some letter => String.singleton letter
    | none => escapeChar c

/-- The text in LaTeX. -/
def convertText (text : String) : String := joinFragments (text.toList.map translate)

theorem symbolOf?_eq_some_mem {c : Char} {s : String} (h : symbolOf? c = some s) : (c, s) ∈ symbols :=
  Text.mem_of_lookup h

end Latex
end OfficeMath
