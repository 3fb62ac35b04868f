import OfficeMath.Equation.Form
import OfficeMath.Latex.Bracket
import OfficeMath.Latex.Draft
import OfficeMath.Latex.Command
import OfficeMath.Latex.Symbol

/-! The LaTeX of fractions, roots, scripts, limits and large operators, from the LaTeX of their parts. A part that
    is missing is `none`; where the construct cannot do without it, a marker takes its place. -/

namespace OfficeMath
namespace Typeset

open Latex

/-! ### Fractions and roots -/

/-- A fraction. -/
def fraction (style : FractionStyle) (numerator denominator : Option String) : String :=
  match numerator, denominator with
  | some num, some den =>
    match style with
    | .bar => command "\\frac" num ++ braced den
    | .noBar => command "\\binom" num ++ braced den
    | .linear => braced (braced num ++ " \\over " ++ braced den)
    | .skewed => braced num ++ "/" ++ braced den
  | _, _ => errorMarker "Incomplete Fraction"

/-- The degree of a root is written, unless it is blank or two. -/
def isShownDegree (degree : String) : Bool :=
  let trimmed := Text.trim degree
  trimmed != "" && trimmed != "2"

/-- A root. -/
def radical (hideDegree : Bool) (base degree : Option String) : String :=
  match base with
  | none => errorMarker "Incomplete Radical"
  | some base =>
    match (if hideDegree then none else degree.filter isShownDegree) with
    | some degree => "\\sqrt[" ++ degree ++ "]" ++ braced base
    | none => command "\\sqrt" base

/-! ### Scripts -/

/-- A script below and one above, those of them that are there. -/
def scripts (sub sup : Option String) : String :=
  (sub.map (command "_")).getD "" ++ (sup.map (command "^")).getD ""

/-- A base with scripts after it. -/
def script (base sub sup : Option String) : String :=
  if sub.isNone && sup.isNone then base.getD "" else braced (base.getD "") ++ scripts sub sup

/-- A base with scripts before it. -/
def preScript (base sub sup : Option String) : String :=
  if sub.isNone && sup.isNone then base.getD ""
  else braced "" ++ scripts sub sup ++ (base.map braced).getD ""

/-! ### Limits and large operators -/

/-- A base with a limit below or above it. A base that names a function is written by the command of it. -/
def limit (upper : Bool) (function base limit : Option String) : String :=
  let mark := if upper then "^" else "_"
  match base, limit with
  | some base, some limit => function.getD (braced base) ++ command mark limit
  | none, some limit =>
    if upper then command "^" limit else limit ++ errorMarker "LimLow incomplete"
  | base, none => base.getD "" ++ errorMarker (if upper then "LimUpp incomplete" else "LimLow incomplete")

/-- The signs that have their limits beside them unless another place is asked for. -/
def integralSigns : List Char := ['∫', '∬', '∭', '∮', '∯', '∰', '∱', '∲', '∳']

/-- The text is one sign of an integral. -/
def isIntegral (sign : String) : Bool :=
  match sign.toList with
  | [c] => integralSigns.contains c
  | _ => false

/-- The LaTeX of the sign of a large operator, which is a sum where none is given. -/
def operatorSign (sign : Option String) : String :=
  match sign with
  | none => "\\sum"
  | some sign =>
    match sign.toList with
    | [c] => (symbolOf? c).getD (escape sign)
    | _ => escape sign

/-- The command that puts limits where they are asked for, if they do not stand there anyway. -/
def limitsCommand (location : Option LimitLocation) (integral : Bool) : String :=
  match location, integral with
  | some .underOver, true => "\\limits"
  | some .subSup, false => "\\nolimits"
  | _, _ => ""

/-- A large operator with its limits and what it ranges over. -/
def nary (operator : LargeOperator) (sub sup base : Option String) : String :=
  match base with
  | none => errorMarker "N-ary operator missing base element"
  | some base =>
    let sign := operator.sign.filter (· ≠ "")
    operatorSign sign ++ limitsCommand operator.limits (sign.any isIntegral) ++
      scripts (if operator.hideSub then none else sub) (if operator.hideSup then none else sup) ++ " " ++ base

end Typeset
end OfficeMath
