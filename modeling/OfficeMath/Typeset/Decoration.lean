import OfficeMath.Equation.Form
import OfficeMath.Latex.AccentMark
import OfficeMath.Latex.Command

/-! The LaTeX of constructs that decorate one base: accents, bars, boxes, braces over and under a group, and
    phantoms. A marker takes the place of a decoration without a base. -/

namespace OfficeMath
namespace Typeset

open Latex

/-- A base with an accent. -/
def accent (mark base : Option String) : String :=
  match base with
  | none => errorMarker "Accent missing base or char"
  | some base =>
    match accentCommand? ((mark.filter (· ≠ "")).getD defaultAccent) with
    | some name => command name base
    | none => command "\\text" "Accent?" ++ braced base

/-- A base with a bar over or under it. -/
def bar (position : VerticalPosition) (base : Option String) : String :=
  match base with
  | none => errorMarker "Bar missing base element"
  | some base =>
    match position with
    | .top => command "\\overline" base
    | .bottom => command "\\underline" base

/-- A base in a box. -/
def box (base : Option String) : String :=
  match base with
  | none => errorMarker "Box missing base element"
  | some base => command "\\boxed" base

/-- The brace over a group. -/
def overBrace : String := "⏞"

/-- The brace under a group, which is the sign where none is given. -/
def underBrace : String := "⏟"

/-- The signs that are written as a brace. -/
def braceSigns : List String := [overBrace, underBrace, "\x7b", "\x7d"]

/-- A base with a sign over or under it, of which only braces are written. -/
def groupCharacter (sign : Option String) (position : Option VerticalPosition) (base : Option String) : String :=
  match base with
  | none => errorMarker "GroupChar missing base or char"
  | some base =>
    let sign := (sign.filter (· ≠ "")).getD underBrace
    if braceSigns.contains sign then
      match position.getD (if sign = overBrace then .top else .bottom) with
      | .top => command "\\overbrace" base
      | .bottom => command "\\underbrace" base
    else base

/-- A base that is shown, or that only takes up space. -/
def phantom (isShown : Bool) (base : Option String) : String :=
  match base with
  | none => errorMarker "Phantom missing base element"
  | some base => if isShown then base else command "\\phantom" base

end Typeset
end OfficeMath
