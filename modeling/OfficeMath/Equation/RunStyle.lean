import OfficeMath.Xml.Element
import OfficeMath.Text.Basic

/-! Properties and the style of a run. A property is an element inside the properties of its construct; it is read
    by its value, by its presence, or as a switch that is on unless its value switches it off. -/

namespace OfficeMath

/-! ### Properties -/

/-- The values that switch a property off. -/
def offValues : List String := ["0", "off", "false", "no"]

/-- A switch with the value is on; so is one without a value. -/
def isOnValue (value : Option String) : Bool := value.all fun v => !offValues.contains (Text.trim v)

/-- The switch is there and is on. -/
def isOn (switch : Option Xml.Element) : Bool := switch.any fun e => isOnValue e.val?

/-- The property of an element, inside its element of properties. -/
def property? (e : Xml.Element) (properties name : String) : Option Xml.Element :=
  (e.child? properties).bind fun pr => pr.child? name

/-- The value of a property of an element. -/
def propertyValue? (e : Xml.Element) (properties name : String) : Option String :=
  (property? e properties name).bind Xml.Element.val?

/-- The property of an element is there and is on. -/
def hasProperty (e : Xml.Element) (properties name : String) : Bool := isOn (property? e properties name)

/-! ### The style of a run -/

/-- The alphabets of mathematical letters that a run can be set in. -/
inductive Alphabet where
  | script | fraktur | doubleStruck | sansSerif | monospace
  deriving DecidableEq, Repr

/-- The alphabet that the property `scr` names; it is the script alphabet if no value is given. -/
def Alphabet.ofValue? : Option String → Option Alphabet
  | none => some script
  | some "script" => some script
  | some "fraktur" => some fraktur
  | some "double-struck" => some doubleStruck
  | some "sans-serif" => some sansSerif
  | some "monospace" => some monospace
  | some _ => none

/-- How the text of a run is set. -/
structure RunStyle where
  plain : Bool := false
  bold : Bool := false
  italic : Bool := false
  alphabet : Option Alphabet := none
  deriving DecidableEq, Repr

namespace RunStyle

/-- What the property `sty` fixes by itself. -/
def ofSty (sty : Option String) : RunStyle :=
  match sty with
  | some "p" => { plain := true }
  | some "b" => { bold := true }
  | some "i" => { italic := true }
  | some "bi" => { bold := true, italic := true }
  | some "sc" => { alphabet := some .script }
  | some "fr" => { alphabet := some .fraktur }
  | _ => {}

/-- The other properties count as well: `sty` is absent, plain or normal. -/
def leavesOpen (sty : Option String) : Bool := sty == none || sty == some "p" || sty == some "nor"

/-- The alphabet of the properties `scr` and `frak`, of which the first goes before the second. -/
def alphabetOf (properties : Xml.Element) : Option Alphabet :=
  ((properties.child? "scr").bind fun scr => Alphabet.ofValue? scr.val?).or
    (if isOn (properties.child? "frak") then some .fraktur else none)

/-- The style that the properties of a run give. Unless `sty` fixes it, an alphabet is chosen first, and where
    none is, the switches `b` and `i` decide on bold and italic. -/
def ofProperties (properties : Xml.Element) : RunStyle :=
  let sty := (properties.child? "sty").bind Xml.Element.val?
  let style := ofSty sty
  if leavesOpen sty then
    match alphabetOf properties with
    | some alphabet => { style with alphabet := some alphabet }
    | none => { style with bold := isOn (properties.child? "b"), italic := isOn (properties.child? "i") }
  else style

end RunStyle

end OfficeMath
