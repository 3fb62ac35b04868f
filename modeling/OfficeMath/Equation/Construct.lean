import OfficeMath.Text.Basic

/-! The constructs of office math and the tags by which they are written. -/

namespace OfficeMath

/-- The constructs that have a tag of their own. -/
inductive Construct where
  | run | fraction | radical | subscript | superscript | subSuperscript | preScript | delimiter | function | nary
  | matrix | matrixRow | lowerLimit | upperLimit | equationArray | accent | bar | box | borderBox | groupCharacter
  | phantom
  deriving DecidableEq, Repr

namespace Construct

/-- The tags of the constructs. -/
def tags : List (String × Construct) := [
  ("r", run), ("f", fraction), ("rad", radical), ("sSub", subscript), ("sSup", superscript),
  ("sSubSup", subSuperscript), ("sPre", preScript), ("d", delimiter), ("func", function), ("nary", nary),
  ("limLow", lowerLimit), ("limUpp", upperLimit), ("m", matrix), ("mr", matrixRow), ("eqArr", equationArray),
  ("acc", accent), ("bar", bar), ("box", box), ("borderBox", borderBox), ("groupChr", groupCharacter),
  ("phant", phantom)]

/-- The construct that a tag stands for. -/
def ofTag? (tag : String) : Option Construct := tags.lookup tag

theorem ofTag?_eq_some_mem {tag : String} {c : Construct} (h : ofTag? tag = some c) : (tag, c) ∈ tags :=
  Text.mem_of_lookup h

end Construct

/-- The tags that only hold the parts of a construct or its text. -/
def containerTags : List String :=
  ["oMathPara", "oMath", "e", "num", "den", "sub", "sup", "deg", "lim", "fName", "sep", "t"]

/-- The tag is that of an element of properties: something, then `Pr`. -/
def isPropertyTag (tag : String) : Bool := 2 < tag.toList.length && ['P', 'r'].isSuffixOf tag.toList

/-- The tag of a container is not that of a construct. -/
theorem ofTag?_eq_none_of_container {tag : String} (h : tag ∈ containerTags) : Construct.ofTag? tag = none := by
  revert tag
  decide

/-- The tag of a construct is not that of an element of properties, so a construct always counts as content. -/
theorem isPropertyTag_eq_false {tag : String} {c : Construct} (h : Construct.ofTag? tag = some c) :
    isPropertyTag tag = false := by
  have hall : ∀ p ∈ Construct.tags, isPropertyTag p.1 = false := by decide
  exact hall (tag, c) (Construct.ofTag?_eq_some_mem h)

end OfficeMath
