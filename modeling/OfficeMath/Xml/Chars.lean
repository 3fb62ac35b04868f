/-! Pieces of XML text: white space, quotes, and the cut at a closing mark. -/

namespace OfficeMath
namespace Xml

/-- White space in XML: space, tab, carriage return and line feed. -/
def isSpace (c : Char) : Bool := c == ' ' || c == '\t' || c == '\r' || c == '\n'

/-- A quotation mark, single or double. -/
def isQuote (c : Char) : Bool := c == '"' || c == '\x27'

/-- Cuts the text at the first place where the mark stands, and drops the mark. -/
def cutAt (mark : List Char) : List Char → Option (List Char × List Char)
  | [] => none
  | c :: cs =>
    if mark.isPrefixOf (c :: cs) then some ([], (c :: cs).drop mark.length)
    else (cutAt mark cs).map fun p => (c :: p.1, p.2)

/-- What stands before the cut, the mark and what stands after it make up the text. -/
theorem eq_append_of_cutAt {mark before after : List Char} :
    ∀ {cs : List Char}, cutAt mark cs = some (before, after) → cs = before ++ mark ++ after
  | [], h => by simp [cutAt] at h
  | c :: cs, h => by
    unfold cutAt at h
    split at h
    · next hp =>
      obtain ⟨rest, hrest⟩ := List.isPrefixOf_iff_prefix.mp hp
      simp only [Option.some.injEq, Prod.mk.injEq] at h
      obtain ⟨rfl, rfl⟩ := h
      rw [← hrest]
      simp
    · simp only [Option.map_eq_some_iff, Prod.mk.injEq, Prod.exists] at h
      obtain ⟨before', after', hcut, rfl, rfl⟩ := h
      simp [eq_append_of_cutAt hcut]

/-- What stands after the cut is not longer than the text. -/
theorem length_le_of_cutAt {mark before after cs : List Char} (h : cutAt mark cs = some (before, after)) :
    after.length ≤ cs.length := by
  rw [eq_append_of_cutAt h]
  simp only [List.length_append]
  omega

theorem length_dropWhile_le {α : Type} (p : α → Bool) (l : List α) : (l.dropWhile p).length ≤ l.length :=
  (List.dropWhile_sublist p).length_le

end Xml
end OfficeMath
