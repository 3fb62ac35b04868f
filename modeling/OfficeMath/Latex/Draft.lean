/-! LaTeX in the course of being written. A control word, which is a backslash and the letters after it, runs
    on over any letter that follows it, so a fragment that starts with a letter is set off by a space from a
    draft that ends in a control word. -/

namespace OfficeMath
namespace Latex

/-- LaTeX written so far. The last character comes first, so that the end of the draft is at hand. -/
structure Draft where
  reversed : List Char

/-- A text, last character first, that ends in a backslash and one letter or more. -/
def endsInControlWord : List Char → Bool
  | [] => false
  | c :: before => c.isAlpha && (before.dropWhile Char.isAlpha).head? == some '\\'

/-- The fragment starts with a letter, which a control word before it would take in. -/
def startsWithLetter (fragment : String) : Bool :=
  match fragment.toList with
  | [] => false
  | c :: _ => c.isAlpha

namespace Draft

/-- Nothing written yet. -/
def empty : Draft := ⟨[]⟩

/-- The draft that has the given text. -/
def ofString (s : String) : Draft := ⟨s.toList.reverse⟩

/-- What has been written. -/
def latex (d : Draft) : String := String.ofList d.reversed.reverse

/-- Adds a text to the end as it is. -/
def write (d : Draft) (s : String) : Draft := ⟨s.toList.reverseAux d.reversed⟩

/-- Adds a fragment to the end, set off by a space where a control word would run into it. -/
def push (d : Draft) (fragment : String) : Draft :=
  if startsWithLetter fragment && endsInControlWord d.reversed then (d.write " ").write fragment
  else d.write fragment

/-- Adds fragments to the end one after the other. -/
def pushAll (d : Draft) (fragments : List String) : Draft := fragments.foldl push d

@[simp] theorem latex_empty : empty.latex = "" := rfl

@[simp] theorem toList_latex (d : Draft) : d.latex.toList = d.reversed.reverse := by simp [latex]

@[simp] theorem latex_ofString (s : String) : (ofString s).latex = s := by simp [ofString, latex]

@[simp] theorem latex_write (d : Draft) (s : String) : (d.write s).latex = d.latex ++ s := by
  simp [← String.toList_inj, write]

@[simp] theorem reversed_ofString (s : String) : (ofString s).reversed = s.toList.reverse := rfl

end Draft

/-- The two texts one after the other, with a space between them where a control word would run on. -/
def pushFragment (buffer fragment : String) : String := ((Draft.ofString buffer).push fragment).latex

/-- The fragments one after the other, with a space wherever a control word would run on. -/
def joinFragments (fragments : List String) : String := (Draft.empty.pushAll fragments).latex

theorem pushFragment_eq (buffer fragment : String) :
    pushFragment buffer fragment =
      if startsWithLetter fragment && endsInControlWord buffer.toList.reverse then buffer ++ " " ++ fragment
      else buffer ++ fragment := by
  unfold pushFragment Draft.push
  rw [Draft.reversed_ofString]
  split <;> simp

/-- A draft shows what pushing does to the text it stands for. -/
@[simp] theorem Draft.latex_push (d : Draft) (fragment : String) :
    (d.push fragment).latex = pushFragment d.latex fragment := by
  rw [pushFragment_eq, toList_latex, List.reverse_reverse]
  unfold Draft.push
  split <;> simp

theorem Draft.latex_pushAll (d : Draft) (fragments : List String) :
    (d.pushAll fragments).latex = fragments.foldl pushFragment d.latex := by
  induction fragments generalizing d with
  | nil => rfl
  | cons f fs ih => simpa [Draft.pushAll] using ih (d.push f)

/-- Joining pushes the fragments onto the empty text. -/
theorem joinFragments_eq (fragments : List String) : joinFragments fragments = fragments.foldl pushFragment "" := by
  simp [joinFragments, Draft.latex_pushAll]

end Latex
end OfficeMath
