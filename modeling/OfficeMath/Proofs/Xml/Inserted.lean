import OfficeMath.Proofs.Xml.Sieve

/-! Putting an element into another one, at any position among the items of the element itself or of one below it. -/

namespace OfficeMath
namespace Xml

/-- The second element is the first with `p` put in among the items of the element itself, or of an element as many
    levels below it. -/
inductive Inserted (p : Element) : Nat → Element → Element → Prop
  | here {name : Name} {attributes : List Attribute} (before after : List Content) :
      Inserted p 0 (.mk name attributes (before ++ after)) (.mk name attributes (before ++ .element p :: after))
  | inside {level : Nat} {name : Name} {attributes : List Attribute} {c c' : Element} (before after : List Content)
      (h : Inserted p level c c') :
      Inserted p (level + 1) (.mk name attributes (before ++ .element c :: after))
        (.mk name attributes (before ++ .element c' :: after))

namespace Inserted

variable {p e e' : Element} {level : Nat}

theorem name_eq (h : Inserted p level e e') : e.name = e'.name := by
  cases h <;> rfl

theorem isTag_eq (h : Inserted p level e e') (tag : String) : e.isTag tag = e'.isTag tag := by
  cases h <;> rfl

/-- Sifting takes out again what the sieve does not let through, wherever it has been put in. -/
theorem sift_eq {s : Sieve} (hp : ∀ outer name, s.keepsContent outer name (.element p) = false)
    (hname : ∀ c c' : Element, c.name = c'.name → ∀ outer name,
      s.keepsContent outer name (.element c) = s.keepsContent outer name (.element c'))
    (h : Inserted p level e e') (outer : Option Name) : e.sift s outer = e'.sift s outer := by
  induction h generalizing outer with
  | @here name attributes before after =>
    have hout : Content.siftAll s outer name (.element p :: after) = Content.siftAll s outer name after := by
      rw [Content.siftAll, hp, if_neg Bool.false_ne_true]
    rw [Element.sift, Element.sift, Content.siftAll_append, Content.siftAll_append, hout]
  | inside before after h ih =>
    rw [Element.sift, Element.sift, Content.siftAll_append, Content.siftAll_append, Content.siftAll, Content.siftAll,
      hname _ _ h.name_eq, Content.sift, Content.sift, ih]

end Inserted

end Xml
end OfficeMath
