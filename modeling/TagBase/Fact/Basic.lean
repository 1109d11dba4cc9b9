import TagBase.Rule.Basic

namespace TagBase

/-- One file carries one tag, with a value or without. -/
structure Fact where
  file : FileId
  tag : TagId
  value : Option ValueId
deriving DecidableEq

namespace Fact

instance : Ord Fact :=
  ⟨compareLex (compareOn file) (compareLex (compareOn tag) (compareOn value))⟩

instance : Std.TransOrd Fact :=
  inferInstanceAs
    (Std.TransCmp (compareLex (compareOn file) (compareLex (compareOn tag) (compareOn value))))

instance : Std.LawfulEqOrd Fact where
  eq_of_compare {a b} h := by
    obtain ⟨hfile, hrest⟩ := compareLex_eq_eq.mp h
    obtain ⟨htag, hvalue⟩ := compareLex_eq_eq.mp hrest
    have hfile : a.file = b.file := Std.LawfulEqOrd.compare_eq_iff_eq.mp hfile
    have htag : a.tag = b.tag := Std.LawfulEqOrd.compare_eq_iff_eq.mp htag
    have hvalue : a.value = b.value := Std.LawfulEqOrd.compare_eq_iff_eq.mp hvalue
    cases a
    cases b
    simp_all

/-- The pair from which rules are followed for a fact; a fact without a value stands for any value
of its tag. -/
def pair (fact : Fact) : Pair :=
  match fact.value with
  | none => .any fact.tag
  | some value => .exact fact.tag value

@[simp] theorem pair_tag (fact : Fact) : fact.pair.tag = fact.tag := by
  rw [pair]
  split <;> rfl

@[simp] theorem pair_value? (fact : Fact) : fact.pair.selector.value? = fact.value := by
  rw [pair]
  split <;> simp [Pair.any, Pair.exact, Selector.value?, *]

end Fact

end TagBase
