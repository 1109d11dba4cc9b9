import TagBase.Ident

namespace TagBase

inductive Selector where
  /-- Any value, or none at all. -/
  | any
  | exact (value : ValueId)
deriving DecidableEq

def Selector.value? : Selector → Option ValueId
  | .any => none
  | .exact value => some value

instance : Ord Selector := ⟨compareOn Selector.value?⟩

instance : Std.TransOrd Selector :=
  inferInstanceAs (Std.TransCmp (compareOn Selector.value?))

instance : Std.LawfulEqOrd Selector where
  eq_of_compare {a b} h := by
    have h : a.value? = b.value? := Std.LawfulEqOrd.compare_eq_iff_eq.mp h
    cases a <;> cases b <;> simp_all [Selector.value?]

structure Pair where
  tag : TagId
  selector : Selector
deriving DecidableEq

namespace Pair

def any (tag : TagId) : Pair := ⟨tag, .any⟩

def exact (tag : TagId) (value : ValueId) : Pair := ⟨tag, .exact value⟩

instance : Ord Pair := ⟨compareLex (compareOn tag) (compareOn selector)⟩

instance : Std.TransOrd Pair :=
  inferInstanceAs (Std.TransCmp (compareLex (compareOn tag) (compareOn selector)))

instance : Std.LawfulEqOrd Pair where
  eq_of_compare {a b} h := by
    obtain ⟨htag, hselector⟩ := compareLex_eq_eq.mp h
    have htag : a.tag = b.tag := Std.LawfulEqOrd.compare_eq_iff_eq.mp htag
    have hselector : a.selector = b.selector := Std.LawfulEqOrd.compare_eq_iff_eq.mp hselector
    cases a
    cases b
    simp_all

end Pair

/-- The statement that whatever carries `source` carries `implied` too. -/
structure Rule where
  source : Pair
  implied : Pair
deriving DecidableEq

namespace Rule

instance : Ord Rule := ⟨compareLex (compareOn source) (compareOn implied)⟩

instance : Std.TransOrd Rule :=
  inferInstanceAs (Std.TransCmp (compareLex (compareOn source) (compareOn implied)))

instance : Std.LawfulEqOrd Rule where
  eq_of_compare {a b} h := by
    obtain ⟨hsource, himplied⟩ := compareLex_eq_eq.mp h
    have hsource : a.source = b.source := Std.LawfulEqOrd.compare_eq_iff_eq.mp hsource
    have himplied : a.implied = b.implied := Std.LawfulEqOrd.compare_eq_iff_eq.mp himplied
    cases a
    cases b
    simp_all

end Rule

end TagBase
