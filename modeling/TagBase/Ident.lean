namespace TagBase

inductive Kind where
  | file
  | tag
  | value
deriving DecidableEq

/-- The number of a file, a tag or a value; numbers of different kinds do not mix. -/
structure Ident (kind : Kind) where
  num : UInt32
deriving DecidableEq

abbrev FileId := Ident .file

abbrev TagId := Ident .tag

abbrev ValueId := Ident .value

namespace Ident

variable {kind : Kind}

instance : Ord (Ident kind) := ⟨compareOn num⟩

instance : Std.TransOrd (Ident kind) :=
  inferInstanceAs (Std.TransCmp (compareOn num))

instance : Std.LawfulEqOrd (Ident kind) where
  eq_of_compare {a b} h := by
    have h : a.num = b.num := Std.LawfulEqOrd.compare_eq_iff_eq.mp h
    cases a
    cases b
    simpa using h

def render (id : Ident kind) : String := "#" ++ id.num.toNat.repr

end Ident

structure Named (kind : Kind) where
  id : Ident kind
  name : String
deriving DecidableEq

abbrev Tag := Named .tag

abbrev Value := Named .value

end TagBase
