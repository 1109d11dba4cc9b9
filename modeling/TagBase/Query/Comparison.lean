import TagBase.Number.Decimal
import TagBase.Query.Operator

/-!
Comparison of a stored value name with the literal of a query. Two numbers are compared as numbers;
all else is compared as text, code point by code point.
-/

namespace TagBase

def compareNames (stored literal : String) : Ordering :=
  match Decimal.read? stored, Decimal.read? literal with
  | some number, some bound => compare number bound
  | _, _ => compare stored literal

def Operator.matchesNames (op : Operator) (stored literal : String) : Bool :=
  op.holds (compareNames stored literal)

end TagBase
