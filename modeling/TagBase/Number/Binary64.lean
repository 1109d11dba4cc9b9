/-!
Real numbers rounded to the 53-bit binary format. Every finite number of the format is a whole
multiple of 2⁻¹⁰⁷⁴, and an infinity stands where the next power of two would, at 2¹⁰²⁴; so a number
is an integer, zero has one form, and numbers are compared as integers are.
-/

namespace TagBase

/-- A number of the 53-bit binary format, as a count of units of 2⁻¹⁰⁷⁴. -/
structure Binary64 where
  units : Int
deriving DecidableEq

namespace Binary64

instance : Ord Binary64 := ⟨compareOn units⟩

instance : Std.TransOrd Binary64 :=
  inferInstanceAs (Std.TransCmp (compareOn units))

instance : Std.LawfulEqOrd Binary64 where
  eq_of_compare {a b} h := by
    have h : a.units = b.units := Std.LawfulEqOrd.compare_eq_iff_eq.mp h
    cases a
    cases b
    simpa using h

def unitsInOne : Nat := Nat.pow 2 1074

def unitsInInfinity : Nat := Nat.pow 2 1024 * unitsInOne

/-- The whole number nearest to `num / den`, of two equally near ones the even one. -/
def roundToEven (num den : Nat) : Nat :=
  let quotient := num / den
  let rest := num % den
  if 2 * rest < den then quotient
  else if den < 2 * rest then quotient + 1
  else quotient + quotient % 2

/-- The units of the number nearest to `num / den`: 53 significant bits are kept, at least a unit
counts, and what rounds to 2¹⁰²⁴ or more is infinite. -/
def nearestUnits (num den : Nat) : Nat :=
  let scaled := num * unitsInOne
  let step := Nat.pow 2 ((scaled / den).log2 - 52)
  min (roundToEven scaled (den * step) * step) unitsInInfinity

def ofUnits (negative : Bool) (units : Nat) : Binary64 :=
  ⟨if negative then -units else units⟩

/-- The units of the number nearest to `mantissa · 10 ^ exponent`, for a mantissa of `digits` digits
without leading zeros. Exponents that are far out are decided by the number of digits alone. -/
def nearestDecimal (mantissa digits : Nat) (exponent : Int) : Nat :=
  if mantissa = 0 then 0
  else if 309 < digits + exponent then unitsInInfinity
  else if digits + exponent < -323 then 0
  else nearestUnits (mantissa * Nat.pow 10 exponent.toNat) (Nat.pow 10 (-exponent).toNat)

end Binary64

end TagBase
