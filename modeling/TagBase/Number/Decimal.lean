import TagBase.Number.Binary64
import TagBase.Text.Blank

/-!
Numbers in decimal notation: an optional sign, then the name of an infinity in any case, or digits
with an optional point among them and an optional exponent. A text reads as the nearest number of
the 53-bit binary format; blanks at its ends do not count, and `nan` is no number.
-/

namespace TagBase.Decimal

def digitValue (c : Char) : Nat := c.toNat - '0'.toNat

def digitsValue (digits : List Char) : Nat :=
  digits.foldl (fun value c => 10 * value + digitValue c) 0

def splitSign : List Char → Bool × List Char
  | '-' :: rest => (true, rest)
  | '+' :: rest => (false, rest)
  | text => (false, text)

def splitFraction : List Char → List Char × List Char
  | '.' :: rest => (rest.takeWhile Char.isDigit, rest.dropWhile Char.isDigit)
  | text => ([], text)

/-- The exponent that is all of a text: none written is zero. -/
def exponent? : List Char → Option Int
  | [] => some 0
  | c :: rest =>
      if c = 'e' ∨ c = 'E' then
        let (negative, digits) := splitSign rest
        if digits ≠ [] ∧ digits.all Char.isDigit then
          some (if negative then -digitsValue digits else digitsValue digits)
        else none
      else none

def magnitude? (text : List Char) : Option Nat :=
  if Text.isWord "inf" text || Text.isWord "infinity" text then some Binary64.unitsInInfinity
  else
    let whole := text.takeWhile Char.isDigit
    let (fraction, rest) := splitFraction (text.dropWhile Char.isDigit)
    let digits := whole ++ fraction
    if digits = [] then none
    else
      (exponent? rest).map fun exponent =>
        Binary64.nearestDecimal (digitsValue digits) (digits.dropWhile (· = '0')).length
          (exponent - fraction.length)

def read? (text : String) : Option Binary64 :=
  let (negative, unsigned) := splitSign (Text.trim text.toList)
  (magnitude? unsigned).map (Binary64.ofUnits negative)

end TagBase.Decimal
