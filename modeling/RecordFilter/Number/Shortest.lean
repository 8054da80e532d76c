/-
The shortest decimal digits of a double-precision number. For one digit, two digits and so on, the
two neighbours of the number among the decimals of that length are tried; the first length at
which one of them reads back as the number is taken, and of two that do, the nearer one. When both
are equally near, the tie rule decides. Seventeen digits are always enough.
-/
import RecordFilter.Number.Decimal
import RecordFilter.Text.Blank

namespace RecordFilter
namespace Number

/-- Which of two equally near decimals of one length is taken. -/
inductive Tie where
  /-- The one of greater magnitude. -/
  | up
  /-- The one whose last digit is even. -/
  | even
deriving DecidableEq, Repr

/-- Significant digits, the first and the last not zero, and the power of ten of the first one. -/
structure Scientific where
  digits : List Char
  power : Int
deriving DecidableEq, Repr

def floorLog10 (num den : Nat) : Int :=
  if den ≤ num then ((digitsOf (num / den)).length : Int) - 1
  else
    let places := (digitsOf (den / num)).length
    if den = num * Nat.pow 10 (places - 1) then 1 - (places : Int) else -(places : Int)

/-- The fraction `num / den` divided by a power of ten, as a numerator and a denominator. -/
def scaleDown10 (num den : Nat) (power : Int) : Nat × Nat :=
  if 0 ≤ power then (num, den * Nat.pow 10 power.toNat)
  else (num * Nat.pow 10 (-power).toNat, den)

/-- A decimal that reads back as the positive number of the given rank. -/
def readsBack (rank : Nat) (d : Decimal) : Bool :=
  match d.toBinary64 false with
  | .finite _ found => found.val == rank
  | _ => false

/-- The decimal of `places` digits that stands for the number of the given rank, if one of its
two neighbours of that length reads back. -/
def atLength? (tie : Tie) (rank places : Nat) : Option Decimal :=
  let (num, den) := Binary64.magnitude rank
  let exponent := floorLog10 num den - places + 1
  let (scaled, unit) := scaleDown10 num den exponent
  let below : Decimal := { digits := scaled / unit, exponent }
  let above : Decimal := { digits := scaled / unit + 1, exponent }
  let twice := 2 * (scaled % unit)
  let preferAbove : Bool := match tie with
    | .up => unit ≤ twice
    | .even => unit < twice || (unit == twice && below.digits % 2 == 1)
  match readsBack rank below, readsBack rank above with
  | true, true => some (if preferAbove then above else below)
  | true, false => some below
  | false, true => some above
  | false, false => none

/-- The exact value of a rank as a decimal: a half is five tenths. -/
def exactDecimal (rank : Nat) : Decimal :=
  let spacing := Binary64.spacing rank
  let significand := Binary64.significand rank
  if 0 ≤ spacing then { digits := significand * Nat.pow 2 spacing.toNat, exponent := 0 }
  else { digits := significand * Nat.pow 5 (-spacing).toNat, exponent := spacing }

/-- The shortest decimal that reads back as the positive number of the given rank. -/
def shortestDecimal (tie : Tie) (rank : Nat) : Decimal :=
  ((List.range 17).findSome? fun n => atLength? tie rank (n + 1)).getD (exactDecimal rank)

/-- A decimal in its significant digits. Zeros at the end go, since they only shift the others. -/
def Decimal.scientific (d : Decimal) : Scientific :=
  let digits := digitsOf d.digits
  { digits := Text.trimEnd (· == '0') digits, power := d.exponent + digits.length - 1 }

/-- The shortest significant digits of the positive number of the given rank. -/
def shortest (tie : Tie) (rank : Nat) : Scientific :=
  (shortestDecimal tie rank).scientific

end Number
end RecordFilter
