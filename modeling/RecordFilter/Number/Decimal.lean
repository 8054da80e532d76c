/-
Decimal numerals and their nearest double-precision numbers. A numeral is an optional sign, digits
with at most one point among them, and an optional exponent; one digit at least stands before the
exponent. The words for infinity and for the undefined number are read as well, in any case.
-/
import RecordFilter.Number.Binary64
import RecordFilter.Number.Integer

namespace RecordFilter
namespace Number

/-- The number `digits · 10 ^ exponent`. -/
structure Decimal where
  digits : Nat
  exponent : Int
deriving DecidableEq, Repr

namespace Decimal

/-- The nearest double-precision number. Exponents far outside the range are answered at once:
a numeral whose last digit counts powers of 10^310 or more is infinite, and one below 10^-330 is
zero. -/
def toBinary64 (negative : Bool) (d : Decimal) : Binary64 :=
  if d.digits = 0 then .zero negative
  else if 310 ≤ d.exponent then .infinite negative
  else if d.exponent + (d.digits.log2 / 3 + 1 : Nat) ≤ -330 then .zero negative
  else if 0 ≤ d.exponent then .ofQuotient negative (d.digits * Nat.pow 10 d.exponent.toNat) 1
  else .ofQuotient negative d.digits (Nat.pow 10 (-d.exponent).toNat)

/-- A numeral as it is written: the digits before and behind the point, and the exponent. -/
structure Numeral where
  whole : List Char
  fraction : List Char
  exponent : Int

def Numeral.value (n : Numeral) : Decimal :=
  { digits := valueOf (n.whole ++ n.fraction), exponent := n.exponent - n.fraction.length }

/-- The exponent behind the digits of a numeral, zero if there is none. -/
def exponent? : List Char → Option Int
  | [] => some 0
  | c :: rest => if c == 'e' || c == 'E' then signed? rest else none

def numeral? (text : List Char) : Option Numeral :=
  let whole := text.takeWhile Text.isAsciiDigit
  let rest := text.dropWhile Text.isAsciiDigit
  let (fraction, rest) := match rest with
    | '.' :: rest => (rest.takeWhile Text.isAsciiDigit, rest.dropWhile Text.isAsciiDigit)
    | rest => ([], rest)
  if whole.isEmpty && fraction.isEmpty then none
  else (exponent? rest).map fun exponent => { whole, fraction, exponent }

end Decimal

namespace Binary64

/-- A number given by a word, or else by a numeral, both without a sign. -/
def readUnsigned? (negative : Bool) (text : List Char) : Option Binary64 :=
  if Text.sameLetters text ['i', 'n', 'f'] then some (.infinite negative)
  else if Text.sameLetters text ['i', 'n', 'f', 'i', 'n', 'i', 't', 'y'] then
    some (.infinite negative)
  else if Text.sameLetters text ['n', 'a', 'n'] then some .nan
  else (Decimal.numeral? text).map fun numeral => numeral.value.toBinary64 negative

/-- Reads a number with an optional sign, to the nearest double-precision number. -/
def read? : List Char → Option Binary64
  | '-' :: text => readUnsigned? true text
  | '+' :: text => readUnsigned? false text
  | text => readUnsigned? false text

end Binary64
end Number
end RecordFilter
