/-
How a double-precision number is written. The digits are the shortest ones; a layout says where
positional notation ends, whether a whole number keeps a point, and how an exponent and the
non-finite numbers look. Three layouts are in use, each given as one value.
-/
import RecordFilter.Number.Shortest

namespace RecordFilter
namespace Number

structure Layout where
  /-- The powers of ten of a first digit that are written without an exponent. -/
  positional : Int → Bool
  /-- What stands behind a whole number. -/
  wholeMark : List Char
  /-- The sign of an exponent that is not negative. -/
  plus : List Char
  /-- Which of two equally near decimals is taken. -/
  tie : Tie

namespace Layout

/-- Always positional, and a whole number is written as one. -/
def plain : Layout :=
  { positional := fun _ => true, wholeMark := [], plus := [], tie := .up }

/-- JSON text: positional from 10^-5 to 10^16, whole numbers with a point, exponents signed. -/
def json : Layout :=
  { positional := fun power => -5 ≤ power && power < 16, wholeMark := ['.', '0'], plus := ['+'],
    tie := .even }

/-- Inspected values: positional from 10^-4 to 10^16, whole numbers with a point, exponents
signed only when negative. -/
def inspected : Layout :=
  { positional := fun power => -4 ≤ power && power < 16, wholeMark := ['.', '0'], plus := [],
    tie := .up }

/-- Digits with a point among them or zeros around them, as the power of the first one asks. -/
def positionalText (l : Layout) (s : Scientific) : List Char :=
  if s.power < 0 then
    ['0', '.'] ++ List.replicate ((-s.power).toNat - 1) '0' ++ s.digits
  else
    let whole := s.power.toNat + 1
    if s.digits.length ≤ whole then
      s.digits ++ List.replicate (whole - s.digits.length) '0' ++ l.wholeMark
    else s.digits.take whole ++ '.' :: s.digits.drop whole

def exponentText (l : Layout) (s : Scientific) : List Char :=
  let mantissa := match s.digits with
    | [] => []
    | [d] => [d]
    | d :: rest => d :: '.' :: rest
  mantissa ++ 'e' :: (if s.power < 0 then integerText s.power else l.plus ++ integerText s.power)

def magnitudeText (l : Layout) (rank : Nat) : List Char :=
  if rank = 0 then '0' :: l.wholeMark
  else
    let s := shortest l.tie rank
    if l.positional s.power then l.positionalText s else l.exponentText s

def text (l : Layout) : Binary64 → List Char
  | .nan => ['N', 'a', 'N']
  | .infinite negative => if negative then ['-', 'i', 'n', 'f'] else ['i', 'n', 'f']
  | .finite negative rank =>
      if negative then '-' :: l.magnitudeText rank else l.magnitudeText rank

end Layout

/-- A number written plainly, the way it takes part in patterns and expressions. -/
def Binary64.plainText (x : Binary64) : List Char :=
  Layout.plain.text x

end Number
end RecordFilter
