/-
Double-precision binary numbers, exactly. A finite number is a sign and a rank: the position of
its magnitude among all finite magnitudes, starting with zero at rank 0. Ranks grow with
magnitudes, so numbers are compared by comparing integers, and the number next above a given one
has the next rank. Rounding a quotient of natural numbers goes to the nearest magnitude, a tie to
the even rank.
-/

namespace RecordFilter
namespace Number

/-- The number of magnitudes in a binade, 2^52. -/
abbrev binadeSize : Nat := 4503599627370496

/-- The number of finite magnitudes: 2047 binades, the first two of equal spacing. -/
abbrev rankCount : Nat := 2047 * binadeSize

inductive Binary64 where
  | nan
  | infinite (negative : Bool)
  | finite (negative : Bool) (rank : Fin rankCount)
deriving DecidableEq, Repr

/-- Rounds a quotient to a whole number, a tie to the even one. -/
def roundHalfEven (num den : Nat) : Nat :=
  let floor := num / den
  let twice := 2 * (num % den)
  if twice < den then floor
  else if den < twice then floor + 1
  else if floor % 2 = 0 then floor else floor + 1

/-- The fraction `num / den` divided by a power of two, as a numerator and a denominator. -/
def scaleDown (num den : Nat) (power : Int) : Nat × Nat :=
  if 0 ≤ power then (num, den * Nat.pow 2 power.toNat)
  else (num * Nat.pow 2 (-power).toNat, den)

/-- The greatest power of two, as an exponent, that is at most `num / den`. -/
def floorLog2 (num den : Nat) : Int :=
  let guess : Int := (num.log2 : Int) - den.log2
  let scaled := scaleDown num den guess
  if scaled.2 ≤ scaled.1 then guess else guess - 1

/-- The rank nearest to `num / den`, not bounded above. Between two powers of two the magnitudes
are multiples of one power of two, 2^52 of them; a rounding that reaches the upper power lands on
the first rank of the next binade by itself. -/
def nearestRank (num den : Nat) : Nat :=
  if num = 0 then 0
  else
    let spacing : Int := max (floorLog2 num den - 52) (-1074)
    let scaled := scaleDown num den spacing
    (spacing + 1074).toNat * binadeSize + roundHalfEven scaled.1 scaled.2

namespace Binary64

/-- The finite number with a sign and a rank; past the last rank it is infinite. -/
def ofRank (negative : Bool) (rank : Nat) : Binary64 :=
  if h : rank < rankCount then .finite negative ⟨rank, h⟩ else .infinite negative

def ofQuotient (negative : Bool) (num den : Nat) : Binary64 :=
  ofRank negative (nearestRank num den)

def zero (negative : Bool) : Binary64 :=
  .finite negative ⟨0, by decide⟩

def ofInt (n : Int) : Binary64 :=
  ofQuotient (n < 0) n.natAbs 1

/-- The whole multiple of a power of two that a rank stands for. -/
def significand (rank : Nat) : Nat :=
  if rank < binadeSize then rank else binadeSize + rank % binadeSize

/-- The exponent of the power of two that a rank counts multiples of. -/
def spacing (rank : Nat) : Int :=
  if rank < binadeSize then -1074 else (rank / binadeSize : Nat) - 1075

def magnitude (rank : Nat) : Nat × Nat :=
  if 0 ≤ spacing rank then (significand rank * Nat.pow 2 (spacing rank).toNat, 1)
  else (significand rank, Nat.pow 2 (-spacing rank).toNat)

def isFinite : Binary64 → Bool
  | .finite .. => true
  | _ => false

def isZero : Binary64 → Bool
  | .finite _ rank => rank.val == 0
  | _ => false

def negate : Binary64 → Binary64
  | .nan => .nan
  | .infinite negative => .infinite !negative
  | .finite negative rank => .finite (!negative) rank

/-- Where a number stands on the line: its rank, negative below zero, with the infinities past
the last ranks. The two zeros stand at one place, and the undefined number at none. -/
def place? : Binary64 → Option Int
  | .nan => none
  | .infinite negative => some (if negative then -(rankCount : Int) else rankCount)
  | .finite negative rank => some (if negative then -(rank.val : Int) else rank.val)

/-- The order of two numbers; none when one of them is undefined. -/
def compare (left right : Binary64) : Option Ordering :=
  match left.place?, right.place? with
  | some a, some b => some (Ord.compare a b)
  | _, _ => none

/-- Equality of numbers by value: the zeros are equal, and the undefined number equals nothing. -/
def sameNumber (left right : Binary64) : Bool :=
  left.compare right == some .eq

/-- The product of two finite numbers, rounded; undefined when one is not finite. -/
def multiply : Binary64 → Binary64 → Binary64
  | .finite n₁ r₁, .finite n₂ r₂ =>
      let a := magnitude r₁
      let b := magnitude r₂
      ofQuotient (n₁ != n₂) (a.1 * b.1) (a.2 * b.2)
  | _, _ => .nan

/-- The quotient of two finite numbers, rounded; undefined when one is not finite or the divisor
is zero. -/
def divide : Binary64 → Binary64 → Binary64
  | .finite n₁ r₁, .finite n₂ r₂ =>
      if r₂.val = 0 then .nan
      else
        let a := magnitude r₁
        let b := magnitude r₂
        ofQuotient (n₁ != n₂) (a.1 * b.2) (a.2 * b.1)
  | _, _ => .nan

@[simp] theorem negate_negate (x : Binary64) : x.negate.negate = x := by
  cases x <;> simp [negate]

theorem compare_nan_left (x : Binary64) : compare .nan x = none := rfl

theorem compare_nan_right (x : Binary64) : compare x .nan = none := by
  cases x <;> rfl

end Binary64
end Number
end RecordFilter
