/-
What JSON texts mean. A number without fraction and exponent is an integer as long as it fits a
64-bit word, signed or unsigned; every other number is rounded to double precision, and it is an
error if it is too large for that. Escaped surrogates have to come in pairs, and arrays and objects
nest at most 127 deep.

This is the reader of `serde_json` as it is without its features `float_roundtrip`,
`arbitrary_precision` and `unbounded_depth`. It is assumed to round numerals in the two steps below,
and to count nesting down from 128 and refuse what uses up the last level. Of an error there is only
that it occurs: its text, with a line and a column, is left out.
-/
import RecordFilter.Json.Basic
import RecordFilter.Json.Written
import RecordFilter.Number.Decimal

namespace RecordFilter
namespace Json

open Number

def depthLimit : Nat := 127

/-! ## Numbers

A numeral is rounded in two steps. Its leading digits make a significand, as many of them as fit a
64-bit word; the significand is rounded, and then scaled by a power of ten that is itself rounded.
So the result can be a neighbour of the nearest number. -/

/-- Appends digits to a significand for as long as it fits a 64-bit word, and says which digits
are left. -/
def absorb (significand : Nat) : List Char → Nat × List Char
  | [] => (significand, [])
  | c :: rest =>
      let next := 10 * significand + digitValue c
      if next < wordCount then absorb next rest else (significand, c :: rest)

/-- The power of ten nearest to `10 ^ n`. -/
def powerOfTen (n : Nat) : Binary64 :=
  ({ digits := 1, exponent := n } : Decimal).toBinary64 false

/-- Divides by `10 ^ n`, by at most `10 ^ 308` at a time; `rounds` bounds the number of divisions
by `10 ^ 308`, and zero is not divided further. -/
def divideByTen (x : Binary64) (n : Nat) : Nat → Binary64
  | 0 => x.divide (powerOfTen n)
  | rounds + 1 =>
      if n ≤ 308 then x.divide (powerOfTen n)
      else if x.isZero then x
      else divideByTen (x.divide (powerOfTen 308)) (n - 308) rounds

/-- A magnitude times a power of ten; none if it is too large. -/
def scale? (x : Binary64) (exponent : Int) : Option Binary64 :=
  if exponent < 0 then
    let places := (-exponent).toNat
    some (divideByTen x places (places / 308))
  else if x.isZero && 308 < exponent then some x
  else if 308 < exponent then none
  else
    let product := x.multiply (powerOfTen exponent.toNat)
    if product.isFinite then some product else none

/-- The double-precision number that a numeral stands for; none if it is too large. -/
def Numeral.toFloat? (n : Numeral) : Option Binary64 :=
  let (significand, skipped) := absorb 0 n.whole
  let fraction := n.fraction.getD []
  let (significand, dropped) := absorb significand fraction
  let places := (skipped.length : Int) - (fraction.length - dropped.length : Nat)
  match scale? (.ofInt significand) (places + n.exponent.getD 0) with
  | some x => some (if n.negative then x.negate else x)
  | none => none

/-- A numeral without fraction and exponent that fits a 64-bit word. A negative zero is not an
integer, because an integer would lose the sign. -/
def Numeral.toInt? (n : Numeral) : Option Int :=
  if n.fraction.isNone && n.exponent.isNone then
    let value := valueOf n.whole
    if n.negative then
      if 0 < value && leastWord ≤ -(value : Int) then some (-(value : Int)) else none
    else if value < wordCount then some value else none
  else none

def Numeral.toJson? (n : Numeral) : Option Json :=
  match n.toInt? with
  | some i => some (.int i)
  | none => n.toFloat?.map .float

/-! ## Strings -/

def isHighSurrogate (n : Nat) : Bool :=
  0xD800 ≤ n && n < 0xDC00

def isLowSurrogate (n : Nat) : Bool :=
  0xDC00 ≤ n && n < 0xE000

/-- The characters of a string; none if a surrogate is not one of a pair. -/
def characters? : List Piece → Option (List Char)
  | [] => some []
  | .char c :: rest => (characters? rest).map (c :: ·)
  | .codeUnit high :: .codeUnit low :: rest =>
      if isHighSurrogate high then
        if isLowSurrogate low then
          (characters? rest).map
            (Char.ofNat (0x10000 + (high - 0xD800) * 0x400 + (low - 0xDC00)) :: ·)
        else none
      else if isLowSurrogate high then none
      else (characters? (.codeUnit low :: rest)).map (Char.ofNat high :: ·)
  | .codeUnit n :: rest =>
      if isHighSurrogate n || isLowSurrogate n then none
      else (characters? rest).map (Char.ofNat n :: ·)

def string? (pieces : List Piece) : Option String :=
  (characters? pieces).map String.ofList

/-! ## Values -/

mutual
/-- The value of a text, with at most `depth` arrays and objects inside each other. -/
def Written.toJson? (depth : Nat) : Written → Option Json
  | .null => some .null
  | .bool b => some (.bool b)
  | .number n => n.toJson?
  | .string pieces => (string? pieces).map .string
  | .array items =>
      match depth with
      | 0 => none
      | depth + 1 => (Written.toItems? depth items).map .array
  | .object members =>
      match depth with
      | 0 => none
      | depth + 1 => (Written.toMembers? depth members).map fun members => .object (collect members)

def Written.toItems? (depth : Nat) : List Written → Option (List Json)
  | [] => some []
  | w :: rest =>
      match Written.toJson? depth w, Written.toItems? depth rest with
      | some v, some vs => some (v :: vs)
      | _, _ => none

/-- The names and values of the members of an object, in the order of the text. -/
def Written.toMembers? (depth : Nat) :
    List (List Piece × Written) → Option (List (String × Json))
  | [] => some []
  | (name, w) :: rest =>
      match string? name, Written.toJson? depth w, Written.toMembers? depth rest with
      | some name, some v, some vs => some ((name, v) :: vs)
      | _, _, _ => none
end

def read? (text : List Char) : Option Json :=
  (Written.read? text).bind (Written.toJson? depthLimit)

end Json
end RecordFilter
