/-
Whole numbers as text. Writing gives the plain decimal digits, with a minus sign for a negative
number. Reading is more generous: a plus sign and leading zeros are allowed, and the number has to
fit the word it is read into.
-/
import RecordFilter.Text.Word

namespace RecordFilter
namespace Number

/-- The decimal digits of a natural number, without leading zeros. -/
def digitsOf (n : Nat) : List Char :=
  Nat.toDigits 10 n

def integerText (n : Int) : List Char :=
  if n < 0 then '-' :: digitsOf n.natAbs else digitsOf n.natAbs

def digitValue (c : Char) : Nat :=
  c.toNat - '0'.toNat

def valueOf (digits : List Char) : Nat :=
  digits.foldl (fun n c => 10 * n + digitValue c) 0

/-- The number written by decimal digits alone, of which there has to be one. -/
def unsigned? (text : List Char) : Option Nat :=
  if !text.isEmpty && text.all Text.isAsciiDigit then some (valueOf text) else none

/-- The number written by decimal digits behind an optional sign. -/
def signed? : List Char → Option Int
  | '-' :: digits => (unsigned? digits).map fun n => -(n : Int)
  | '+' :: digits => (unsigned? digits).map Int.ofNat
  | digits => (unsigned? digits).map Int.ofNat

/-- How many values a 64-bit word has, 2^64. -/
def wordCount : Nat := 18446744073709551616

/-- The least 64-bit integer, -2^63. -/
def leastWord : Int := -9223372036854775808

/-- The greatest 64-bit integer, 2^63 - 1. -/
def greatestWord : Int := 9223372036854775807

def word? (n : Int) : Option Int64 :=
  if leastWord ≤ n && n ≤ greatestWord then some (Int64.ofInt n) else none

def readWord? (text : List Char) : Option Int64 :=
  (signed? text).bind word?

/-- Reads a count, which is a natural number that fits a word. A plus sign is allowed and a minus
sign is not, even before a zero. -/
def readCount? (text : List Char) : Option Nat :=
  let digits := match text with
    | '+' :: digits => digits
    | digits => digits
  (unsigned? digits).filter (· < wordCount)

theorem word?_toInt (n : Int64) : word? n.toInt = some n := by
  have hle : leastWord ≤ n.toInt := Int64.le_toInt n
  have hlt : n.toInt ≤ greatestWord := Int64.toInt_le n
  simp [word?, hle, hlt]

end Number
end RecordFilter
