/-
Values as numbers. A string that looks like a number counts as one: it is read as a 64-bit integer
if it is one, and otherwise as a finite double-precision number. Words such as `inf` and `nan`
are not numbers here, and neither is anything with a character outside numerals.
-/
import RecordFilter.Value.Basic
import RecordFilter.Number.Decimal
import RecordFilter.Text.Blank

namespace RecordFilter
namespace Value

open Number

def startsNumber (c : Char) : Bool :=
  Text.isAsciiDigit c || c == '-' || c == '+' || c == '.'

def isNumeric (c : Char) : Bool :=
  startsNumber c || c == 'e' || c == 'E'

def ofFinite? (x : Binary64) : Option Value :=
  if x.isFinite then some (.float x) else none

def readNumber? (text : List Char) : Option Value :=
  let text := Text.trim Text.isBlank text
  match text with
  | [] => none
  | c :: _ =>
      if startsNumber c && text.all isNumeric then
        match readWord? text with
        | some n => some (.int n)
        | none => (Binary64.read? text).bind ofFinite?
      else none

def asFloat? : Value → Option Binary64
  | .int n => some (.ofInt n.toInt)
  | .float x => some x
  | .str s =>
      match readNumber? s.toList with
      | some (.int n) => some (.ofInt n.toInt)
      | some (.float x) => some x
      | _ => none
  | _ => none

/-- Turns a string that looks like a number into the number, and the word `null` into null; every
other value stays as it is. -/
def coerceNumeric : Value → Value
  | .str s =>
      if Text.sameLetters (Text.trim Text.isBlank s.toList) ['n', 'u', 'l', 'l'] then .null
      else (readNumber? s.toList).getD (.str s)
  | v => v

end Value
end RecordFilter
