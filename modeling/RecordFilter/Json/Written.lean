/-
JSON texts taken apart. The grammar comes before the meaning: numerals and strings are kept the
way they are written, so a part of a text that nobody asks for has to be well formed but need not
have a value. `Json/Reader` says what the parts mean.

The grammar is the one that `serde_json` reads. That it comes before the meaning is taken from there
as well: what nobody asks for is passed over without a limit on nesting, and without asking whether
a number is too large or a surrogate is alone.

Every function takes the text that is left and answers with what it read and the text behind it.
Nesting and repetition are counted down by a number that is twice the length of the text, and each
step down has one more character behind it.
-/
import RecordFilter.Number.Integer
import RecordFilter.Text.Blank

namespace RecordFilter
namespace Json

open Number

/-- A piece of a string: a character as such, or a code unit given by an escape. -/
inductive Piece where
  | char (c : Char)
  | codeUnit (n : Nat)
deriving DecidableEq, Repr

/-- A number as it is written. A fraction or an exponent may be missing, which is not the same as
its being zero. -/
structure Numeral where
  negative : Bool
  whole : List Char
  fraction : Option (List Char)
  exponent : Option Int
deriving DecidableEq, Repr

/-- A JSON text taken apart. -/
inductive Written where
  | null
  | bool (b : Bool)
  | number (n : Numeral)
  | string (pieces : List Piece)
  | array (items : List Written)
  | object (members : List (List Piece × Written))
deriving Inhabited

namespace Written

def isSpace (c : Char) : Bool :=
  c == ' ' || c == '\t' || c == '\n' || c == '\r'

def skipSpace (text : List Char) : List Char :=
  text.dropWhile isSpace

def hexValue? (c : Char) : Option Nat :=
  if '0' ≤ c && c ≤ '9' then some (c.toNat - '0'.toNat)
  else if 'a' ≤ c && c ≤ 'f' then some (c.toNat - 'a'.toNat + 10)
  else if 'A' ≤ c && c ≤ 'F' then some (c.toNat - 'A'.toNat + 10)
  else none

def codeUnit? (a b c d : Char) : Option Nat :=
  match hexValue? a, hexValue? b, hexValue? c, hexValue? d with
  | some a, some b, some c, some d => some (((a * 16 + b) * 16 + c) * 16 + d)
  | _, _, _, _ => none

/-- The character that a backslash and a letter or sign stand for. -/
def escaped? (c : Char) : Option Char :=
  if c == '"' || c == '\\' || c == '/' then some c
  else if c == 'b' then some '\x08'
  else if c == 'f' then some '\x0c'
  else if c == 'n' then some '\n'
  else if c == 'r' then some '\r'
  else if c == 't' then some '\t'
  else none

/-- The rest of a string, up to and with the closing quote. -/
def stringRest : List Char → Option (List Piece × List Char)
  | [] => none
  | '"' :: rest => some ([], rest)
  | '\\' :: 'u' :: a :: b :: c :: d :: rest =>
      match codeUnit? a b c d, stringRest rest with
      | some n, some (pieces, rest) => some (.codeUnit n :: pieces, rest)
      | _, _ => none
  | '\\' :: c :: rest =>
      match escaped? c, stringRest rest with
      | some c, some (pieces, rest) => some (.char c :: pieces, rest)
      | _, _ => none
  | c :: rest =>
      if c.toNat < 0x20 then none
      else
        match stringRest rest with
        | some (pieces, rest) => some (.char c :: pieces, rest)
        | none => none

def digitRun (text : List Char) : List Char × List Char :=
  (text.takeWhile Text.isAsciiDigit, text.dropWhile Text.isAsciiDigit)

/-- The digits of a whole part: a zero alone, or digits that do not start with one. -/
def wholePart? (text : List Char) : Option (List Char × List Char) :=
  match digitRun text with
  | ([], _) => none
  | (['0'], rest) => some (['0'], rest)
  | ('0' :: _, _) => none
  | (digits, rest) => some (digits, rest)

def fractionPart? : List Char → Option (Option (List Char) × List Char)
  | '.' :: text =>
      match digitRun text with
      | ([], _) => none
      | (digits, rest) => some (some digits, rest)
  | text => some (none, text)

def exponentDigits? (negative : Bool) (text : List Char) : Option (Option Int × List Char) :=
  match digitRun text with
  | ([], _) => none
  | (digits, rest) =>
      some (some (if negative then -(valueOf digits : Int) else valueOf digits), rest)

def exponentPart? : List Char → Option (Option Int × List Char)
  | [] => some (none, [])
  | c :: text =>
      if c == 'e' || c == 'E' then
        match text with
        | '-' :: text => exponentDigits? true text
        | '+' :: text => exponentDigits? false text
        | text => exponentDigits? false text
      else some (none, c :: text)

def magnitude? (negative : Bool) (text : List Char) : Option (Written × List Char) := do
  let (whole, text) ← wholePart? text
  let (fraction, text) ← fractionPart? text
  let (exponent, text) ← exponentPart? text
  return (.number { negative, whole, fraction, exponent }, text)

def number? : List Char → Option (Written × List Char)
  | '-' :: text => magnitude? true text
  | text => magnitude? false text

mutual
def value? : Nat → List Char → Option (Written × List Char)
  | 0, _ => none
  | steps + 1, text =>
      match skipSpace text with
      | 'n' :: 'u' :: 'l' :: 'l' :: rest => some (.null, rest)
      | 't' :: 'r' :: 'u' :: 'e' :: rest => some (.bool true, rest)
      | 'f' :: 'a' :: 'l' :: 's' :: 'e' :: rest => some (.bool false, rest)
      | '"' :: rest =>
          match stringRest rest with
          | some (pieces, rest) => some (.string pieces, rest)
          | none => none
      | '[' :: rest =>
          match skipSpace rest with
          | ']' :: rest => some (.array [], rest)
          | rest =>
              match items? steps rest with
              | some (items, rest) => some (.array items, rest)
              | none => none
      | '\x7b' :: rest =>
          match skipSpace rest with
          | '\x7d' :: rest => some (.object [], rest)
          | rest =>
              match members? steps rest with
              | some (members, rest) => some (.object members, rest)
              | none => none
      | text => number? text

/-- The items of an array up to and with the closing bracket. -/
def items? : Nat → List Char → Option (List Written × List Char)
  | 0, _ => none
  | steps + 1, text =>
      match value? steps text with
      | none => none
      | some (item, rest) =>
          match skipSpace rest with
          | ']' :: rest => some ([item], rest)
          | ',' :: rest =>
              match items? steps rest with
              | some (items, rest) => some (item :: items, rest)
              | none => none
          | _ => none

/-- The members of an object up to and with the closing brace. -/
def members? : Nat → List Char → Option (List (List Piece × Written) × List Char)
  | 0, _ => none
  | steps + 1, text =>
      match skipSpace text with
      | '"' :: rest =>
          match stringRest rest with
          | none => none
          | some (name, rest) =>
              match skipSpace rest with
              | ':' :: rest =>
                  match value? steps rest with
                  | none => none
                  | some (value, rest) =>
                      match skipSpace rest with
                      | '\x7d' :: rest => some ([(name, value)], rest)
                      | ',' :: rest =>
                          match members? steps rest with
                          | some (members, rest) => some ((name, value) :: members, rest)
                          | none => none
                      | _ => none
              | _ => none
      | _ => none
end

/-- Takes a whole text apart: one value, and nothing but spaces around it. -/
def read? (text : List Char) : Option Written :=
  match value? (2 * text.length + 2) text with
  | some (written, rest) => if skipSpace rest = [] then some written else none
  | none => none

end Written
end Json
end RecordFilter
