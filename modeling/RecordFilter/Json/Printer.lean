/-
JSON as text: compact, without any blanks. Inside a string the quote, the backslash and the
control characters below U+0020 are escaped, and everything else is written as it is.

This is the compact writer of `serde_json`. That a number with a fraction is written with its
shortest digits, laid out as `Number/Layout` says, is taken from there too. Nothing is printed with
its pretty writer, which is left out.
-/
import RecordFilter.Json.Basic
import RecordFilter.Number.Layout

namespace RecordFilter
namespace Json

open Number

def hexDigit (n : Nat) : Char :=
  Nat.digitChar n

def escapeChar (c : Char) : List Char :=
  if c == '"' then ['\\', '"']
  else if c == '\\' then ['\\', '\\']
  else if c == '\x08' then ['\\', 'b']
  else if c == '\t' then ['\\', 't']
  else if c == '\n' then ['\\', 'n']
  else if c == '\x0c' then ['\\', 'f']
  else if c == '\r' then ['\\', 'r']
  else if c.toNat < 0x20 then
    ['\\', 'u', '0', '0', hexDigit (c.toNat / 16), hexDigit (c.toNat % 16)]
  else [c]

def stringText (s : String) : List Char :=
  '"' :: s.toList.flatMap escapeChar ++ ['"']

/-- A number with a fraction; one that is not finite has no JSON form and is written as null. -/
def floatText (x : Binary64) : List Char :=
  if x.isFinite then Layout.json.text x else ['n', 'u', 'l', 'l']

mutual
def print : Json → List Char
  | .null => ['n', 'u', 'l', 'l']
  | .bool true => ['t', 'r', 'u', 'e']
  | .bool false => ['f', 'a', 'l', 's', 'e']
  | .int n => integerText n
  | .float x => floatText x
  | .string s => stringText s
  | .array [] => ['[', ']']
  | .array (v :: rest) => '[' :: print v ++ printItems rest
  | .object [] => ['\x7b', '\x7d']
  | .object ((name, v) :: rest) =>
      '\x7b' :: stringText name ++ ':' :: print v ++ printMembers rest

def printItems : List Json → List Char
  | [] => [']']
  | v :: rest => ',' :: print v ++ printItems rest

def printMembers : List (String × Json) → List Char
  | [] => ['\x7d']
  | (name, v) :: rest => ',' :: stringText name ++ ':' :: print v ++ printMembers rest
end

def text (j : Json) : String :=
  String.ofList j.print

end Json
end RecordFilter
