/-
Values as JSON and back. Going out, a number that is not finite becomes null, since JSON has no
form for it. Coming back, an integer that fits a signed 64-bit word is an integer and every other
number is a double-precision one.
-/
import RecordFilter.Value.Basic
import RecordFilter.Json.Printer
import RecordFilter.Json.Reader

namespace RecordFilter
namespace Value

open Number

mutual
/-- A value as JSON. -/
def toJson : Value → Json
  | .null => .null
  | .bool b => .bool b
  | .int n => .int n.toInt
  | .float x => if x.isFinite then .float x else .null
  | .str s => .string s
  | .list items => .array (toJsonItems items)
  | .map fields => .object (toJsonMembers fields)

def toJsonItems : List Value → List Json
  | [] => []
  | v :: rest => toJson v :: toJsonItems rest

def toJsonMembers : List (String × Value) → List (String × Json)
  | [] => []
  | (name, v) :: rest => (name, toJson v) :: toJsonMembers rest
end

mutual
def ofJson : Json → Value
  | .null => .null
  | .bool b => .bool b
  | .int n =>
      match word? n with
      | some n => .int n
      | none => .float (.ofInt n)
  | .float x => .float x
  | .string s => .str s
  | .array items => .list (ofJsonItems items)
  | .object members => .ofFields (ofJsonMembers members)

def ofJsonItems : List Json → List Value
  | [] => []
  | j :: rest => ofJson j :: ofJsonItems rest

def ofJsonMembers : List (String × Json) → List (String × Value)
  | [] => []
  | (name, j) :: rest => (name, ofJson j) :: ofJsonMembers rest
end

def jsonText (v : Value) : String :=
  v.toJson.text

def readJson? (text : List Char) : Option Value :=
  (Json.read? text).map ofJson

end Value
end RecordFilter
