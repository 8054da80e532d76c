/-
The serialized text format, in which every value says its type and strings say their length:
`a:2:{i:0;s:3:"foo";i:1;i:5;}` is the list of a string and an integer. Lists and maps share the
form of an array of keys and values; on reading, an array whose keys count up from zero is a list
and every other one is a map.

Lengths and positions count bytes, so the text is read as bytes. The number of entries that an
array declares is not trusted: each entry has to be there.
-/
import RecordFilter.Codec.Fault
import RecordFilter.Number.Decimal
import RecordFilter.Number.Layout
import RecordFilter.Text.Bytes
import RecordFilter.Value.Basic

namespace RecordFilter
namespace Serialized

open Number

/-! ## Writing -/

/-- A number with a fraction, with words of its own for the non-finite ones. -/
def floatText : Binary64 → List Char
  | .nan => ['N', 'A', 'N']
  | .infinite false => ['I', 'N', 'F']
  | .infinite true => ['-', 'I', 'N', 'F']
  | x => x.plainText

def stringText (s : String) : List Char :=
  let content := s.toList
  ['s', ':'] ++ digitsOf (Text.byteLength content) ++ [':', '"'] ++ content ++ ['"', ';']

def intText (n : Int) : List Char :=
  ['i', ':'] ++ integerText n ++ [';']

def arrayStart (count : Nat) : List Char :=
  ['a', ':'] ++ digitsOf count ++ [':', '\x7b']

mutual
/-- A value in the serialized format. -/
def write : Value → List Char
  | .null => ['N', ';']
  | .bool b => ['b', ':', if b then '1' else '0', ';']
  | .int n => intText n.toInt
  | .float x => ['d', ':'] ++ floatText x ++ [';']
  | .str s => stringText s
  | .list items => arrayStart items.length ++ writeItems 0 items ++ ['\x7d']
  | .map fields => arrayStart fields.length ++ writeFields fields ++ ['\x7d']

/-- The items of a list behind their indices, the first of which is given. -/
def writeItems (index : Nat) : List Value → List Char
  | [] => []
  | v :: rest => intText index ++ write v ++ writeItems (index + 1) rest

def writeFields : List (String × Value) → List Char
  | [] => []
  | (name, v) :: rest => stringText name ++ write v ++ writeFields rest
end

/-! ## Reading -/

structure Cursor where
  rest : List UInt8
  position : Nat
deriving DecidableEq, Repr

def byte (c : Char) : UInt8 :=
  UInt8.ofNat c.toNat

def expect (b : UInt8) (here : Cursor) : Except SerializedFault Cursor :=
  match here.rest with
  | [] => .error (.expected b here.position)
  | a :: rest =>
      if a = b then .ok { rest, position := here.position + 1 }
      else .error (.expected b here.position)

def characters (bytes : List UInt8) : Except SerializedFault (List Char) :=
  match Text.Utf8.decode bytes with
  | .ok text => .ok text
  | .error fault => .error (.notText fault)

def upTo (b : UInt8) (here : Cursor) : Except SerializedFault (List Char × Cursor) :=
  let part := here.rest.takeWhile (· != b)
  match here.rest.dropWhile (· != b) with
  | [] => .error (.unterminated here.position)
  | _ :: rest =>
      (characters part).map fun text =>
        (text, { rest, position := here.position + part.length + 1 })

def greatestPosition : Nat := wordCount - 1

def readString (here : Cursor) : Except SerializedFault (String × Cursor) := do
  let (lengthText, here) ← upTo (byte ':') here
  match readCount? lengthText with
  | none => throw (.invalidStringLength (String.ofList lengthText))
  | some length =>
      let here ← expect (byte '"') here
      if greatestPosition < here.position + length then
        throw (.invalidStringLength (String.ofList lengthText))
      else if here.rest.length < length then throw .stringPastEnd
      else
        let text ← characters (here.rest.take length)
        let here ← expect (byte '"')
          { rest := here.rest.drop length, position := here.position + length }
        let here ← expect (byte ';') here
        return (String.ofList text, here)

def keyName : Value → Except SerializedFault String
  | .int n => .ok (String.ofList (integerText n.toInt))
  | .str s => .ok s
  | v => .error (.invalidKey v.typeName)

/-- Reads a number of entries, keys and values with the same reader. -/
def readEntries (readValue : Cursor → Except SerializedFault (Value × Cursor)) :
    Nat → Cursor → Except SerializedFault (List (String × Value) × Cursor)
  | 0, here => .ok ([], here)
  | count + 1, here => do
      let (key, here) ← readValue here
      let name ← keyName key
      let (v, here) ← readValue here
      let (entries, here) ← readEntries readValue count here
      return ((name, v) :: entries, here)

/-- The names of the entries count up, starting with the given number. -/
def countUp (index : Nat) : List (String × Value) → Bool
  | [] => true
  | (name, _) :: rest => readCount? name.toList == some index && countUp (index + 1) rest

def ofEntries (entries : List (String × Value)) : Value :=
  if countUp 0 entries then .list (entries.map Prod.snd) else .ofFields entries

def readBool (text : List Char) : Except SerializedFault Value :=
  if text = ['0'] then .ok (.bool false)
  else if text = ['1'] then .ok (.bool true)
  else .error (.invalidBoolean (String.ofList text))

def readInt (text : List Char) : Except SerializedFault Value :=
  match readWord? text with
  | some n => .ok (.int n)
  | none => .error (.invalidInteger (String.ofList text))

def readFloat (text : List Char) : Except SerializedFault Value :=
  if text = ['N', 'A', 'N'] then .ok (.float .nan)
  else if text = ['I', 'N', 'F'] then .ok (.float (.infinite false))
  else if text = ['-', 'I', 'N', 'F'] then .ok (.float (.infinite true))
  else
    match Binary64.read? text with
    | some x => .ok (.float x)
    | none => .error (.invalidFloat (String.ofList text))

/-- How deep arrays may nest. -/
def depthLimit : Nat := 128

def readScalar (tag : UInt8) (here : Cursor) : Except SerializedFault (Value × Cursor) :=
  if tag = byte 'b' then do
    let (text, here) ← upTo (byte ';') here
    return (← readBool text, here)
  else if tag = byte 'i' then do
    let (text, here) ← upTo (byte ';') here
    return (← readInt text, here)
  else if tag = byte 'd' then do
    let (text, here) ← upTo (byte ';') here
    return (← readFloat text, here)
  else if tag = byte 's' then do
    let (s, here) ← readString here
    return (.str s, here)
  else .error (.unknownTag tag)

/-- Reads the number of entries of an array, up to the brace that opens them. -/
def readArrayStart (here : Cursor) : Except SerializedFault (Nat × Cursor) := do
  let (countText, here) ← upTo (byte ':') here
  match readCount? countText with
  | none => throw (.invalidArrayLength (String.ofList countText))
  | some count =>
      let here ← expect (byte '\x7b') here
      return (count, here)

def readValue (depth : Nat) (here : Cursor) : Except SerializedFault (Value × Cursor) :=
  match here.rest with
  | [] => .error .unexpectedEnd
  | tag :: rest =>
      let here : Cursor := { rest, position := here.position + 1 }
      if tag = byte 'N' then do
        let here ← expect (byte ';') here
        return (.null, here)
      else do
        let here ← expect (byte ':') here
        if tag = byte 'a' then
          let (count, here) ← readArrayStart here
          match depth with
          | 0 => throw (.tooDeep depthLimit)
          | depth + 1 =>
              let (entries, here) ← readEntries (readValue depth) count here
              let here ← expect (byte '\x7d') here
              return (ofEntries entries, here)
        else readScalar tag here

def read (text : List Char) : Except SerializedFault Value := do
  let (v, here) ← readValue depthLimit { rest := Text.encode text, position := 0 }
  if here.rest.isEmpty then return v else throw (.trailingData here.position)

end Serialized
end RecordFilter
