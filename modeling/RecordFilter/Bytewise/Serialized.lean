/-
Reading a serialized text by position.  The reader keeps the current position and how many arrays
it is inside of; it moves the position on, and counts the arrays up and down.

An array is entered only up to a limit, and `levels` bounds how often that can happen: it is one
more than what is left of the limit, so it never runs out.
-/
import RecordFilter.Bytewise.Access
import RecordFilter.Codec.Serialized
import RecordFilter.Error

namespace RecordFilter
namespace Bytewise
namespace Serialized

open Number
open RecordFilter.Serialized (byte characters depthLimit greatestPosition keyName ofEntries readBool
  readFloat readInt)

/-- Where the reader is. -/
structure Place where
  current : Nat
  depth : Nat
deriving DecidableEq, Repr

def expect (source : List UInt8) (b : UInt8) (current : Nat) :
    Except (Stop SerializedFault) Nat :=
  match source[current]? with
  | none => .error (.fault (.expected b current))
  | some a => if a = b then .ok (current + 1) else .error (.fault (.expected b current))

/-- The text from a position to the next byte of a kind, looked for from here on, and the position
behind that byte. -/
def partFrom (source : List UInt8) (b : UInt8) (start current : Nat) :
    Except (Stop SerializedFault) (List Char × Nat) :=
  match _h : source[current]? with
  | none => .error (.fault (.unterminated start))
  | some a =>
      if a = b then do
        let behind := current + 1
        let stop ← minus behind 1
        let bytes ← between source start stop
        let text ← lift (characters bytes)
        return (text, behind)
      else partFrom source b start (current + 1)
termination_by source.length - current
decreasing_by
  have hlt := (List.getElem?_eq_some_iff.mp _h).1
  omega

def readPart (source : List UInt8) (b : UInt8) (current : Nat) :
    Except (Stop SerializedFault) (List Char × Nat) :=
  partFrom source b current current

/-- The bytes between two positions, if the text is that long. -/
def bytesBetween? (source : List UInt8) (start stop : Nat) : Option (List UInt8) :=
  if start ≤ stop ∧ stop ≤ source.length then some ((source.take stop).drop start) else none

def readString (source : List UInt8) (current : Nat) :
    Except (Stop SerializedFault) (String × Nat) := do
  let (lengthText, current) ← readPart source (byte ':') current
  match readCount? lengthText with
  | none => throw (.fault (.invalidStringLength (String.ofList lengthText)))
  | some length =>
      let current ← expect source (byte '"') current
      if greatestPosition < current + length then
        throw (.fault (.invalidStringLength (String.ofList lengthText)))
      match bytesBetween? source current (current + length) with
      | none => throw (.fault .stringPastEnd)
      | some bytes =>
          let text ← lift (characters bytes)
          let behind ← expect source (byte '"') (current + length)
          let behind ← expect source (byte ';') behind
          return (String.ofList text, behind)

def readScalar (source : List UInt8) (tag : UInt8) (current : Nat) :
    Except (Stop SerializedFault) (Value × Nat) :=
  if tag = byte 'b' then do
    let (text, current) ← readPart source (byte ';') current
    let v ← lift (readBool text)
    return (v, current)
  else if tag = byte 'i' then do
    let (text, current) ← readPart source (byte ';') current
    let v ← lift (readInt text)
    return (v, current)
  else if tag = byte 'd' then do
    let (text, current) ← readPart source (byte ';') current
    let v ← lift (readFloat text)
    return (v, current)
  else if tag = byte 's' then do
    let (s, current) ← readString source current
    return (.str s, current)
  else .error (.fault (.unknownTag tag))

/-- Reads a number of entries, keys and values with the same reader. -/
def readEntries (readValue : Place → Except (Stop SerializedFault) (Value × Place)) :
    Nat → Place → Except (Stop SerializedFault) (List (String × Value) × Place)
  | 0, here => .ok ([], here)
  | count + 1, here => do
      let (key, here) ← readValue here
      let name ← lift (keyName key)
      let (v, here) ← readValue here
      let (entries, here) ← readEntries readValue count here
      return ((name, v) :: entries, here)

/-- Reads the number of entries of an array, up to the brace that opens them. -/
def readArrayStart (source : List UInt8) (current : Nat) :
    Except (Stop SerializedFault) (Nat × Nat) := do
  let (countText, current) ← readPart source (byte ':') current
  match readCount? countText with
  | none => throw (.fault (.invalidArrayLength (String.ofList countText)))
  | some count =>
      let current ← expect source (byte '\x7b') current
      return (count, current)

/-- Room for the entries of an array: as many as it declares, but not more than bytes are left. -/
def room (source : List UInt8) (count current : Nat) : Except (Stop SerializedFault) Nat := do
  let left ← minus source.length current
  return min count left

def readValue (source : List UInt8) :
    Nat → Place → Except (Stop SerializedFault) (Value × Place)
  | 0, _ => .error .outside
  | levels + 1, here =>
      match source[here.current]? with
      | none => .error (.fault .unexpectedEnd)
      | some tag =>
          if tag = byte 'N' then do
            let current ← expect source (byte ';') (here.current + 1)
            return (.null, { here with current })
          else do
            let current ← expect source (byte ':') (here.current + 1)
            if tag = byte 'a' then
              let (count, current) ← readArrayStart source current
              if here.depth = depthLimit then throw (.fault (.tooDeep depthLimit))
              let _ ← room source count current
              let (entries, inside) ← readEntries (readValue source levels) count
                { current, depth := here.depth + 1 }
              let current ← expect source (byte '\x7d') inside.current
              let depth ← minus inside.depth 1
              return (ofEntries entries, { current, depth })
            else
              let (v, current) ← readScalar source tag current
              return (v, { here with current })

/-- The value of a stored text. -/
def read (text : List Char) : Except (Stop SerializedFault) Value := do
  let source := Text.encode text
  let (v, behind) ← readValue source (depthLimit + 1) { current := 0, depth := 0 }
  if behind.current ≠ source.length then throw (.fault (.trailingData behind.current))
  return v

end Serialized

/-- The value that a stored text keeps in a field. -/
def decode (field text : String) : Except (Stop Error) Value :=
  match Serialized.read text.toList with
  | .ok v => .ok v
  | .error (.fault fault) => .error (.fault (.codec field (.serialized fault)))
  | .error .outside => .error .outside

end Bytewise
end RecordFilter
