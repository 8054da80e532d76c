/-
The positional reader of stored texts with a log.  It is the reader of `Bytewise.Serialized` once
more, with a note wherever that one moves its position, looks for a byte, begins or ends a value,
and goes into an array, through its entries and out of it.  The log is kept when the reader stops:
it is what has been done up to there.

That the two readers agree is shown in `Proofs/Bytewise/Logged`, and that no place is passed without
a note in `Proofs/Bytewise/Passed`.
-/
import RecordFilter.Bytewise.Serialized

namespace RecordFilter
namespace Bytewise
namespace Serialized

open Number
open RecordFilter.Serialized (byte characters depthLimit greatestPosition keyName ofEntries readBool
  readFloat readInt)

/-- What the reader does. -/
inductive Activity where
  /-- It moves its position to `current`. -/
  | move (current : Nat)
  /-- It looks for the next byte of a kind, from `current` on. -/
  | search (b : UInt8) (current : Nat)
  /-- It begins to read a value. -/
  | enter (here : Place)
  /-- It has read a value that begins here. -/
  | leave (here behind : Place)
  /-- It makes room for the entries of an array that declares `count` of them.  The first is here,
  inside of the array. -/
  | openArray (count : Nat) (here : Place)
  /-- It has read `done` entries of the array whose first entry is at `start`. -/
  | round (start done : Nat)
  /-- It accepts the array that has `count` entries, the first of them at `start`. -/
  | closeArray (start count : Nat)
deriving DecidableEq, Repr

/-- A computation with what it has done. -/
structure Logged (α : Type) where
  result : Except (Stop SerializedFault) α
  log : List Activity

namespace Logged

/-- A computation that does nothing of interest. -/
def quiet {α : Type} (x : Except (Stop SerializedFault) α) : Logged α where
  result := x
  log := []

def note (activity : Activity) : Logged Unit where
  result := .ok ()
  log := [activity]

instance : Monad Logged where
  pure a := quiet (.ok a)
  bind x next :=
    match x.result with
    | .error stop => { result := .error stop, log := x.log }
    | .ok a => { result := (next a).result, log := x.log ++ (next a).log }

def expect (source : List UInt8) (b : UInt8) (current : Nat) : Logged Nat := do
  let behind ← quiet (Serialized.expect source b current)
  note (.move behind)
  return behind

def partFrom (source : List UInt8) (b : UInt8) (start current : Nat) :
    Logged (List Char × Nat) :=
  match _h : source[current]? with
  | none => quiet (.error (.fault (.unterminated start)))
  | some a => do
      let behind := current + 1
      note (.move behind)
      if a = b then
        let stop ← quiet (minus behind 1)
        let bytes ← quiet (between source start stop)
        let text ← quiet (lift (characters bytes))
        return (text, behind)
      else partFrom source b start behind
termination_by source.length - current
decreasing_by
  have hlt := (List.getElem?_eq_some_iff.mp _h).1
  omega

def readPart (source : List UInt8) (b : UInt8) (current : Nat) : Logged (List Char × Nat) := do
  note (.search b current)
  partFrom source b current current

def readString (source : List UInt8) (current : Nat) : Logged (String × Nat) := do
  let (lengthText, current) ← readPart source (byte ':') current
  match readCount? lengthText with
  | none => quiet (.error (.fault (.invalidStringLength (String.ofList lengthText))))
  | some length =>
      let current ← expect source (byte '"') current
      if greatestPosition < current + length then
        quiet (.error (.fault (.invalidStringLength (String.ofList lengthText))))
      else
        match bytesBetween? source current (current + length) with
        | none => quiet (.error (.fault .stringPastEnd))
        | some bytes =>
            let text ← quiet (lift (characters bytes))
            note (.move (current + length))
            let behind ← expect source (byte '"') (current + length)
            let behind ← expect source (byte ';') behind
            return (String.ofList text, behind)

/-- A value that is one part of the text. -/
def readSimple (source : List UInt8) (readText : List Char → Except SerializedFault Value)
    (current : Nat) : Logged (Value × Nat) := do
  let (text, current) ← readPart source (byte ';') current
  let v ← quiet (lift (readText text))
  return (v, current)

def readScalar (source : List UInt8) (tag : UInt8) (current : Nat) : Logged (Value × Nat) :=
  if tag = byte 'b' then readSimple source readBool current
  else if tag = byte 'i' then readSimple source readInt current
  else if tag = byte 'd' then readSimple source readFloat current
  else if tag = byte 's' then do
    let (s, current) ← readString source current
    return (.str s, current)
  else quiet (.error (.fault (.unknownTag tag)))

/-- Reads the entries of the array whose first entry is at `start`, behind those that are done. -/
def readEntries (readValue : Place → Logged (Value × Place)) (start : Nat) :
    Nat → Nat → Place → Logged (List (String × Value) × Place)
  | _, 0, here => return ([], here)
  | done, count + 1, here => do
      let (key, here) ← readValue here
      let name ← quiet (lift (keyName key))
      let (v, here) ← readValue here
      note (.round start (done + 1))
      let (entries, here) ← readEntries readValue start (done + 1) count here
      return ((name, v) :: entries, here)

def readArrayStart (source : List UInt8) (current : Nat) : Logged (Nat × Nat) := do
  let (countText, current) ← readPart source (byte ':') current
  match readCount? countText with
  | none => quiet (.error (.fault (.invalidArrayLength (String.ofList countText))))
  | some count =>
      let current ← expect source (byte '\x7b') current
      return (count, current)

/-- Reads an array behind its tag. -/
def readArray (source : List UInt8) (readValue : Place → Logged (Value × Place)) (here : Place) :
    Logged (Value × Place) := do
  let (count, start) ← readArrayStart source here.current
  if here.depth = depthLimit then quiet (.error (.fault (.tooDeep depthLimit)))
  else
    let first : Place := { current := start, depth := here.depth + 1 }
    note (.openArray count first)
    let _ ← quiet (room source count start)
    let (entries, inside) ← readEntries readValue start 0 count first
    let current ← expect source (byte '\x7d') inside.current
    let depth ← quiet (minus inside.depth 1)
    note (.closeArray start count)
    return (ofEntries entries, { current, depth })

/-- Reads a value, and the values inside of it with a reader that is given. -/
def readTagged (source : List UInt8) (readValue : Place → Logged (Value × Place)) (here : Place) :
    Logged (Value × Place) :=
  match source[here.current]? with
  | none => quiet (.error (.fault .unexpectedEnd))
  | some tag => do
      note (.move (here.current + 1))
      if tag = byte 'N' then
        let current ← expect source (byte ';') (here.current + 1)
        return (.null, { here with current })
      else
        let current ← expect source (byte ':') (here.current + 1)
        if tag = byte 'a' then readArray source readValue { here with current }
        else
          let (v, current) ← readScalar source tag current
          return (v, { here with current })

def readValue (source : List UInt8) : Nat → Place → Logged (Value × Place)
  | 0, _ => quiet (.error .outside)
  | levels + 1, here => do
      note (.enter here)
      let (v, behind) ← readTagged source (readValue source levels) here
      note (.leave here behind)
      return (v, behind)

def read (text : List Char) : Logged Value := do
  let source := Text.encode text
  let (v, behind) ← readValue source (depthLimit + 1) { current := 0, depth := 0 }
  if behind.current ≠ source.length then quiet (.error (.fault (.trailingData behind.current)))
  else return v

end Logged
end Serialized
end Bytewise
end RecordFilter
