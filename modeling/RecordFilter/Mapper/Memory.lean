/-
An engine that keeps its rows in memory. It answers every filter with all rows; a cursor runs over
the rows as they were when it was opened. One failure can be ordered for the next call.
-/
import RecordFilter.Mapper.Engine

namespace RecordFilter

structure RowCursor where
  rows : List Row
  position : Nat
deriving DecidableEq

structure Memory where
  rows : List Row
  cursor : Option RowCursor
  /-- What the next call fails with. -/
  failure : Option String
deriving DecidableEq

namespace Memory

def ofRows (rows : List Row) : Memory :=
  { rows, cursor := none, failure := none }

/-- Puts the cursor on a row of its own. A place without a row closes the cursor. -/
def seek (memory : Memory) (target : RowCursor → Int) : Option Row × Memory :=
  match memory.cursor with
  | none => (none, memory)
  | some cursor =>
      let place := target cursor
      match (if 0 ≤ place then cursor.rows[place.toNat]? else none) with
      | some row =>
          (some row, { memory with cursor := some { cursor with position := place.toNat } })
      | none => (none, { memory with cursor := none })

def answer (memory : Memory) : (call : Call) → call.Reply × Memory
  | .find _ _ => (memory.rows, memory)
  | .load _ _ =>
      seek { memory with cursor := some { rows := memory.rows, position := 0 } } fun _ => 0
  | .count _ => (memory.rows.length, memory)
  | .erase _ => (memory.rows.length, { memory with rows := [] })
  | .insert row => ((), { memory with rows := memory.rows ++ [row] })
  | .update _ => ((), memory)
  | .skip offset => memory.seek fun cursor => cursor.position + offset
  | .first => memory.seek fun _ => 0
  | .last => memory.seek fun cursor => (cursor.rows.length : Int) - 1

def engine : Engine Memory where
  perform call memory :=
    match memory.failure with
    | some message => (.error (.engine message), { memory with failure := none })
    | none =>
        let (reply, memory) := memory.answer call
        (.ok reply, memory)

end Memory
end RecordFilter
