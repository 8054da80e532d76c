/-
Storage engines as a mapper sees them: a handful of calls, each with its own kind of answer. An
engine is given by what it does on a call, as a function on its state; nothing else is assumed of
it, so what is shown of a mapper holds with every engine.
-/
import RecordFilter.Backend.Dispatch

namespace RecordFilter

/-- A call to an engine. Filters, options and rows are in the form that its backend takes. -/
inductive Call where
  /-- All rows that a filter wants. -/
  | find (filter : Option Filter) (options : Option BackendOptions)
  /-- The first of those rows, with a cursor on it. -/
  | load (filter : Option Filter) (options : Option BackendOptions)
  | count (filter : Option Filter)
  | erase (filter : Option Filter)
  | insert (row : Row)
  /-- Writes back the row that was loaded. -/
  | update (row : Row)
  /-- Moves the cursor by a number of rows. -/
  | skip (offset : Int)
  | first
  | last
deriving DecidableEq

/-- What an engine answers to a call. A move that leaves the rows answers with none. -/
def Call.Reply : Call → Type
  | .find _ _ => List Row
  | .load _ _ | .skip _ | .first | .last => Option Row
  | .count _ | .erase _ => Nat
  | .insert _ | .update _ => Unit

/-- An engine with states of type `σ`. -/
structure Engine (σ : Type) where
  perform : (call : Call) → σ → Except Error call.Reply × σ

end RecordFilter
