/-
The data mapper: one record in a buffer, between an application and an engine. Conditions and
options are put into the form of the engine's backend, rows that come back are decoded, and fields
that are set are encoded. The buffer of a fresh mapper, and of one that has been reset, holds the
configured initial values.

Every operation that may call the engine answers with a `Step`: its result, the mapper after it,
the calls it made and the events it logged. An operation that fails leaves the buffer as it was.
For an edit of the buffer only the mapper that it leads to is computed here, all of it before any of
it is taken over; in `Mapper.Operation` edits answer with a `Step` as well.
-/
import RecordFilter.Mapper.Engine

namespace RecordFilter

structure Mapper (σ : Type) where
  storage : Storage
  engine : Engine σ
  store : σ
  /-- The configured initial values, as they are stored. -/
  initial : Row
  /-- The record in the buffer, as it is stored. -/
  current : Row
  /-- The record in the buffer has been loaded or saved. -/
  loaded : Bool

structure Step (σ α : Type) where
  result : Except Error α
  mapper : Mapper σ
  calls : List Call
  events : List Event

namespace Mapper

variable {σ α : Type}

/-! ## Construction -/

/-- Null for a field that is configured not to take it is refused. -/
def checkNullable (schema : Schema) (field : String) (v : Value) : Except Error Unit :=
  match schema.get? field with
  | some conf =>
      if v = .null && !conf.nullable then .error (.typeMismatch field v.typeName) else .ok ()
  | none => .ok ()

/-- What is stored for a value that a field is given. -/
def storedValue (storage : Storage) (field : String) (v : Value) : Except Error Value :=
  match checkNullable storage.schema field v with
  | .error e => .error e
  | .ok () => storage.encodeField field v

def initialValues (schema : Schema) : FieldMap Value :=
  .ofList (schema.entries.filterMap fun (field, conf) => conf.initial.map fun v => (field, v))

/-- A mapper with a fresh record; an initial value that the backend cannot store is refused. -/
def create (storage : Storage) (engine : Engine σ) (store : σ) : Except Error (Mapper σ) :=
  match (initialValues storage.schema).traverse (storedValue storage) with
  | .error e => .error e
  | .ok initial => .ok { storage, engine, store, initial, current := initial, loaded := false }

/-! ## The buffer -/

/-- The buffer holds a record that has been neither loaded nor saved. -/
def isDry (m : Mapper σ) : Bool :=
  !m.loaded

/-- Goes back to a fresh record. -/
def reset (m : Mapper σ) : Mapper σ :=
  { m with current := m.initial, loaded := false }

/-- Takes a row into the buffer, or resets if there is none. -/
def position (m : Mapper σ) : Option Row → Mapper σ
  | some row => { m with current := row, loaded := true }
  | none => m.reset

/-- The mapper with a field set, or why the value cannot be stored. -/
def set (m : Mapper σ) (field : String) (v : Value) : Except Error (Mapper σ) :=
  match storedValue m.storage field v with
  | .error e => .error e
  | .ok stored => .ok { m with current := m.current.insert field stored }

/-- The value of a field; none if the record does not have it. -/
def get (m : Mapper σ) (field : String) : Except Error (Option Value) :=
  match m.current.get? field with
  | some stored => (m.storage.decodeKnown field stored).map some
  | none => .ok none

def cast (m : Mapper σ) : Except Error Row :=
  m.storage.decodeRow m.current

/-- Puts stored forms of entries into a row, one after the other. -/
def copyEntries (storage : Storage) : List (String × Value) → Row → Except Error Row
  | [], row => .ok row
  | (field, v) :: rest, row =>
      match storedValue storage field v with
      | .error e => .error e
      | .ok stored => copyEntries storage rest (row.insert field stored)

/-- Sets all entries of a record, or none of them if one is refused. -/
def copyFrom (m : Mapper σ) (hive : Row) : Except Error (Mapper σ) :=
  match copyEntries m.storage hive.entries m.current with
  | .error e => .error e
  | .ok row => .ok { m with current := row }

/-- A record with the fields of the buffered one put over its own. -/
def copyTo (m : Mapper σ) (hive : Row) : Except Error Row :=
  match m.cast with
  | .error e => .error e
  | .ok row => .ok (hive.override row)

def contains (m : Mapper σ) (field : String) : Bool :=
  m.current.contains field

def clear (m : Mapper σ) (field : String) : Mapper σ :=
  { m with current := m.current.erase field }

/-! ## The engine -/

def stop (m : Mapper σ) (e : Error) (events : List Event) : Step σ α :=
  { result := .error e, mapper := m, calls := [], events }

/-- Makes one call, and goes on with the answer. An engine that fails ends the operation. -/
def ask (m : Mapper σ) (events : List Event) (call : Call)
    (andThen : Mapper σ → call.Reply → Except Error α × Mapper σ × List Event) : Step σ α :=
  let (reply, store) := m.engine.perform call m.store
  let m := { m with store }
  match reply with
  | .error e => { result := .error e, mapper := m, calls := [call], events }
  | .ok reply =>
      let (result, m, more) := andThen m reply
      { result, mapper := m, calls := [call], events := events ++ more }

def askWithFilter (m : Mapper σ) (condition : Option Condition) (call : Option Filter → Call)
    (andThen : (filter : Option Filter) → Mapper σ → (call filter).Reply →
      Except Error α × Mapper σ × List Event) : Step σ α :=
  let prepared := m.storage.prepareFilter condition
  match prepared.result with
  | .error e => m.stop e prepared.events
  | .ok filter => m.ask prepared.events (call filter) (andThen filter)

def askWithOptions (m : Mapper σ) (condition : Option Condition) (options : Option QueryOptions)
    (call : Option Filter → Option BackendOptions → Call)
    (andThen : (filter : Option Filter) → (options : Option BackendOptions) → Mapper σ →
      (call filter options).Reply → Except Error α × Mapper σ × List Event) : Step σ α :=
  let prepared := m.storage.prepareFilter condition
  match prepared.result with
  | .error e => m.stop e prepared.events
  | .ok filter =>
      match m.storage.prepareOptions options with
      | .error e => m.stop e prepared.events
      | .ok options => m.ask prepared.events (call filter options) (andThen filter options)

/-- The rows as the application sees them; the first that cannot be decoded is the answer. -/
def decodeRows (storage : Storage) : List Row → Except Error (List Row)
  | [] => .ok []
  | row :: rest =>
      match storage.decodeRow row with
      | .error e => .error e
      | .ok row => (decodeRows storage rest).map (row :: ·)

def find (m : Mapper σ) (condition : Option Condition) (options : Option QueryOptions) :
    Step σ (List Row) :=
  m.askWithOptions condition options .find fun _ _ m rows =>
    (decodeRows m.storage rows, m, [.found m.storage.backend rows.length])

/-- Takes a row that the engine moved to into the buffer, and says whether there is one. -/
def moveTo (m : Mapper σ) (row : Option Row) : Except Error Bool × Mapper σ × List Event :=
  let m := m.position row
  (.ok m.loaded, m, [])

/-- Loads the first record that a condition wants; if there is none, the buffer is reset. -/
def load (m : Mapper σ) (condition : Option Condition) (options : Option QueryOptions) :
    Step σ Bool :=
  m.askWithOptions condition options .load fun _ _ m row => m.moveTo row

/-- Moves along the loaded records; leaving them resets the buffer. -/
def skip (m : Mapper σ) (offset : Int) : Step σ Bool :=
  m.ask [] (.skip offset) fun m row => m.moveTo row

def first (m : Mapper σ) : Step σ Bool :=
  m.ask [] .first fun m row => m.moveTo row

def last (m : Mapper σ) : Step σ Bool :=
  m.ask [] .last fun m row => m.moveTo row

def count (m : Mapper σ) (condition : Option Condition) : Step σ Nat :=
  m.askWithFilter condition .count fun _ m n => (.ok n, m, [])

/-- Deletes the records that a condition wants, and resets the buffer. -/
def erase (m : Mapper σ) (condition : Option Condition) : Step σ Nat :=
  m.askWithFilter condition .erase fun _ m n =>
    (.ok n, m.reset, [.erased m.storage.backend n])

def insert (m : Mapper σ) : Step σ Unit :=
  m.ask [] (.insert m.current) fun m _ => (.ok (), { m with loaded := true }, [])

/-- Writes the buffered record back. There has to be a record to write back to. -/
def update (m : Mapper σ) : Step σ Unit :=
  if m.loaded then m.ask [] (.update m.current) fun m _ => (.ok (), m, [])
  else m.stop (.engine "No record loaded to update") []

end Mapper
end RecordFilter
