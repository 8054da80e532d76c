/-
What a query asks for besides its filter: a sort order, written as a list of fields with optional
directions, and a window of the result.
-/
import RecordFilter.Error
import RecordFilter.Json.Basic
import RecordFilter.Text.Blank
import RecordFilter.Text.Word

namespace RecordFilter

inductive Direction where
  | asc
  | desc
deriving DecidableEq, Repr

def Direction.ofWord? (word : List Char) : Option Direction :=
  if Text.sameLetters word ['a', 's', 'c'] then some .asc
  else if Text.sameLetters word ['d', 'e', 's', 'c'] then some .desc
  else none

structure SortKey where
  field : String
  direction : Direction
deriving DecidableEq, Repr

structure QueryOptions where
  order : Option String
  limit : Option Nat
  offset : Option Nat
deriving DecidableEq, Repr

namespace QueryOptions

def isEmpty (o : QueryOptions) : Bool :=
  o.order.all Text.allBlank && o.limit.isNone && o.offset.isNone

/-- The sort key of one entry: a field, and possibly a direction. -/
def sortKey (entry : List Char) : Except Error SortKey :=
  match Text.words entry with
  | [] => .ok { field := "", direction := .asc }
  | [field] => .ok { field := String.ofList field, direction := .asc }
  | [field, word] =>
      match Direction.ofWord? word with
      | some direction => .ok { field := String.ofList field, direction }
      | none => .error (.invalidOrder (String.ofList entry))
  | _ => .error (.invalidOrder (String.ofList entry))

/-- The sort keys of entries; the first that is none stops the reading. -/
def sortKeys : List (List Char) → Except Error (List SortKey)
  | [] => .ok []
  | entry :: rest =>
      match sortKey entry with
      | .error e => .error e
      | .ok key => (sortKeys rest).map (key :: ·)

/-- The entries of a sort order: what stands between its commas, blank entries left out. -/
def entries (order : List Char) : List (List Char) :=
  ((Text.splitOn (· == ',') order).map (Text.trim Text.isBlank)).filter fun e => !e.isEmpty

def orderKeys (o : QueryOptions) : Except Error (List SortKey) :=
  match o.order with
  | none => .ok []
  | some order => sortKeys (entries order.toList)

end QueryOptions

inductive SortOrder where
  | expression (text : String)
  /-- The members of an object, from fields to 1 or -1. -/
  | document (members : List (String × Json))
deriving DecidableEq

structure BackendOptions where
  order : Option SortOrder
  limit : Option Nat
  offset : Option Nat
deriving DecidableEq

def QueryOptions.withOrder (o : QueryOptions) (order : Option SortOrder) : BackendOptions :=
  { order, limit := o.limit, offset := o.offset }

end RecordFilter
