/-
Between the values of an application and what a backend stores. Only relational tables need lists
and maps as text, each with the codec of its column; the other backends store every value as it is.
-/
import RecordFilter.Backend.Basic
import RecordFilter.Codec.Basic

namespace RecordFilter

/-- Where values are stored: the backend, and how its columns are configured. -/
structure Storage where
  backend : Backend
  schema : Schema

namespace Storage

def codec? (s : Storage) (field : String) : Except Error (Option Codec) :=
  match s.schema.require field with
  | .ok conf => .ok conf.dataType.codec?
  | .error e => .error e

def encodeField (s : Storage) (field : String) (v : Value) : Except Error Value :=
  if s.backend ≠ .relational || v.isScalar then .ok v
  else
    match s.codec? field with
    | .error e => .error e
    | .ok none => .error (.typeMismatch field v.typeName)
    | .ok (some codec) => .ok (.str (codec.encode v))

def decodeField (s : Storage) (field : String) (stored : Value) : Except Error Value :=
  if s.backend ≠ .relational then .ok stored
  else
    match s.codec? field with
    | .error e => .error e
    | .ok codec =>
        match codec, stored with
        | some codec, .str text => codec.decode field text
        | _, stored => .ok stored

/-- The value that is stored for a field in this form, if the field is configured; a column that
the configuration does not know is left as it is. -/
def decodeKnown (s : Storage) (field : String) (stored : Value) : Except Error Value :=
  if s.schema.contains field then s.decodeField field stored else .ok stored

/-- The values of a stored row. Columns are decoded in the order of their names. -/
def decodeRow (s : Storage) (row : Row) : Except Error Row :=
  row.traverse s.decodeKnown

end Storage
end RecordFilter
