/-
The field configuration of one model: the type of each configured column, the value that a fresh
record gets, and whether null may be stored.
-/
import RecordFilter.Error
import RecordFilter.Value.Basic

namespace RecordFilter

inductive DataType where
  | text
  | int
  | float
  | bool
  | json
  | serialized
deriving DecidableEq, Repr

namespace DataType

def name : DataType → String
  | .text => "text"
  | .int => "int"
  | .float => "float"
  | .bool => "bool"
  | .json => "json"
  | .serialized => "serialized"

def types : List DataType :=
  [.text, .int, .float, .bool, .json, .serialized]

def ofName? (name : String) : Option DataType :=
  types.find? fun t => t.name == name

theorem ofName?_name (t : DataType) : ofName? t.name = some t := by
  cases t <;> decide

end DataType

structure FieldConf where
  dataType : DataType
  /-- What a fresh record holds; none if it does not have the field at all. -/
  initial : Option Value
  nullable : Bool
deriving DecidableEq

abbrev Schema := FieldMap FieldConf

/-- The configuration of a field, which has to be there. -/
def Schema.require (schema : Schema) (field : String) : Except Error FieldConf :=
  match schema.get? field with
  | some conf => .ok conf
  | none => .error (.missingFieldConfiguration field)

end RecordFilter
