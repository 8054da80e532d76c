/-
What a filter can be evaluated against. A record is anything that answers with the value of a
field; no answer means that the field is absent, which is not the same as its being null.
-/
import RecordFilter.Value.Json
import Std.Data.HashMap

namespace RecordFilter

class Record (ρ : Type) where
  /-- The value of a field, if the record has it. -/
  field? : ρ → String → Option Value

instance : Record Row where
  field? row name := row.get? name

instance : Record (Std.HashMap String Value) where
  field? row name := row[name]?

structure JsonRecord where
  members : List (String × Json)

instance : Record JsonRecord where
  field? record name := (Json.member? name record.members).map Value.ofJson

def JsonRecord.ofRow (row : Row) : JsonRecord :=
  { members := Value.toJsonMembers row.entries }

def hashRow (row : Row) : Std.HashMap String Value :=
  Std.HashMap.ofList row.entries

end RecordFilter
