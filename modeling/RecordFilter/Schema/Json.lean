/-
Field configurations as JSON: an object from field names to the configurations of the fields. A
configuration has a type, and may have a value for fresh records and a flag for null; a type may be
written as its name or as an object of that name alone and null.
-/
import RecordFilter.Json.Struct
import RecordFilter.Schema.Basic

namespace RecordFilter

namespace DataType

def read? : Json.Written → Option DataType
  | .string pieces => (Json.string? pieces).bind ofName?
  | .object [(pieces, .null)] => (Json.string? pieces).bind ofName?
  | _ => none

end DataType

namespace FieldConf

def memberNames : List String :=
  ["type", "default", "nullable"]

/-- Reads the configuration of a field, whose parts may nest at most `depth` deep. Null is allowed
unless the configuration says otherwise. -/
def read? (depth : Nat) (w : Json.Written) : Option FieldConf :=
  match Json.Struct.slots? memberNames w with
  | some [some type, initial, nullable] => do
      let dataType ← DataType.read? type
      let initial ← Json.Struct.optional? (fun w => (w.toJson? depth).map Value.ofJson) initial
      let nullable ← match nullable with
        | none => some true
        | some w => Json.Struct.bool? w
      return { dataType, initial, nullable }
  | _ => none

/-- A configuration as JSON. A missing value is written as null. -/
def toJson (conf : FieldConf) : Json :=
  .object [("type", .string conf.dataType.name),
    ("default", (conf.initial.map Value.toJson).getD .null), ("nullable", .bool conf.nullable)]

end FieldConf

namespace Schema

/-- Reads the configurations of fields; of several for one name the last one counts. -/
def readMembers? (depth : Nat) :
    List (List Json.Piece × Json.Written) → Option (List (String × FieldConf))
  | [] => some []
  | (name, w) :: rest =>
      match Json.string? name, FieldConf.read? depth w, readMembers? depth rest with
      | some name, some conf, some confs => some ((name, conf) :: confs)
      | _, _, _ => none

/-- Reads a field configuration from JSON text. Its own objects take two of the levels that JSON
may nest. -/
def readJson? (text : List Char) : Option Schema :=
  match Json.Written.read? text with
  | some (.object members) =>
      (readMembers? (Json.depthLimit - 2) members).map FieldMap.ofList
  | _ => none

def toJson (schema : Schema) : Json :=
  .object (schema.entries.map fun (name, conf) => (name, conf.toJson))

end Schema
end RecordFilter
