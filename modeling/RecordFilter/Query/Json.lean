/-
Query options as JSON: an object of an order, a limit and an offset, each of which may be missing
or null.
-/
import RecordFilter.Json.Struct
import RecordFilter.Query.Options

namespace RecordFilter
namespace QueryOptions

def memberNames : List String :=
  ["order", "limit", "offset"]

def readJson? (text : List Char) : Option QueryOptions :=
  match (Json.Written.read? text).bind (Json.Struct.slots? memberNames) with
  | some [order, limit, offset] => do
      let order ← Json.Struct.optional? Json.Struct.string? order
      let limit ← Json.Struct.optional? Json.Struct.count? limit
      let offset ← Json.Struct.optional? Json.Struct.count? offset
      return { order, limit, offset }
  | _ => none

def countJson : Option Nat → Json
  | some n => .int n
  | none => .null

def toJson (o : QueryOptions) : Json :=
  .object [("order", (o.order.map Json.string).getD .null), ("limit", countJson o.limit),
    ("offset", countJson o.offset)]

end QueryOptions
end RecordFilter
