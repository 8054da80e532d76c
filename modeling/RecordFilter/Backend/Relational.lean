/-
Filters for relational tables. Such engines take conditions as they are written, so the template
is passed on; bound lists and maps become text by the codec of the column that they are compared
with. The condition is read all the same, so a faulty one fails here as it does elsewhere.
-/
import RecordFilter.Codec.Storage
import RecordFilter.Condition.Basic
import RecordFilter.Query.Options

namespace RecordFilter
namespace Relational

/-- The fields that placeholders are compared with, in the order of the placeholders. -/
def boundFields : List Clause → List String
  | [] => []
  | .compare field _ _ .placeholder :: rest => field :: boundFields rest
  | _ :: rest => boundFields rest

/-- Bound values as they are stored in their columns; the first that cannot be is the answer. -/
def storeValues (storage : Storage) : List String → List Value → Except Error (List Value)
  | field :: fields, v :: values =>
      match storage.encodeField field v with
      | .error e => .error e
      | .ok stored => (storeValues storage fields values).map (stored :: ·)
  | _, _ => .ok []

def values (schema : Schema) (c : Condition) (tree : Tree) : Except Error (List Value) :=
  if c.values.all Value.isScalar then .ok c.values
  else storeValues { backend := .relational, schema } (boundFields tree.leaves) c.values

/-- Query options for relational tables: a sort order that can be read is passed on as it is. -/
def options (o : QueryOptions) : Except Error BackendOptions :=
  match o.orderKeys with
  | .error e => .error e
  | .ok _ =>
      let order := (o.order.map Text.trimmed).filter fun text => text ≠ ""
      .ok (o.withOrder (order.map .expression))

end Relational
end RecordFilter
