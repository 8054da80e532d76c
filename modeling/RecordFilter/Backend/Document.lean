/-
Filters for document databases: documents of operators, in which `{"num": {"$gt": 5}}` asks for a
number above five. There a comparison with null also selects documents without the field, so null
operands come with the demand that the field exists.
-/
import RecordFilter.Clause.Basic
import RecordFilter.Condition.Tree
import RecordFilter.Error
import RecordFilter.Pattern.Regex
import RecordFilter.Query.Options
import RecordFilter.Value.Json
import RecordFilter.Value.Numeric

namespace RecordFilter
namespace Document

/-- The key of an operator. Patterns have a form of their own and never come here as operators. -/
def operatorKey : Operator → String
  | .eq => "$eq"
  | .ne => "$ne"
  | .lt => "$lt"
  | .le => "$lte"
  | .gt => "$gt"
  | .ge => "$gte"
  | .like => "$regex"

/-- The demand that a field exists. -/
def existing : List (String × Json) :=
  [("$exists", .bool true)]

/-- What is asked of a field that is compared with a value. An equal value is asked for as it is;
for every other operator, text that looks like a number is compared as a number. -/
def comparison (operator : Operator) (v : Value) : Json :=
  match operator, v with
  | .eq, .null => .object (("$eq", .null) :: existing)
  | .eq, v => v.toJson
  | operator, v =>
      let coerced := v.coerceNumeric
      let guard := if operator = .ne || coerced = .null then existing else []
      .object ((operatorKey operator, coerced.toJson) :: guard)

def clauseDocument : Clause → Except Error Json
  | .compare field _ (.pattern p) _ =>
      .ok (.single field (.single "$regex" (.string (String.ofList p.regexSource))))
  | .compare field operator (.value v) _ =>
      if v.isScalar then .ok (.single field (comparison operator v))
      else .error (.typeMismatch field v.typeName)
  | .fields left operator right =>
      .ok (.single "$and" (.array [
        .single left (.object existing),
        .single right (.object existing),
        .single "$expr" (.single (operatorKey operator)
          (.array [.string ("$" ++ left), .string ("$" ++ right)]))]))
  | .bare text => .error (.unsupportedClause text)

mutual
def treeDocument : Tree → Except Error Json
  | .leaf clause => clauseDocument clause
  | .all children => (treeDocuments children).map fun docs => .single "$and" (.array docs)
  | .any children => (treeDocuments children).map fun docs => .single "$or" (.array docs)

/-- The documents of several trees; the first that has none is the answer. -/
def treeDocuments : List Tree → Except Error (List Json)
  | [] => .ok []
  | t :: rest =>
      match treeDocument t with
      | .error e => .error e
      | .ok doc => (treeDocuments rest).map (doc :: ·)
end

def directionNumber : Direction → Json
  | .asc => .int 1
  | .desc => .int (-1)

def options (o : QueryOptions) : Except Error BackendOptions :=
  match o.orderKeys with
  | .error e => .error e
  | .ok keys =>
      let members := keys.map fun key => (key.field, directionNumber key.direction)
      let order := if keys.isEmpty then none
        else some (SortOrder.document (Json.collect members))
      .ok (o.withOrder order)

end Document
end RecordFilter
