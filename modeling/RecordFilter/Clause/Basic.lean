/-
Clauses, the leaves of a filter: a field compared with a value or a pattern, two fields compared
with each other, or a fragment that is passed on as it was written.
-/
import RecordFilter.Clause.Operator
import RecordFilter.Pattern.Basic
import RecordFilter.Value.Inspect

namespace RecordFilter

inductive Operand where
  | value (v : Value)
  | pattern (p : Pattern)
deriving DecidableEq

/-- Where an operand comes from: bound to a placeholder, or written in the template. -/
inductive Source where
  | placeholder
  | written
deriving DecidableEq, Repr

inductive Clause where
  | compare (field : String) (operator : Operator) (operand : Operand) (source : Source)
  | fields (left : String) (operator : Operator) (right : String)
  | bare (text : String)
deriving DecidableEq

namespace Clause

def fieldNames : Clause → List String
  | .compare field _ _ _ => [field]
  | .fields left _ right => [left, right]
  | .bare _ => []

/-- The text of a clause. An operand that was bound shows as its placeholder, and one that was
written shows inspected. -/
def text : Clause → String
  | .compare field operator operand source =>
      let right := match source, operand with
        | .placeholder, _ => "?"
        | .written, .value v => v.inspect
        | .written, .pattern p => p.inspect
      field ++ " " ++ operator.symbol ++ " " ++ right
  | .fields left operator right => left ++ " " ++ operator.symbol ++ " " ++ right
  | .bare text => text

end Clause
end RecordFilter
