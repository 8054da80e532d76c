/-
The order of values. Null equals null, booleans are ordered with false first, numbers (and strings
that look like numbers) by magnitude, other strings by code points. All other pairs are unordered.
-/
import RecordFilter.Value.Numeric

namespace RecordFilter
namespace Value

def order? (left right : Value) : Option Ordering :=
  match left, right with
  | .null, .null => some .eq
  | .bool a, .bool b => some (compare a b)
  | left, right =>
      match left.asFloat?, right.asFloat? with
      | some a, some b => a.compare b
      | _, _ =>
          match left, right with
          | .str a, .str b => some (compareOfLessAndEq a b)
          | _, _ => none

end Value
end RecordFilter
