/-
The inspected form of values, for messages: the kind of each value and its content, strings
quoted.
-/
import RecordFilter.Value.Basic
import RecordFilter.Number.Layout
import RecordFilter.Text.Inspect

namespace RecordFilter
namespace Value

open Number

mutual
def inspect : Value → String
  | .null => "Null"
  | .bool b => "Bool(" ++ (if b then "true" else "false") ++ ")"
  | .int n => "Int(" ++ String.ofList (integerText n.toInt) ++ ")"
  | .float x => "Float(" ++ String.ofList (Layout.inspected.text x) ++ ")"
  | .str s => "Str(" ++ Text.inspect s ++ ")"
  | .list items => "List([" ++ ", ".intercalate (inspectItems items) ++ "])"
  | .map fields => "Map(\x7b" ++ ", ".intercalate (inspectFields fields) ++ "\x7d)"

def inspectItems : List Value → List String
  | [] => []
  | v :: rest => inspect v :: inspectItems rest

def inspectFields : List (String × Value) → List String
  | [] => []
  | (name, v) :: rest => (Text.inspect name ++ ": " ++ inspect v) :: inspectFields rest
end

end Value
end RecordFilter
