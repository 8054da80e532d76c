/-
What an expression means, as a tree.  A level that asks first whether its fields are there is a
clause; any other one is the conjunction or the disjunction of its operands, or the one operand that
it has.  The question marks take their values from the front of a list.
-/
import RecordFilter.Proofs.FlatFile.Nesting
import RecordFilter.Proofs.Pattern.Delimited
import RecordFilter.Value.Numeric

namespace RecordFilter
namespace FlatFile

/-! ## Clauses -/

def field? : Term → Option String
  | .word ('@' :: name) => some (String.ofList name)
  | _ => none

def operator? (text : List Char) : Option Operator :=
  [(['=', '='], Operator.eq), (['!', '='], .ne), (['<'], .lt), (['<', '='], .le), (['>'], .gt),
    (['>', '='], .ge)].lookup text

/-- A literal that is written without quotes. -/
def plainValue? (text : List Char) : Option Value :=
  if text = ['N', 'U', 'L', 'L'] then some .null
  else if text = ['T', 'R', 'U', 'E'] then some (.bool true)
  else if text = ['F', 'A', 'L', 'S', 'E'] then some (.bool false)
  else Value.readNumber? text

/-- The value of an argument and where it comes from, with the values that are left. -/
def argument? (values : List Value) : Term → Option (Value × Source × List Value)
  | .hole =>
      match values with
      | v :: left => some (v, .placeholder, left)
      | [] => none
  | .literal text => some (.str (String.ofList text), .written, values)
  | .word text => (plainValue? text).map fun v => (v, .written, values)
  | .comma | .group _ _ => none

def pattern? : Value → Option Pattern
  | .str s => Pattern.ofDelimited? s.toList
  | _ => none

/-- The field that is asked for. -/
def isSet? : List Term → Option String
  | [.word function, .group none [[t]]] =>
      if function = ['i', 's', 's', 'e', 't'] then field? t else none
  | _ => none

/-- What is asked of the value of a field. -/
def test? (values : List Value) : List Term → Option (Clause × List Value)
  | [t, .word operator, a] => do
      let field ← field? t
      let operator ← operator? operator
      let (v, source, left) ← argument? values a
      return (.compare field operator (.value v) source, left)
  | [.word function, .group none [[a, .comma, t]]] =>
      if function = ['p', 'r', 'e', 'g', '_', 'm', 'a', 't', 'c', 'h'] then do
        let field ← field? t
        let (v, source, left) ← argument? values a
        let p ← pattern? v
        return (.compare field .like (.pattern p) source, left)
      else none
  | _ => none

/-- What is asked of the values of two fields. -/
def fieldsTest? : List Term → Option Clause
  | [.group none [[t, .word operator, u]]] => do
      let left ← field? t
      let operator ← operator? operator
      let right ← field? u
      return .fields left operator right
  | _ => none

/-- A test behind the demand that just the fields of it are there. -/
def clause? (values : List Value) : List (List Term) → Option (Clause × List Value)
  | [guard, body] => do
      let field ← isSet? guard
      let (clause, left) ← test? values body
      if clause.fieldNames = [field] then return (clause, left) else none
  | [guard, guard', body] => do
      let left ← isSet? guard
      let right ← isSet? guard'
      let clause ← fieldsTest? body
      if clause.fieldNames = [left, right] then return (clause, values) else none
  | _ => none

/-! ## Trees -/

def join? : Option Joiner → List Tree → Option Tree
  | none, [t] => some t
  | none, _ => none
  | some .and, ts => some (.all ts)
  | some .or, ts => some (.any ts)

mutual
/-- The tree of a term, with the values that are left. -/
def tree? : Term → List Value → Option (Tree × List Value)
  | .group joiner operands, values =>
      match if joiner = some .and then clause? values operands else none with
      | some (clause, left) => some (.leaf clause, left)
      | none => do
          let (ts, left) ← trees? operands values
          let t ← join? joiner ts
          return (t, left)
  | .word _, _ | .literal _, _ | .hole, _ | .comma, _ => none

/-- The tree of an operand, which has to stand in parentheses. -/
def operandTree? : List Term → List Value → Option (Tree × List Value)
  | [t], values => tree? t values
  | _, _ => none

def trees? : List (List Term) → List Value → Option (List Tree × List Value)
  | [], values => some ([], values)
  | operand :: rest, values => do
      let (t, left) ← operandTree? operand values
      let (ts, left) ← trees? rest left
      return (t :: ts, left)
end

/-- Reads a text with the values of its question marks, of which none must be left over. -/
def read? (text : List Char) (values : List Value) : Option Tree := do
  let term ← term? text
  let (t, left) ← tree? term values
  if left.isEmpty then return t else none

end FlatFile
end RecordFilter
