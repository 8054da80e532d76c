/-
Reading a fragment as a clause. A fragment is split at its leftmost operator: the left side has to
be a field name, and the right side is a placeholder, a literal or another field. A fragment
without an operator is kept as it is, unless a placeholder in it would have no comparison to
belong to.
-/
import RecordFilter.Clause.Basic
import RecordFilter.Error
import RecordFilter.Text.Bytes
import RecordFilter.Value.Numeric

namespace RecordFilter
namespace Clause

/-- A field name: ASCII letters, digits and underscores, not starting with a digit. -/
def isIdentifier : List Char → Bool
  | [] => false
  | c :: rest => !Text.isAsciiDigit c && (c :: rest).all Text.isAsciiWord

inductive RightSide where
  | placeholder
  | literal (v : Value)
  | field (name : String)
deriving DecidableEq

/-- The content of a quoted literal: everything between a quote at the start and the same quote at
the end. -/
def quoted? : List Char → Option (List Char)
  | [] => none
  | q :: rest => if Quote.isQuote q && rest.getLast? == some q then some rest.dropLast else none

def wordValue? (text : List Char) : Option Value :=
  if Text.sameLetters text ['n', 'u', 'l', 'l'] then some .null
  else if Text.sameLetters text ['t', 'r', 'u', 'e'] then some (.bool true)
  else if Text.sameLetters text ['f', 'a', 'l', 's', 'e'] then some (.bool false)
  else none

def literal? (text : List Char) : Option Value :=
  match quoted? text with
  | some content => some (.str (String.ofList content))
  | none =>
      match wordValue? text with
      | some v => some v
      | none => Value.readNumber? text

def rightSide? (text : List Char) : Option RightSide :=
  if text = ['?'] then some .placeholder
  else
    match literal? text with
    | some v => some (.literal v)
    | none => if isIdentifier text then some (.field (String.ofList text)) else none

def likePattern (field : String) : Value → Except Error Pattern
  | .str s => .ok (Pattern.ofLike s.toList)
  | .int n => .ok (Pattern.ofLike (Number.integerText n.toInt))
  | .float x => .ok (Pattern.ofLike x.plainText)
  | v => .error (.typeMismatch field v.typeName)

def comparison (field : String) (operator : Operator) (v : Value) (source : Source) :
    Except Error Clause :=
  match operator with
  | .like =>
      match likePattern field v with
      | .ok p => .ok (.compare field .like (.pattern p) source)
      | .error e => .error e
  | operator => .ok (.compare field operator (.value v) source)

/-- The clause of two sides and an operator, with the values that it leaves for later
placeholders. The fragment is named when the sides make no clause. -/
def ofSides (fragment left : List Char) (operator : Operator) (right : List Char)
    (values : List Value) : Except Error (Clause × List Value) :=
  let malformed := Error.malformedClause (String.ofList fragment)
  let field := Text.trim Text.isBlank left
  if !isIdentifier field then .error malformed
  else
    let field := String.ofList field
    match rightSide? (Text.trim Text.isBlank right), values with
    | none, _ => .error malformed
    | some .placeholder, [] => .error malformed
    | some .placeholder, v :: values =>
        (comparison field operator v .placeholder).map fun clause => (clause, values)
    | some (.literal v), values =>
        (comparison field operator v .written).map fun clause => (clause, values)
    | some (.field name), values =>
        if operator = .like then .error malformed else .ok (.fields field operator name, values)

/-- Reads a fragment. If it has a placeholder, the first of the values is bound to it. -/
def read (fragment : List Char) (values : List Value) : Except Error (Clause × List Value) :=
  let fragment := Text.trim Text.isBlank fragment
  match Operator.find? fragment with
  | none =>
      if 0 < Quote.placeholders fragment then
        .error (.malformedClause (String.ofList fragment))
      else .ok (.bare (String.ofList fragment), values)
  | some found =>
      match Text.slice? fragment 0 found.start, Text.sliceFrom? fragment found.stop with
      | some left, some right => ofSides fragment left found.operator right values
      | _, _ => .error (.brokenSpan found.start found.stop)

end Clause
end RecordFilter
