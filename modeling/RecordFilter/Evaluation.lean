/-
Filters on records. A comparison with an absent field is false, never an error, and so is one
between values that have no order, unless it asks for inequality.
-/
import RecordFilter.Clause.Reader
import RecordFilter.Condition.Tree
import RecordFilter.Pattern.Regex
import RecordFilter.Record
import RecordFilter.Value.Order

namespace RecordFilter

/-- Two values are equal if they are ordered as equal, or have no order and are equal as they
are. -/
def Value.looselyEqual (left right : Value) : Bool :=
  match left.order? right with
  | some ordering => ordering == .eq
  | none => left.equals right

/-- An operator holds between two values. Patterns are not values, so LIKE holds between none. -/
def Operator.holds (operator : Operator) (left right : Value) : Bool :=
  match operator with
  | .eq => left.looselyEqual right
  | .ne => !left.looselyEqual right
  | .lt => left.order? right == some .lt
  | .le => left.order? right == some .lt || left.order? right == some .eq
  | .gt => left.order? right == some .gt
  | .ge => left.order? right == some .gt || left.order? right == some .eq
  | .like => false

def Value.patternText? : Value → Option (List Char)
  | .str s => some s.toList
  | .int n => some (Number.integerText n.toInt)
  | .float x => some x.plainText
  | _ => none

/-- The value of a field that is used as a condition by itself. -/
def Value.isTruthy : Value → Bool
  | .null => false
  | .bool b => b
  | .int n => n != 0
  | .float x => !x.isZero
  | .str s => !s.isEmpty && s != "0"
  | .list items => !items.isEmpty
  | .map fields => !fields.isEmpty

section
variable {ρ : Type} [Record ρ]

def Operand.holdsFor (operator : Operator) (v : Value) : Operand → Bool
  | .value bound => operator.holds v bound
  | .pattern p => v.patternText?.any p.matchesText

/-- A clause holds for a record. A fragment that was kept as it is holds only if it is a field
name, and then if the field is there and its value counts as true. -/
def Clause.holds (record : ρ) : Clause → Bool
  | .compare field operator operand _ =>
      match Record.field? record field with
      | some v => operand.holdsFor operator v
      | none => false
  | .fields left operator right =>
      match Record.field? record left, Record.field? record right with
      | some l, some r => operator.holds l r
      | _, _ => false
  | .bare text =>
      Clause.isIdentifier text.toList && (Record.field? record text).any Value.isTruthy

mutual
def Tree.holds (record : ρ) : Tree → Bool
  | .leaf clause => clause.holds record
  | .all children => Tree.allHold record children
  | .any children => Tree.anyHolds record children

def Tree.allHold (record : ρ) : List Tree → Bool
  | [] => true
  | t :: rest => t.holds record && Tree.allHold record rest

def Tree.anyHolds (record : ρ) : List Tree → Bool
  | [] => false
  | t :: rest => t.holds record || Tree.anyHolds record rest
end

end
end RecordFilter
