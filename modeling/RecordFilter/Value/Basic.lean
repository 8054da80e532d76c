/-
The values that a condition binds and a record holds. A map value carries its entries as a list,
in ascending order of the names wherever a value is built here; `WellFormed` says so at every
depth. Equality of values comes in two forms: identity, which is decidable, and agreement, in
which numbers are compared as numbers.
-/
import RecordFilter.FieldMap
import RecordFilter.Number.Binary64

namespace RecordFilter

open Number

/-- A value bound to a placeholder, written in a condition, or stored in a field. -/
inductive Value where
  | null
  | bool (b : Bool)
  | int (n : Int64)
  | float (x : Binary64)
  | str (s : String)
  | list (items : List Value)
  | map (fields : List (String × Value))
deriving Inhabited

namespace Value

/-- A map value with the given entries; of several entries of one name the last one counts. -/
def ofFields (fields : List (String × Value)) : Value :=
  .map (Entries.sort fields)

/-- Lists and maps are structured, and every other value is a scalar. A scalar can be written as
a literal for any backend. -/
def isScalar : Value → Bool
  | .list _ | .map _ => false
  | _ => true

def typeName : Value → String
  | .null => "null"
  | .bool _ => "bool"
  | .int _ => "int"
  | .float _ => "float"
  | .str _ => "string"
  | .list _ => "list"
  | .map _ => "map"

mutual
/-- The fields of every map in a value ascend. -/
def WellFormed : Value → Prop
  | .list items => ItemsWellFormed items
  | .map fields => Entries.Ascending fields ∧ FieldsWellFormed fields
  | _ => True

def ItemsWellFormed : List Value → Prop
  | [] => True
  | v :: rest => WellFormed v ∧ ItemsWellFormed rest

def FieldsWellFormed : List (String × Value) → Prop
  | [] => True
  | (_, v) :: rest => WellFormed v ∧ FieldsWellFormed rest
end

mutual
/-- Two values of the same shape whose numbers agree in the given sense. -/
def agree (same : Binary64 → Binary64 → Bool) : Value → Value → Bool
  | .null, .null => true
  | .bool a, .bool b => a == b
  | .int a, .int b => a == b
  | .float a, .float b => same a b
  | .str a, .str b => a == b
  | .list as, .list bs => agreeItems same as bs
  | .map as, .map bs => agreeFields same as bs
  | _, _ => false

def agreeItems (same : Binary64 → Binary64 → Bool) : List Value → List Value → Bool
  | [], [] => true
  | a :: as, b :: bs => agree same a b && agreeItems same as bs
  | _, _ => false

/-- Two lists of entries that agree name by name and value by value. -/
def agreeFields (same : Binary64 → Binary64 → Bool) :
    List (String × Value) → List (String × Value) → Bool
  | [], [] => true
  | (k, a) :: as, (l, b) :: bs => k == l && agree same a b && agreeFields same as bs
  | _, _ => false
end

/-- Equality of values with their numbers compared as numbers: the two zeros are equal, and the
undefined number differs from itself. -/
def equals (left right : Value) : Bool :=
  agree Binary64.sameNumber left right

mutual
theorem agree_iff_eq (a b : Value) : agree (· == ·) a b = true ↔ a = b := by
  match a, b with
  | .list as, .list bs => simp [agree, agreeItems_iff_eq as bs]
  | .map as, .map bs => simp [agree, agreeFields_iff_eq as bs]
  | .null, b => cases b <;> simp [agree]
  | .bool _, b => cases b <;> simp [agree]
  | .int _, b => cases b <;> simp [agree]
  | .float _, b => cases b <;> simp [agree]
  | .str _, b => cases b <;> simp [agree]
  | .list _, .null | .list _, .bool _ | .list _, .int _ | .list _, .float _
  | .list _, .str _ | .list _, .map _ => simp [agree]
  | .map _, .null | .map _, .bool _ | .map _, .int _ | .map _, .float _
  | .map _, .str _ | .map _, .list _ => simp [agree]

theorem agreeItems_iff_eq (as bs : List Value) : agreeItems (· == ·) as bs = true ↔ as = bs := by
  match as, bs with
  | [], [] => simp [agreeItems]
  | [], _ :: _ | _ :: _, [] => simp [agreeItems]
  | a :: as, b :: bs => simp [agreeItems, agree_iff_eq a b, agreeItems_iff_eq as bs]

theorem agreeFields_iff_eq (as bs : List (String × Value)) :
    agreeFields (· == ·) as bs = true ↔ as = bs := by
  match as, bs with
  | [], [] => simp [agreeFields]
  | [], _ :: _ | _ :: _, [] => simp [agreeFields]
  | (k, a) :: as, (l, b) :: bs =>
      simp [agreeFields, agree_iff_eq a b, agreeFields_iff_eq as bs, and_assoc]
end

instance : DecidableEq Value := fun a b =>
  decidable_of_iff (agree (· == ·) a b = true) (agree_iff_eq a b)

end Value

/-- One record, as an engine stores it or an application sees it. -/
abbrev Row := FieldMap Value

end RecordFilter
