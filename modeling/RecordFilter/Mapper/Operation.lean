/-
The operations of a mapper, as an application performs them.  Every one of them answers with a
`Step`, so that the mapper the application goes on with is said for an operation that is refused as
well: an edit that is refused leaves the buffer as it was, and so does a copy that fails with the
record of the caller that it was to go to.
-/
import RecordFilter.Mapper.Basic

namespace RecordFilter
namespace Mapper

variable {σ α : Type}

inductive Operation where
  | find (condition : Option Condition) (options : Option QueryOptions)
  | load (condition : Option Condition) (options : Option QueryOptions)
  | skip (offset : Int)
  | first
  | last
  | count (condition : Option Condition)
  | erase (condition : Option Condition)
  | insert
  | update
  | set (field : String) (v : Value)
  | get (field : String)
  | cast
  | copyFrom (hive : Row)
  | copyTo (hive : Row)
  | contains (field : String)
  | clear (field : String)
  | isDry
  | reset

/-! ## What an operation does -/

/-- A step without a call. -/
def answer (m : Mapper σ) (result : Except Error α) : Step σ α :=
  { result, mapper := m, calls := [], events := [] }

/-- Goes on with a changed mapper, or with the one that there was if the change is refused. -/
def adopt (m : Mapper σ) : Except Error (Mapper σ) → Step σ Unit
  | .error e => m.answer (.error e)
  | .ok changed => changed.answer (.ok ())

namespace Operation

def Answer : Operation → Type
  | find _ _ => List Row
  | load _ _ | skip _ | first | last | contains _ | isDry => Bool
  | count _ | erase _ => Nat
  | get _ => Option Value
  | cast => Row
  | insert | update | set _ _ | copyFrom _ | copyTo _ | clear _ | reset => Unit

def step (m : Mapper σ) : (op : Operation) → Step σ op.Answer
  | find condition options => m.find condition options
  | load condition options => m.load condition options
  | skip offset => m.skip offset
  | first => m.first
  | last => m.last
  | count condition => m.count condition
  | erase condition => m.erase condition
  | insert => m.insert
  | update => m.update
  | set field v => m.adopt (m.set field v)
  | get field => m.answer (m.get field)
  | cast => m.answer m.cast
  | copyFrom hive => m.adopt (m.copyFrom hive)
  | copyTo hive => m.answer ((m.copyTo hive).map fun _ => ())
  | contains field => m.answer (.ok (m.contains field))
  | clear field => m.adopt (.ok (m.clear field))
  | isDry => m.answer (.ok m.isDry)
  | reset => m.adopt (.ok m.reset)

/-- The record of the caller that an operation writes to, before it. -/
def hiveBefore : Operation → Row
  | copyTo hive => hive
  | _ => .empty

/-- The record of the caller that an operation writes to, after it. -/
def hiveAfter (m : Mapper σ) : Operation → Row
  | copyTo hive =>
      match m.copyTo hive with
      | .error _ => hive
      | .ok hive => hive
  | _ => .empty

end Operation

end Mapper
end RecordFilter
