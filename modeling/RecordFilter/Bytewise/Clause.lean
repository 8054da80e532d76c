/-
Reading a fragment by position.  The operator is found at a position, the sides are what stands in
front of it and behind it, and the content of a quoted literal is what is left of it without its
first and its last byte.
-/
import RecordFilter.Bytewise.Template
import RecordFilter.Clause.Reader

namespace RecordFilter
namespace Bytewise

open Clause (RightSide)

/-! ## Operators -/

/-- The operator that stands at a position, if one of these spellings does. -/
def operatorAt (bytes : List UInt8) (start : Nat) :
    List Operator.Spelling → Except (Stop Error) (Option Operator.Located)
  | [] => .ok none
  | s :: others =>
      let stop := start + s.text.length
      if bytes.length < stop then operatorAt bytes start others
      else do
        let name ← between bytes start stop
        if !spells name s.text then operatorAt bytes start others
        else
          let inWord ← if s.operator = .like then
              (wordBefore bytes start).map (· || bytes[stop]?.any isWordByte)
            else .ok false
          if inWord then operatorAt bytes start others
          else return some { start, stop, operator := s.operator }

/-- The position of the byte that closes a literal, or the end. -/
def literalClose (bytes : List UInt8) (quote : UInt8) (current : Nat) : Except (Stop Error) Nat :=
  if _h : current < bytes.length then
    match itemAt bytes current with
    | .error e => .error e
    | .ok b => if b != quote then literalClose bytes quote (current + 1) else .ok current
  else .ok current
termination_by bytes.length - current

theorem le_literalClose {bytes : List UInt8} {quote : UInt8} {current close : Nat}
    (h : literalClose bytes quote current = .ok close) : current ≤ close := by
  fun_induction literalClose bytes quote current with
  | case1 => cases h
  | case2 current _ b _ _ ih =>
      have hle := ih h
      omega
  | case3 => cases h; omega
  | case4 => cases h; omega

/-- The leftmost operator from a position on. -/
def findFrom (bytes : List UInt8) (current : Nat) :
    Except (Stop Error) (Option Operator.Located) :=
  if _h : current < bytes.length then
    match itemAt bytes current with
    | .error e => .error e
    | .ok b =>
        if Quote.isQuote (char b) then
          match _hclose : literalClose bytes b (current + 1) with
          | .error e => .error e
          | .ok close => findFrom bytes (close + 1)
        else
          match operatorAt bytes current Operator.spellings with
          | .error e => .error e
          | .ok (some located) => .ok (some located)
          | .ok none => findFrom bytes (current + 1)
  else .ok none
termination_by bytes.length - current
decreasing_by
  · have hle := le_literalClose _hclose
    omega
  · omega

def findOperator (fragment : List Char) : Except (Stop Error) (Option Operator.Located) :=
  findFrom (Text.encode fragment) 0

/-! ## Sides -/

def isIdentifier (name : List Char) : Except (Stop Error) Bool :=
  let bytes := Text.encode name
  if bytes.isEmpty then .ok false
  else do
    let first ← itemAt bytes 0
    return !Text.isAsciiDigit (char first) && bytes.all isWordByte

/-- The content of a quoted literal: without the quotes, which are one byte long. -/
def quoted? (text : List Char) : Except (Stop Error) (Option (List Char)) :=
  let bytes := Text.encode text
  match bytes.head?, bytes.getLast? with
  | some first, some last =>
      if Quote.isQuote (char first) && first == last && 2 ≤ bytes.length then do
        let stop ← minus (Text.byteLength text) 1
        let content ← textBetween text 1 stop
        return some content
      else .ok none
  | _, _ => .ok none

def rightSide? (text : List Char) : Except (Stop Error) (Option RightSide) :=
  if text = ['?'] then .ok (some .placeholder)
  else do
    match ← quoted? text with
    | some content => return some (.literal (.str (String.ofList content)))
    | none =>
        match Clause.wordValue? text, Value.readNumber? text with
        | some v, _ => return some (.literal v)
        | none, some v => return some (.literal v)
        | none, none =>
            if ← isIdentifier text then return some (.field (String.ofList text)) else return none

/-! ## Patterns -/

def stripFront? (c : Char) : List Char → Option (List Char)
  | [] => none
  | d :: rest => if d = c then some rest else none

def stripBack? (c : Char) (text : List Char) : Option (List Char) :=
  if text.getLast? = some c then some text.dropLast else none

/-- Resolves the wildcards at the ends of a text. -/
def ofLike (text : List Char) : Except (Stop Error) Pattern :=
  if text = ['%'] then .ok { needle := "", anchor := .contains }
  else
    match stripFront? '%' text, stripBack? '%' text with
    | some rest, some _ => do
        let stop ← minus (Text.byteLength rest) 1
        let needle ← textUpTo rest stop
        return { needle := String.ofList needle, anchor := .contains }
    | none, some rest => .ok { needle := String.ofList rest, anchor := .startsWith }
    | some rest, none => .ok { needle := String.ofList rest, anchor := .endsWith }
    | none, none => .ok { needle := String.ofList text, anchor := .exact }

def likePattern (field : String) : Value → Except (Stop Error) Pattern
  | .str s => ofLike s.toList
  | .int n => ofLike (Number.integerText n.toInt)
  | .float x => ofLike x.plainText
  | v => .error (.fault (.typeMismatch field v.typeName))

def comparison (field : String) (operator : Operator) (v : Value) (source : Source) :
    Except (Stop Error) Clause :=
  match operator with
  | .like => do
      let p ← likePattern field v
      return .compare field .like (.pattern p) source
  | operator => .ok (.compare field operator (.value v) source)

/-! ## Fragments -/

/-- The clause of a field, an operator and the text behind it. -/
def ofRightSide (fragment field : List Char) (operator : Operator) (right : List Char)
    (values : List Value) : Except (Stop Error) (Clause × List Value) := do
  let malformed := Stop.fault (.malformedClause (String.ofList fragment))
  let name := String.ofList field
  match ← rightSide? (Text.trim Text.isBlank right), values with
  | none, _ => throw malformed
  | some .placeholder, [] => throw malformed
  | some .placeholder, v :: values =>
      let clause ← comparison name operator v .placeholder
      return (clause, values)
  | some (.literal v), values =>
      let clause ← comparison name operator v .written
      return (clause, values)
  | some (.field other), values =>
      if operator = .like then throw malformed else return (.fields name operator other, values)

/-- Reads a fragment. -/
def readFragment (fragment : List Char) (values : List Value) :
    Except (Stop Error) (Clause × List Value) := do
  let fragment := Text.trim Text.isBlank fragment
  let malformed := Stop.fault (.malformedClause (String.ofList fragment))
  match ← findOperator fragment with
  | none =>
      if 0 < Quote.placeholders fragment then throw malformed
      else return (.bare (String.ofList fragment), values)
  | some located =>
      let left ← textUpTo fragment located.start
      let field := Text.trim Text.isBlank left
      if ← isIdentifier field then
        let right ← textOnFrom fragment located.stop
        ofRightSide fragment field located.operator right values
      else throw malformed

end Bytewise
end RecordFilter
