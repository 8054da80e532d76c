/-
Conditions: a template and the values bound to its placeholders, in order. Reading a condition
gives its filter tree, or nothing when the template has no tokens, which means that every record
is wanted.

The checks come in a fixed order. A literal left open is found first; then the placeholders of all
fragments are counted against the values; then the fragments are resolved from left to right; and
last the parentheses are grouped.
-/
import RecordFilter.Clause.Reader
import RecordFilter.Condition.Grouping
import RecordFilter.Template.Token

namespace RecordFilter

structure Condition where
  template : String
  values : List Value
deriving DecidableEq

namespace Condition

/-- A condition in its list form: the template first and the values behind it. -/
def ofItems : List Value → Except Error Condition
  | [] => .error (.malformedClause "")
  | .str template :: values => .ok { template, values }
  | other :: _ => .error (.malformedClause other.inspect)

/-- A condition whose template is blank. -/
def isBlank (c : Condition) : Bool :=
  Text.allBlank c.template

/-- The number of placeholders in the fragments among the tokens. -/
def countPlaceholders (template : List Char) : List Token → Except Error Nat
  | [] => .ok 0
  | token :: rest =>
      match token.kind with
      | .fragment =>
          match Template.tokenText template token, countPlaceholders template rest with
          | .ok text, .ok n => .ok (Quote.placeholders text + n)
          | .error e, _ => .error e
          | _, .error e => .error e
      | _ => countPlaceholders template rest

/-- Resolves the fragments among the tokens, each taking its value from the front of the list. -/
def resolve (template : List Char) : List Token → List Value → Except Error (List Grouping.Item)
  | [], _ => .ok []
  | token :: rest, values =>
      match token.kind with
      | .openParen => (resolve template rest values).map (.opening token.start :: ·)
      | .closeParen => (resolve template rest values).map (.closing token.start :: ·)
      | .and => (resolve template rest values).map (.and :: ·)
      | .or => (resolve template rest values).map (.or :: ·)
      | .fragment =>
          match Template.tokenText template token with
          | .error e => .error e
          | .ok text =>
              match Clause.read text values with
              | .error e => .error e
              | .ok (clause, values) => (resolve template rest values).map (.leaf clause :: ·)

/-- What reading a condition gives: the tree, if the template has one, and the mixed levels that
were met. -/
structure Reading where
  tree : Except Error (Option Tree)
  mixed : List (Option Nat)

def Reading.fail (e : Error) : Reading :=
  { tree := .error e, mixed := [] }

/-- The items of a condition, or nothing if the template has no tokens. -/
def items? (c : Condition) : Except Error (Option (List Grouping.Item)) :=
  let template := c.template.toList
  match Template.tokens template with
  | .error e => .error e
  | .ok [] => .ok none
  | .ok tokens =>
      match countPlaceholders template tokens with
      | .error e => .error e
      | .ok placeholders =>
          if placeholders ≠ c.values.length then
            .error (.placeholderMismatch placeholders c.values.length)
          else (resolve template tokens c.values).map some

def read (c : Condition) : Reading :=
  match c.items? with
  | .error e => .fail e
  | .ok none => { tree := .ok none, mixed := [] }
  | .ok (some items) =>
      let grouped := Grouping.group c.template items
      { tree := grouped.tree.map some, mixed := grouped.mixed }

/-- The filter tree of a condition; none if it wants every record. -/
def parse (c : Condition) : Except Error (Option Tree) :=
  c.read.tree

end Condition
end RecordFilter
