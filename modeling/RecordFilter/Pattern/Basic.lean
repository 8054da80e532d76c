/-
The operand of a LIKE comparison with its wildcards resolved. A percent sign at either end of the
text is a wildcard and says where the rest may stand; anywhere else it is an ordinary character.
-/
import RecordFilter.Text.Inspect

namespace RecordFilter

inductive Anchor where
  | contains
  | startsWith
  | endsWith
  | exact
deriving DecidableEq, Repr

structure Pattern where
  needle : String
  anchor : Anchor
deriving DecidableEq, Repr

namespace Pattern

/-- Resolves the wildcards at the ends of a text. One percent sign alone is a wildcard at both
ends of an empty needle. -/
def ofLike (text : List Char) : Pattern :=
  if text = ['%'] then { needle := "", anchor := .contains }
  else
    match text.head? == some '%', text.getLast? == some '%' with
    | true, true => { needle := String.ofList text.tail.dropLast, anchor := .contains }
    | false, true => { needle := String.ofList text.dropLast, anchor := .startsWith }
    | true, false => { needle := String.ofList text.tail, anchor := .endsWith }
    | false, false => { needle := String.ofList text, anchor := .exact }

def anchorName : Anchor → String
  | .contains => "Contains"
  | .startsWith => "StartsWith"
  | .endsWith => "EndsWith"
  | .exact => "Exact"

def inspect (p : Pattern) : String :=
  "Pattern \x7b needle: " ++ Text.inspect p.needle ++ ", anchor: " ++ anchorName p.anchor ++ " \x7d"

end Pattern
end RecordFilter
