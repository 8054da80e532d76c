/-
Quoted literals inside a template. A quote, single or double, opens a literal, and the next quote
of the same kind closes it; there are no escapes. Everything that scans a template keeps the same
one piece of state, the quote of the literal that it is in, and moves it with `Quote.step`.
-/
import RecordFilter.Text.Word

namespace RecordFilter
namespace Quote

/-- A character that opens a literal. -/
def isQuote (c : Char) : Bool :=
  c == '\'' || c == '"'

/-- The literal open behind a character, given the literal open before it. -/
def step (opened : Option Char) (c : Char) : Option Char :=
  match opened with
  | none => if isQuote c then some c else none
  | some q => if c = q then none else some q

/-- The literal open at the end of a text. -/
def after (opened : Option Char) (text : List Char) : Option Char :=
  text.foldl step opened

/-- The number of placeholders outside literals, in a text that starts in the given state. -/
def placeholdersFrom (opened : Option Char) : List Char → Nat
  | [] => 0
  | c :: rest =>
      (if opened.isNone && c == '?' then 1 else 0) + placeholdersFrom (step opened c) rest

def placeholders (text : List Char) : Nat :=
  placeholdersFrom none text

@[simp] theorem after_nil (opened : Option Char) : after opened [] = opened := rfl

@[simp] theorem after_cons (opened : Option Char) (c : Char) (rest : List Char) :
    after opened (c :: rest) = after (step opened c) rest := rfl

theorem after_append (opened : Option Char) (left right : List Char) :
    after opened (left ++ right) = after (after opened left) right :=
  List.foldl_append

/-- Counting over two parts is counting over each, the second from where the first ends. -/
theorem placeholdersFrom_append (opened : Option Char) (left right : List Char) :
    placeholdersFrom opened (left ++ right) =
      placeholdersFrom opened left + placeholdersFrom (after opened left) right := by
  induction left generalizing opened with
  | nil => simp [placeholdersFrom]
  | cons c rest ih => simp [placeholdersFrom, ih, Nat.add_assoc]

end Quote
end RecordFilter
