/-
Everything that can go wrong between a condition and a backend filter, as causes; the wording is
in one place, `Error.message`. None of these can be mended along the way: the operation stops, and
nothing partial is handed on.
-/
import RecordFilter.Codec.Fault

namespace RecordFilter

inductive Error where
  /-- The literal that opens here has no closing quote. -/
  | unterminatedString (position : Nat)
  /-- The parenthesis here has no partner. -/
  | unbalancedParens (position : Nat)
  | nestingTooDeep (limit : Nat)
  | emptyGroup
  | malformedClause (text : String)
  | placeholderMismatch (placeholders values : Nat)
  | unsupportedBackend (name : String)
  | unsupportedClause (text : String)
  /-- A value of this type cannot be used for the field. -/
  | typeMismatch (field found : String)
  | missingFieldConfiguration (field : String)
  | invalidOrder (entry : String)
  | codec (field : String) (fault : CodecFault)
  | engine (message : String)
  /-- Two offsets that delimit no part of a text. No operation reports this cause. -/
  | brokenSpan (start stop : Nat)
deriving DecidableEq, Repr

def Error.message : Error → String
  | .unterminatedString position =>
      "Unterminated string literal starting at " ++ toString position
  | .unbalancedParens position => "Unbalanced parentheses near byte " ++ toString position
  | .nestingTooDeep limit => "Parentheses nested deeper than " ++ toString limit ++ " levels"
  | .emptyGroup => "Empty parenthesised group"
  | .malformedClause text => "Malformed clause: '" ++ text ++ "'"
  | .placeholderMismatch placeholders values =>
      "Condition has " ++ toString placeholders ++ " placeholder(s) but " ++ toString values ++
        " value(s) were bound"
  | .unsupportedBackend name => "Unknown DB system not supported: " ++ name
  | .unsupportedClause text => "Clause '" ++ text ++ "' cannot be expressed for this backend"
  | .typeMismatch field found =>
      "Field " ++ field ++ " was given a " ++ found ++ " value it cannot use"
  | .missingFieldConfiguration field => "No field configuration for '" ++ field ++ "'"
  | .invalidOrder entry => "Invalid sort order: '" ++ entry ++ "'"
  | .codec field fault => "Codec error in field " ++ field ++ ": " ++ fault.message
  | .engine message => "Engine error: " ++ message
  | .brokenSpan start stop =>
      "No text between bytes " ++ toString start ++ " and " ++ toString stop

/-- An operation that only goes on with the result of another one has a result if that one has. -/
theorem map_eq_ok_iff {ε α β : Type} {f : α → β} {x : Except ε α} {b : β} :
    x.map f = .ok b ↔ ∃ a, x = .ok a ∧ f a = b := by
  cases x with
  | error e => simp [Except.map]
  | ok a => simp [Except.map]

theorem map_eq_error_iff {ε α β : Type} {f : α → β} {x : Except ε α} {e : ε} :
    x.map f = .error e ↔ x = .error e := by
  cases x with
  | error e' => simp [Except.map]
  | ok a => simp [Except.map]

/-- Two operations one after the other have a result if both of them have one. -/
theorem bind_eq_ok_iff {ε α β : Type} {x : Except ε α} {f : α → Except ε β} {b : β} :
    x >>= f = .ok b ↔ ∃ a, x = .ok a ∧ f a = .ok b := by
  cases x with
  | error e => simp [bind, Except.bind]
  | ok a => simp [bind, Except.bind]

theorem ok_bind {ε α β : Type} (a : α) (f : α → Except ε β) : Except.ok a >>= f = f a :=
  rfl

end RecordFilter
