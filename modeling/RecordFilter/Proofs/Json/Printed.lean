/-
A JSON value is taken apart again from its text: `read?_print`.  The text of a value stands in front
of other text, which must not go on with a numeral, and is followed over the constructors of the
value, an array and an object from one item or member to the next.

Each step of the reader goes with a character of the text, and going into an array or an object takes
two steps: so twice as many steps as characters are enough.
-/
import RecordFilter.Proofs.Json.Numerals
import RecordFilter.Proofs.Json.Strings

namespace RecordFilter
namespace Json

open Number Text
open Written (isSpace items? members? number? skipSpace value?)

mutual
/-- How a value is written: what its text is taken apart to. -/
def written : Json → Written
  | .null => .null
  | .bool b => .bool b
  | .int n => .number (intNumeral n)
  | .float (.finite negative rank) => .number (floatNumeral negative rank)
  | .float _ => .null
  | .string s => .string (s.toList.map pieceOf)
  | .array items => .array (writtenItems items)
  | .object members => .object (writtenMembers members)

def writtenItems : List Json → List Written
  | [] => []
  | v :: rest => written v :: writtenItems rest

def writtenMembers : List (String × Json) → List (List Piece × Written)
  | [] => []
  | (name, v) :: rest => (name.toList.map pieceOf, written v) :: writtenMembers rest
end

/-! ## First characters -/

theorem skipSpace_cons {c : Char} (h : isSpace c = false) (text : List Char) :
    skipSpace (c :: text) = c :: text := by
  rw [skipSpace, List.dropWhile_cons, h]
  rfl

theorem isSpace_of_isAsciiDigit {c : Char} (h : isAsciiDigit c = true) : isSpace c = false := by
  refine Bool.eq_false_iff.mpr fun hspace => ?_
  simp only [isSpace, Bool.or_eq_true, beq_iff_eq] at hspace
  rcases hspace with ((rfl | rfl) | rfl) | rfl <;> cases h

/-- A numeral starts with a digit or with a minus sign. -/
theorem exists_text_cons {n : Numeral} (h : n.Proper) :
    ∃ c text, n.text = c :: text ∧ (isAsciiDigit c = true ∨ c = '-') := by
  rw [Numeral.text]
  cases n.negative with
  | true => exact ⟨'-', n.magnitudeText, rfl, Or.inr rfl⟩
  | false =>
      have hall := h.all_whole
      cases hwhole : n.whole with
      | nil => exact absurd hwhole h.whole_ne_nil
      | cons c digits =>
          rw [hwhole, List.all_cons, Bool.and_eq_true] at hall
          refine ⟨c, digits ++ (fractionText n.fraction ++ exponentText n.exponent), ?_,
            Or.inl hall.1⟩
          rw [if_neg Bool.false_ne_true, Numeral.magnitudeText, hwhole, List.cons_append]

/-- Where a numeral stands, a numeral is read. -/
theorem value?_numeral {n : Numeral} (h : n.Proper) {rest : List Char} (hrest : EndsNumeral rest)
    (steps : Nat) : value? (steps + 1) (n.text ++ rest) = some (.number n, rest) := by
  have hnumber := number?_append h hrest
  obtain ⟨c, text, htext, hc⟩ := exists_text_cons h
  rw [htext, List.cons_append] at hnumber ⊢
  have hspace : isSpace c = false := by
    rcases hc with hdigit | rfl
    · exact isSpace_of_isAsciiDigit hdigit
    · decide
  have hne : ∀ d, isAsciiDigit d = false → d ≠ '-' → c ≠ d := by
    rintro d hdigit hminus rfl
    rcases hc with hc | hc
    · rw [hdigit] at hc
      cases hc
    · exact hminus hc
  rw [value?, skipSpace_cons hspace]
  split
  · rename_i heq
    exact absurd (List.cons.inj heq).1 (hne 'n' (by decide) (by decide))
  · rename_i heq
    exact absurd (List.cons.inj heq).1 (hne 't' (by decide) (by decide))
  · rename_i heq
    exact absurd (List.cons.inj heq).1 (hne 'f' (by decide) (by decide))
  · rename_i heq
    exact absurd (List.cons.inj heq).1 (hne '"' (by decide) (by decide))
  · rename_i heq
    exact absurd (List.cons.inj heq).1 (hne '[' (by decide) (by decide))
  · rename_i heq
    exact absurd (List.cons.inj heq).1 (hne '\x7b' (by decide) (by decide))
  · exact hnumber

/-- The text of a value starts with a character that is neither a space nor a closing bracket. -/
theorem exists_print_cons (j : Json) :
    ∃ c text, j.print = c :: text ∧ isSpace c = false ∧ c ≠ ']' := by
  have hnumeral : ∀ {n : Numeral}, n.Proper →
      ∃ c text, n.text = c :: text ∧ isSpace c = false ∧ c ≠ ']' := by
    intro n hn
    obtain ⟨c, text, htext, hc⟩ := exists_text_cons hn
    refine ⟨c, text, htext, ?_⟩
    rcases hc with hdigit | rfl
    · refine ⟨isSpace_of_isAsciiDigit hdigit, ?_⟩
      rintro rfl
      cases hdigit
    · decide
  cases j with
  | null => exact ⟨'n', _, rfl, by decide⟩
  | bool b => cases b <;> exact ⟨_, _, rfl, by decide⟩
  | int n =>
      rw [print, ← text_intNumeral]
      exact hnumeral (proper_intNumeral n)
  | float x =>
      cases x with
      | finite negative rank =>
          rw [print, ← text_floatNumeral negative rank.isLt]
          exact hnumeral (proper_floatNumeral rank.isLt negative)
      | nan => exact ⟨'n', _, rfl, by decide⟩
      | infinite negative => exact ⟨'n', _, rfl, by decide⟩
  | string s => exact ⟨'"', _, rfl, by decide⟩
  | array items => cases items <;> exact ⟨'[', _, rfl, by decide⟩
  | object members => cases members <;> exact ⟨'\x7b', _, rfl, by decide⟩

theorem length_print_pos (j : Json) : 0 < j.print.length := by
  obtain ⟨c, text, htext, _⟩ := exists_print_cons j
  rw [htext, List.length_cons]
  exact Nat.succ_pos _

theorem endsNumeral_printItems (rest : List Json) (text : List Char) :
    EndsNumeral (printItems rest ++ text) := by
  cases rest with
  | nil => exact endsNumeral_cons (by decide) _
  | cons v rest => exact endsNumeral_cons (by decide) _

theorem endsNumeral_printMembers (rest : List (String × Json)) (text : List Char) :
    EndsNumeral (printMembers rest ++ text) := by
  cases rest with
  | nil => exact endsNumeral_cons (by decide) _
  | cons member rest => exact endsNumeral_cons (by decide) _

/-! ## Taking texts apart -/

/-- An array is taken apart as its items are. -/
theorem value?_array {v : Json} {items : List Json} {steps : Nat} {rest : List Char}
    {parts : List Written}
    (h : items? steps (v.print ++ (printItems items ++ rest)) = some (parts, rest)) :
    value? (steps + 1) ((Json.array (v :: items)).print ++ rest) = some (.array parts, rest) := by
  obtain ⟨c, text, htext, hspace, hclosing⟩ := exists_print_cons v
  rw [print, List.cons_append, List.cons_append, List.append_assoc, value?,
    skipSpace_cons (by decide)]
  rw [htext, List.cons_append] at h ⊢
  simp only [skipSpace_cons hspace]
  split
  · rename_i heq
    exact absurd (List.cons.inj heq).1 hclosing
  · rw [h]

/-- An object is taken apart as its members are. -/
theorem value?_object {name : String} {v : Json} {members : List (String × Json)} {steps : Nat}
    {rest : List Char} {parts : List (List Piece × Written)}
    (h : members? steps (stringText name ++ ':' :: (v.print ++ (printMembers members ++ rest))) =
      some (parts, rest)) :
    value? (steps + 1) ((Json.object ((name, v) :: members)).print ++ rest) =
      some (.object parts, rest) := by
  have htext : (Json.object ((name, v) :: members)).print ++ rest =
      '\x7b' :: (stringText name ++ ':' :: (v.print ++ (printMembers members ++ rest))) := by
    rw [print]
    simp only [List.cons_append, List.append_assoc]
  rw [stringText_append] at h htext
  rw [htext, value?, skipSpace_cons (by decide)]
  simp only [skipSpace_cons (show isSpace '"' = false from rfl)]
  split
  · rename_i heq
    exact absurd (List.cons.inj heq).1 (by decide)
  · rw [h]

mutual
theorem value?_print (j : Json) {steps : Nat} (hsteps : 2 * j.print.length ≤ steps)
    {rest : List Char} (hrest : EndsNumeral rest) :
    value? steps (j.print ++ rest) = some (j.written, rest) := by
  have hpos := length_print_pos j
  match steps with
  | 0 => omega
  | steps + 1 =>
    match j with
    | .null => rw [value?]; rfl
    | .bool true => rw [value?]; rfl
    | .bool false => rw [value?]; rfl
    | .int n =>
        rw [print, ← text_intNumeral]
        exact value?_numeral (proper_intNumeral n) hrest steps
    | .float (.finite negative rank) =>
        rw [print, ← text_floatNumeral negative rank.isLt]
        exact value?_numeral (proper_floatNumeral rank.isLt negative) hrest steps
    | .float .nan => rw [value?]; rfl
    | .float (.infinite negative) => rw [value?]; rfl
    | .string s =>
        rw [print, stringText_append, value?, skipSpace_cons (by decide)]
        simp only [stringRest_escaped]
        rfl
    | .array [] => rw [value?]; rfl
    | .array (v :: items) =>
        have hlength : (Json.array (v :: items)).print.length =
            1 + (v.print.length + (printItems items).length) := by
          rw [print, List.length_append, List.length_cons]
          omega
        exact value?_array (items?_print v items (by omega))
    | .object [] => rw [value?]; rfl
    | .object ((name, v) :: members) =>
        have hlength : (Json.object ((name, v) :: members)).print.length =
            1 + ((stringText name).length + 1 + v.print.length +
              (printMembers members).length) := by
          rw [print]
          simp only [List.length_append, List.length_cons]
          omega
        exact value?_object (members?_print name v members (by omega))

theorem items?_print (v : Json) (items : List Json) {steps : Nat}
    (hsteps : 2 * (v.print.length + (printItems items).length) ≤ steps) {rest : List Char} :
    items? steps (v.print ++ (printItems items ++ rest)) =
      some (v.written :: writtenItems items, rest) := by
  have hpos := length_print_pos v
  match steps with
  | 0 => omega
  | steps + 1 =>
    match items with
    | [] =>
        rw [printItems, List.length_singleton] at hsteps
        have hvalue := @value?_print v steps (by omega) _ (endsNumeral_printItems [] rest)
        rw [items?, hvalue, printItems, List.cons_append, List.nil_append]
        simp only [skipSpace_cons (show isSpace ']' = false from rfl)]
        rfl
    | w :: items =>
        rw [printItems, List.length_append, List.length_cons] at hsteps
        have hvalue := @value?_print v steps (by omega) _ (endsNumeral_printItems (w :: items) rest)
        have hitems := @items?_print w items steps (by omega) rest
        rw [items?, hvalue, printItems, List.cons_append, List.cons_append, List.append_assoc]
        simp only [skipSpace_cons (show isSpace ',' = false from rfl), hitems]
        rfl

theorem members?_print (name : String) (v : Json) (members : List (String × Json)) {steps : Nat}
    (hsteps : 2 * ((stringText name).length + 1 + v.print.length + (printMembers members).length) ≤
      steps) {rest : List Char} :
    members? steps (stringText name ++ ':' :: (v.print ++ (printMembers members ++ rest))) =
      some ((name.toList.map pieceOf, v.written) :: writtenMembers members, rest) := by
  have hpos := length_print_pos v
  match steps with
  | 0 => omega
  | steps + 1 =>
    rw [stringText_append, members?, skipSpace_cons (by decide)]
    simp only [stringRest_escaped, skipSpace_cons (show isSpace ':' = false from rfl)]
    match members with
    | [] =>
        rw [printMembers, List.length_singleton] at hsteps
        have hvalue := @value?_print v steps (by omega) _ (endsNumeral_printMembers [] rest)
        rw [hvalue, printMembers, List.cons_append, List.nil_append]
        simp only [skipSpace_cons (show isSpace '\x7d' = false from rfl)]
        rfl
    | (other, w) :: members =>
        rw [printMembers] at hsteps
        simp only [List.length_append, List.length_cons] at hsteps
        have hvalue := @value?_print v steps (by omega) _
          (endsNumeral_printMembers ((other, w) :: members) rest)
        have hmembers := @members?_print other w members steps (by omega) rest
        have htext : printMembers ((other, w) :: members) ++ rest =
            ',' :: (stringText other ++ ':' :: (w.print ++ (printMembers members ++ rest))) := by
          rw [printMembers]
          simp only [List.cons_append, List.append_assoc]
        rw [hvalue, htext]
        simp only [skipSpace_cons (show isSpace ',' = false from rfl), hmembers]
        rfl
end

/-- A whole text is taken apart. -/
theorem read?_print (j : Json) : Written.read? j.print = some j.written := by
  have hvalue := @value?_print j (2 * j.print.length + 2) (by omega) [] endsNumeral_nil
  rw [List.append_nil] at hvalue
  rw [Written.read?, hvalue]
  rfl

end Json
end RecordFilter
