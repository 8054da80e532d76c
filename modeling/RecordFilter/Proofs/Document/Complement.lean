/-
Equality and inequality with one and the same value, as documents.  The engine here compares JSON
with JSON, and nothing is equal but what is written alike.  To such an engine the operand of
equality is the value that was bound, and the operand of inequality is the number that the value
looks like, or null if it is the word for it.  So the two documents divide the records that have the
field among them if these are one operand, and otherwise all but two kinds: a record that has the
value itself meets both, and one that has the number meets neither.
-/
import Mathlib.Data.Bool.Basic
import RecordFilter.Proofs.Backend.Refusal
import RecordFilter.Proofs.Condition.Printing
import RecordFilter.Proofs.Document.Guarding
import RecordFilter.Record

namespace RecordFilter

/-! ## Operands -/

namespace Value

open Number

theorem number_of_readNumber? {text : List Char} {v : Value} (h : readNumber? text = some v) :
    (∃ n, v = .int n) ∨ ∃ x, v = .float x ∧ x.isFinite = true := by
  rw [readNumber?] at h
  split at h
  · cases h
  · split at h
    · split at h
      · cases h
        exact Or.inl ⟨_, rfl⟩
      · obtain ⟨x, _, hx⟩ := Option.bind_eq_some_iff.mp h
        rw [ofFinite?] at hx
        split at hx
        · rename_i hfinite
          cases hx
          exact Or.inr ⟨x, rfl, hfinite⟩
        · cases hx
    · cases h

/-- A value that is turned into a number or into null was a string, and is none any more. -/
theorem toJson_coerceNumeric_eq_iff {v : Value} :
    v.coerceNumeric.toJson = v.toJson ↔ v.coerceNumeric = v := by
  cases v with
  | str s =>
      rw [coerceNumeric]
      split
      · simp [toJson]
      · cases hread : readNumber? s.toList with
        | none => simp
        | some w =>
            rcases number_of_readNumber? hread with ⟨n, rfl⟩ | ⟨x, rfl, hfinite⟩
            · simp [toJson]
            · simp [toJson, hfinite]
  | null | bool _ | int _ | float _ | list _ | map _ => exact iff_of_true rfl rfl

end Value

/-! ## One clause -/

namespace Condition

open Clause Grouping Template

/-- A field name, an operator other than LIKE and a placeholder. -/
theorem parse_comparison {name : String} (hname : IsName name) (operator : Operator)
    (hlike : operator ≠ .like) (v : Value) :
    parse ⟨name ++ " " ++ operator.symbol ++ " " ++ "?", [v]⟩ =
      .ok (some (.leaf (.compare name operator (.value v) .placeholder))) := by
  have hcarries : Carries (.compare name operator (.value v) .placeholder) v := by
    cases operator with
    | like => exact absurd rfl hlike
    | eq | ne | lt | le | gt | ge => rfl
  exact @parse_text (.compare name operator (.value v) .placeholder) [v] hname
    (.cons hcarries .nil)

end Condition

theorem Storage.filterFor_comparison {s : Storage} (hs : s.backend = .document) {name : String}
    (hname : Clause.IsName name) (operator : Operator) (hlike : operator ≠ .like) {v : Value}
    (hscalar : v.isScalar = true) :
    s.filterFor ⟨name ++ " " ++ operator.symbol ++ " " ++ "?", [v]⟩ =
      .ok (some (.document (.single name (Document.comparison operator v)))) := by
  rw [filterFor_of_tree (Condition.parse_comparison hname operator hlike v), filterOfTree, hs]
  dsimp only
  rw [Document.treeDocument, Document.clauseDocument, if_pos hscalar]
  rfl

/-! ## Exact comparison -/

namespace Document

/-- An operator holds for a field exactly as it is stored, an absent one taken for null. -/
def operatorFits (found : Option Json) (key : String) (operand : Json) : Bool :=
  if key = "$exists" then operand = .bool found.isSome
  else if key = "$eq" then found.getD .null = operand
  else if key = "$ne" then found.getD .null ≠ operand
  else false

def fieldFits (found : Option Json) : Json → Bool
  | .object operators => operators.all fun member => operatorFits found member.1 member.2
  | operand => operatorFits found "$eq" operand

/-- A record fits a document of equality and inequality if each of the fields in it fits. -/
def fits (record : JsonRecord) : Json → Bool
  | .object members =>
      members.all fun member => fieldFits (Json.member? member.1 record.members) member.2
  | _ => false

theorem fits_single (record : JsonRecord) (name : String) (asked : Json) :
    fits record (.single name asked) = fieldFits (Json.member? name record.members) asked := by
  rw [Json.single, fits, List.all_cons, List.all_nil, Bool.and_true]

/-- A stored value fits equality with a scalar if it is the scalar. -/
theorem fieldFits_equal {v : Value} (hscalar : v.isScalar = true) (x : Json) :
    fieldFits (some x) (comparison .eq v) = true ↔ x = v.toJson := by
  cases v with
  | null => simp [comparison, fieldFits, existing, operatorFits, Value.toJson]
  | bool _ | int _ | str _ => simp [comparison, fieldFits, operatorFits, Value.toJson]
  | float y =>
      rw [comparison, Value.toJson]
      · split <;> simp [fieldFits, operatorFits]
      · simp
  | list _ | map _ => cases hscalar

/-- And it fits inequality if it is not what the scalar is taken for. -/
theorem fieldFits_unequal (v : Value) (x : Json) :
    fieldFits (some x) (comparison .ne v) = true ↔ x ≠ v.coerceNumeric.toJson := by
  rw [comparison_of_ne (by decide), if_pos (Or.inl rfl)]
  simp [fieldFits, existing, operatorFits, operatorKey]

/-- The documents of equality and inequality of one field with one scalar, for the records that
have the field.  The first asks for the scalar, the second for anything but what the scalar is
taken for, a number or null if it is text that looks like it.  So just one of them fits unless the
scalar is such a text and the field holds the text, or what it is taken for. -/
theorem complementary_iff {s : Storage} (hs : s.backend = .document) {name : String}
    (hname : Clause.IsName name) {v : Value} (hscalar : v.isScalar = true) :
    ∃ equal unequal,
      s.filterFor ⟨name ++ " = ?", [v]⟩ = .ok (some (.document equal)) ∧
      s.filterFor ⟨name ++ " != ?", [v]⟩ = .ok (some (.document unequal)) ∧
      ∀ (record : JsonRecord) (x : Json), Json.member? name record.members = some x →
        (fits record equal = true ↔ x = v.toJson) ∧
        (fits record unequal = true ↔ x ≠ v.coerceNumeric.toJson) ∧
        (fits record equal = !fits record unequal ↔
          v.coerceNumeric = v ∨ (x ≠ v.toJson ∧ x ≠ v.coerceNumeric.toJson)) := by
  have hequal := Storage.filterFor_comparison hs hname .eq (by decide) hscalar
  have hunequal := Storage.filterFor_comparison hs hname .ne (by decide) hscalar
  simp only [String.append_assoc] at hequal hunequal
  refine ⟨_, _, hequal, hunequal, fun record x hx => ?_⟩
  have hfirst : fits record (.single name (comparison .eq v)) = true ↔ x = v.toJson := by
    rw [fits_single, hx, fieldFits_equal hscalar]
  have hsecond : fits record (.single name (comparison .ne v)) = true ↔
      x ≠ v.coerceNumeric.toJson := by
    rw [fits_single, hx, fieldFits_unequal]
  refine ⟨hfirst, hsecond, ?_⟩
  rw [Bool.eq_not_iff, Ne, Bool.eq_iff_iff, hfirst, hsecond]
  by_cases hsame : v.coerceNumeric = v
  · rw [hsame]
    simp
  · have hdiffer : v.toJson ≠ v.coerceNumeric.toJson := fun h =>
      hsame (Value.toJson_coerceNumeric_eq_iff.mp h.symm)
    by_cases hfield : x = v.toJson
    · simp [hfield, hsame, hdiffer]
    · simp [hfield, hsame]

/-- A text that is no number, for a record that has another text in the field. -/
theorem complementary_of_plain_text :
    let document : Storage := { backend := .document, schema := .empty }
    let record : JsonRecord := { members := [("name", .string "ann")] }
    ∃ equal unequal,
      document.filterFor ⟨"name = ?", [.str "bob"]⟩ = .ok (some (.document equal)) ∧
      document.filterFor ⟨"name != ?", [.str "bob"]⟩ = .ok (some (.document unequal)) ∧
      fits record equal = false ∧ fits record unequal = true := by
  have hname : Clause.IsName "name" := by
    unfold Clause.IsName
    decide
  obtain ⟨equal, unequal, hequal, hunequal, hfits⟩ :=
    complementary_iff (s := { backend := .document, schema := .empty }) rfl hname
      (v := .str "bob") rfl
  obtain ⟨_, hsecond, hone⟩ := hfits { members := [("name", .string "ann")] } (.string "ann") rfl
  have hcoerced : (Value.str "bob").coerceNumeric = .str "bob" := rfl
  have hfit := hsecond.mpr (by rw [hcoerced]; decide)
  refine ⟨equal, unequal, hequal, hunequal, ?_, hfit⟩
  rw [hone.mpr (Or.inl hcoerced), hfit]
  rfl

/-- A field that holds the text of a number fits equality with that text and inequality with the
number. -/
theorem not_complementary_of_numeric_text :
    ¬ ∀ (s : Storage) (name : String) (v : Value) (equal unequal : Json), s.backend = .document →
      Clause.IsName name → v.isScalar = true →
      s.filterFor ⟨name ++ " = ?", [v]⟩ = .ok (some (.document equal)) →
      s.filterFor ⟨name ++ " != ?", [v]⟩ = .ok (some (.document unequal)) →
      ∀ record : JsonRecord, Json.member? name record.members ≠ none →
        fits record equal = !fits record unequal := by
  intro h
  have hname : Clause.IsName "f" := by
    unfold Clause.IsName
    decide
  have hcoerced : (Value.str "5").coerceNumeric = .int 5 := rfl
  have hequal := (fieldFits_equal (v := .str "5") rfl (.string "5")).mpr rfl
  have hunequal := (fieldFits_unequal (.str "5") (.string "5")).mpr (by rw [hcoerced]; decide)
  have hone := h { backend := .document, schema := .empty } "f" (.str "5") _ _ rfl hname rfl
    (Storage.filterFor_comparison rfl hname .eq (by decide) rfl)
    (Storage.filterFor_comparison rfl hname .ne (by decide) rfl)
    { members := [("f", .string "5")] } (by decide)
  rw [fits_single, fits_single] at hone
  exact absurd (hequal.symm.trans (hone.trans (congrArg not hunequal))) (by decide)

end Document
end RecordFilter
