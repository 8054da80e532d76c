/-
Comparing whole numbers.  Numbers are ordered by where they stand on the line as double-precision
numbers, and this goes for two whole numbers as well, although both are known exactly.  Rounding
keeps their order, so a comparison of whole numbers comes out as it should unless the two are
rounded to the same number: then it comes out as if they were equal.  Up to 2^53 on both sides of
zero nothing is rounded.
-/
import RecordFilter.Proofs.Number.Ordering
import RecordFilter.Proofs.Value.Order

namespace RecordFilter

open Number

theorem Value.order?_ints (a b : Int64) :
    Value.order? (.int a) (.int b) =
      some (if Binary64.ofInt a.toInt = Binary64.ofInt b.toInt then .eq
        else compare a.toInt b.toInt) := by
  rw [Value.order?_of_numbers rfl rfl, Binary64.compare_ofInt]

namespace Operator

/-- What an operator says of two whole numbers. -/
def onIntegers (operator : Operator) (m n : Int) : Bool :=
  match operator with
  | .eq => m = n
  | .ne => m ≠ n
  | .lt => m < n
  | .le => m ≤ n
  | .gt => m > n
  | .ge => m ≥ n
  | .like => false

theorem admits_compare (operator : Operator) (m n : Int) :
    operator.admits (compare m n) = operator.onIntegers m n := by
  rcases Int.lt_trichotomy m n with h | rfl | h
  · rw [compare_lt_iff_lt.mpr h]
    cases operator <;> simp [admits, onIntegers, h, Int.ne_of_lt h, Int.le_of_lt h]
  · rw [compare_eq_iff_eq.mpr rfl]
    cases operator <;> simp [admits, onIntegers]
  · rw [compare_gt_iff_gt.mpr h]
    cases operator <;> simp [admits, onIntegers, h, Int.ne_of_gt h, Int.le_of_lt h]

theorem holds_ints (operator : Operator) (a b : Int64) :
    operator.holds (.int a) (.int b) =
      if Binary64.ofInt a.toInt = Binary64.ofInt b.toInt then operator.onIntegers a.toInt a.toInt
      else operator.onIntegers a.toInt b.toInt := by
  rw [holds_eq_verdict rfl, Value.order?_ints, verdict]
  split
  · rw [← admits_compare, compare_eq_iff_eq.mpr rfl]
  · rw [admits_compare]

/-- Whole numbers are compared as such by all operators exactly if rounding keeps them apart, and
equality is the one to tell. -/
theorem holds_ints_exact_iff {a b : Int64} :
    (∀ operator : Operator,
        operator.holds (.int a) (.int b) = operator.onIntegers a.toInt b.toInt) ↔
      (Binary64.ofInt a.toInt = Binary64.ofInt b.toInt → a = b) := by
  constructor
  · intro h hsame
    have heq := h .eq
    rw [holds_ints, if_pos hsame] at heq
    exact Int64.toInt_inj.mp (of_decide_eq_true (heq.symm.trans (decide_eq_true rfl)))
  · intro h operator
    rw [holds_ints]
    split
    · rename_i hsame
      rw [h hsame]
    · rfl

end Operator

/-! ## Clauses -/

namespace Clause

variable {ρ : Type} [Record ρ]

theorem holds_compare_value {record : ρ} {field : String} {v : Value}
    (hfield : Record.field? record field = some v) (operator : Operator) (bound : Value)
    (source : Source) :
    (compare field operator (.value bound) source).holds record = operator.holds v bound := by
  rw [holds, hfield]
  rfl

/-- A clause that compares a field with a whole number, for a record that has a whole number
there: it holds as its operator says of the two numbers, or of one and the same if rounding makes
no difference between them.  So all operators are right about two numbers exactly if rounding
keeps them apart, which it does up to 2^53. -/
theorem holds_compare_int {record : ρ} {field : String} {a : Int64}
    (hfield : Record.field? record field = some (.int a)) (b : Int64) (source : Source) :
    (∀ operator, (compare field operator (.value (.int b)) source).holds record =
        if Binary64.ofInt a.toInt = Binary64.ofInt b.toInt
        then operator.onIntegers a.toInt a.toInt else operator.onIntegers a.toInt b.toInt) ∧
      ((∀ operator, (compare field operator (.value (.int b)) source).holds record =
          operator.onIntegers a.toInt b.toInt) ↔
        (Binary64.ofInt a.toInt = Binary64.ofInt b.toInt → a = b)) ∧
      (a.toInt.natAbs ≤ 2 ^ 53 → b.toInt.natAbs ≤ 2 ^ 53 →
        ∀ operator, (compare field operator (.value (.int b)) source).holds record =
          operator.onIntegers a.toInt b.toInt) := by
  simp only [holds_compare_value hfield]
  refine ⟨fun operator => operator.holds_ints a b, Operator.holds_ints_exact_iff, ?_⟩
  intro ha hb
  exact Operator.holds_ints_exact_iff.mpr fun hsame =>
    Int64.toInt_inj.mp (Binary64.ofInt_injective ha hb hsame)

/-- Two numbers near the end of the range that are told apart. -/
theorem holds_compare_int_of_far_numbers :
    (compare "a" .gt (.value (.int 9223372036854774784)) .placeholder).holds
      ({ members := [("a", .int 9223372036854775807)] } : JsonRecord) = true := by
  obtain ⟨_, hexact, _⟩ := @holds_compare_int JsonRecord _
    { members := [("a", .int 9223372036854775807)] } "a" 9223372036854775807 (by cbv)
    9223372036854774784 .placeholder
  rw [hexact.mpr (fun hsame => absurd hsame (by decide +kernel))]
  decide

/-- The number next above 2^53 counts as equal to 2^53. -/
theorem not_holds_compare_as_integers :
    ¬ ∀ (operator : Operator) (a b : Int64), operator ≠ .like → ∀ record : JsonRecord,
      Record.field? record "a" = some (.int a) →
        (compare "a" operator (.value (.int b)) .placeholder).holds record =
          operator.onIntegers a.toInt b.toInt := by
  intro h
  have heq := h .eq 9007199254740992 9007199254740993 (by decide)
    { members := [("a", .int 9007199254740992)] } (by cbv)
  rw [holds_compare_value (by cbv)] at heq
  revert heq
  decide +kernel

end Clause
end RecordFilter
