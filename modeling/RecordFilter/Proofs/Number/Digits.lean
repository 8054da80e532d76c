/-
Decimal digits and the numbers that they write.  A whole number is read back from its digits, with
its sign and within a word: `readWord?_integerText`, `readCount?_digitsOf`.
-/
import Mathlib.Tactic.Ring
import RecordFilter.Number.Integer
import RecordFilter.Text.Blank

namespace RecordFilter
namespace Number

open Text

/-! ## Digits -/

theorem valueOf_eq (digits : List Char) : valueOf digits = Nat.ofDigitChars 10 digits 0 :=
  Nat.ofDigitChars_eq_foldl.symm

@[simp] theorem valueOf_digitsOf (n : Nat) : valueOf (digitsOf n) = n := by
  rw [valueOf_eq, digitsOf, Nat.ofDigitChars_ten_toDigits]

theorem valueOf_append (left right : List Char) :
    valueOf (left ++ right) = valueOf left * 10 ^ right.length + valueOf right := by
  simp only [valueOf_eq]
  rw [Nat.ofDigitChars_append, Nat.ofDigitChars_eq_ofDigitChars_zero, Nat.mul_comm]

theorem valueOf_cons (c : Char) (digits : List Char) :
    valueOf (c :: digits) = digitValue c * 10 ^ digits.length + valueOf digits := by
  have hfirst : valueOf [c] = digitValue c := Nat.zero_add _
  have hsplit := valueOf_append [c] digits
  rwa [hfirst] at hsplit

theorem valueOf_lt {digits : List Char} (h : digits.all isAsciiDigit = true) :
    valueOf digits < 10 ^ digits.length := by
  induction digits with
  | nil => exact Nat.one_pos
  | cons c rest ih =>
      rw [List.all_cons, Bool.and_eq_true] at h
      have hdigit : digitValue c ≤ 9 := by
        have hc := h.1
        rw [isAsciiDigit, Bool.and_eq_true, decide_eq_true_eq, decide_eq_true_eq] at hc
        exact Nat.sub_le_of_le_add hc.2
      have hrest := ih h.2
      have hmul := Nat.mul_le_mul_right (10 ^ rest.length) hdigit
      rw [valueOf_cons, List.length_cons, Nat.pow_succ]
      omega

theorem valueOf_replicate (n : Nat) : valueOf (List.replicate n '0') = 0 := by
  rw [valueOf_eq, Nat.ofDigitChars_replicate_zero, Nat.mul_zero]

theorem digitsOf_ne_nil (n : Nat) : digitsOf n ≠ [] :=
  Nat.toDigits_ne_nil

theorem isAsciiDigit_of_isDigit {c : Char} (h : c.isDigit = true) : isAsciiDigit c = true := by
  rw [Char.isDigit, Bool.and_eq_true, decide_eq_true_eq, decide_eq_true_eq] at h
  rw [isAsciiDigit, Bool.and_eq_true, decide_eq_true_eq, decide_eq_true_eq]
  exact h

theorem all_digitsOf (n : Nat) : (digitsOf n).all isAsciiDigit = true := by
  rw [List.all_eq_true]
  intro c hc
  exact isAsciiDigit_of_isDigit (Nat.isDigit_of_mem_toDigits (by omega) (by omega) hc)

/-- Digits that end in zeros are the digits in front of the zeros, shifted. -/
theorem valueOf_trimEnd (digits : List Char) :
    ∃ zeros, digits.length = (trimEnd (· == '0') digits).length + zeros ∧
      valueOf digits = valueOf (trimEnd (· == '0') digits) * 10 ^ zeros := by
  obtain ⟨tail, hdigits, htail⟩ := exists_trimEnd_append (· == '0') digits
  have hzeros : tail = List.replicate tail.length '0' := by
    apply List.eq_replicate_of_mem
    intro c hc
    exact beq_iff_eq.mp (List.all_eq_true.mp htail c hc)
  refine ⟨tail.length, ?_, ?_⟩
  · rw [← List.length_append, ← hdigits]
  · have hsplit : valueOf digits = valueOf (trimEnd (· == '0') digits ++ tail) := by rw [← hdigits]
    rw [hsplit, valueOf_append, hzeros, valueOf_replicate, List.length_replicate, Nat.add_zero]

/-! ## Whole numbers -/

theorem unsigned?_of_digits {text : List Char} (hne : text ≠ [])
    (hall : text.all isAsciiDigit = true) : unsigned? text = some (valueOf text) := by
  have hempty : text.isEmpty = false := List.isEmpty_eq_false_iff.mpr hne
  rw [unsigned?, hempty, hall]
  rfl

theorem signed?_of_digits {text : List Char} (hne : text ≠ [])
    (hall : text.all isAsciiDigit = true) :
    signed? text = some (valueOf text : Int) := by
  cases text with
  | nil => exact absurd rfl hne
  | cons c rest =>
      have hc : isAsciiDigit c = true := by
        rw [List.all_cons, Bool.and_eq_true] at hall
        exact hall.1
      have hdigits := unsigned?_of_digits hne hall
      unfold signed?
      split
      · rename_i heq
        cases heq
        cases hc
      · rename_i heq
        cases heq
        cases hc
      · rw [hdigits]
        rfl

theorem signed?_integerText (n : Int) : signed? (integerText n) = some n := by
  unfold integerText
  split
  · rename_i hneg
    rw [signed?, unsigned?_of_digits (digitsOf_ne_nil _) (all_digitsOf _), valueOf_digitsOf]
    show some (-(n.natAbs : Int)) = some n
    congr 1
    omega
  · rename_i hpos
    rw [signed?_of_digits (digitsOf_ne_nil _) (all_digitsOf _), valueOf_digitsOf]
    congr 1
    omega

@[simp] theorem readWord?_integerText (n : Int64) : readWord? (integerText n.toInt) = some n := by
  rw [readWord?, signed?_integerText, Option.bind_some, word?_toInt]

/-- A count is read back from its digits if it fits a word. -/
theorem readCount?_digitsOf (n : Nat) :
    readCount? (digitsOf n) = if n < wordCount then some n else none := by
  have hall := all_digitsOf n
  have hread : unsigned? (digitsOf n) = some n := by
    rw [unsigned?_of_digits (digitsOf_ne_nil n) hall, valueOf_digitsOf]
  have hplus : ∀ rest, digitsOf n ≠ '+' :: rest := by
    intro rest heq
    rw [heq, List.all_cons, Bool.and_eq_true] at hall
    cases hall.1
  unfold readCount?
  split
  · rename_i rest heq
    exact absurd heq (hplus rest)
  · dsimp only
    rw [hread, Option.filter_some]
    simp only [decide_eq_true_eq]

theorem integerText_natCast (n : Nat) : integerText n = digitsOf n := by
  unfold integerText
  split
  · omega
  · rw [Int.natAbs_natCast]

end Number
end RecordFilter
