/-
Numbers as literals.  An integer is read back as itself.  A finite number with a fraction is read
back as itself too, unless it is written without one and fits a word: then it is read as the
integer, which is equal to it when the two are compared.
-/
import RecordFilter.Proofs.Number.ReadBack
import RecordFilter.Value.Numeric

namespace RecordFilter

namespace Number

open Text Value

theorem not_blank_of_startsNumber {c : Char} (h : startsNumber c = true) : isBlank c = false := by
  simp only [startsNumber, Bool.or_eq_true, beq_iff_eq] at h
  rcases h with ((hdigit | rfl) | rfl) | rfl
  · exact isBlank_of_isAsciiWord (by rw [isAsciiWord, hdigit, Bool.or_true, Bool.true_or])
  · decide
  · decide
  · decide

/-- A text of digits, signs and points is read as an integer, or else as a number. -/
theorem readNumber?_of_all {text : List Char} (hne : text ≠ [])
    (hall : text.all startsNumber = true) :
    readNumber? text =
      match readWord? text with
      | some n => some (.int n)
      | none => (Binary64.read? text).bind ofFinite? := by
  have hnot : ∀ c ∈ text, isBlank c = false := fun c hc =>
    not_blank_of_startsNumber (List.all_eq_true.mp hall c hc)
  have htrim : trim isBlank text = text := by
    have htrimmed := @trim_append isBlank [] text [] rfl rfl
      (fun c hc => hnot c (List.mem_of_mem_head? hc)) (fun c hc => hnot c (List.mem_of_getLast? hc))
    rw [List.nil_append, List.append_nil] at htrimmed
    exact htrimmed
  have hnumeric : text.all isNumeric = true := by
    rw [List.all_eq_true] at hall ⊢
    intro c hc
    rw [isNumeric, hall c hc, Bool.true_or, Bool.true_or]
  rw [readNumber?, htrim]
  cases text with
  | nil => exact absurd rfl hne
  | cons c rest =>
      have hstart : startsNumber c = true := List.all_eq_true.mp hall c List.mem_cons_self
      dsimp only
      rw [hstart, hnumeric]
      rfl

theorem startsNumber_of_isAsciiDigit {c : Char} (h : isAsciiDigit c = true) :
    startsNumber c = true := by
  rw [startsNumber, h, Bool.true_or, Bool.true_or, Bool.true_or]

theorem all_integerText (n : Int) : (integerText n).all startsNumber = true := by
  have hdigits : (digitsOf n.natAbs).all startsNumber = true := by
    rw [List.all_eq_true]
    exact fun c hc => startsNumber_of_isAsciiDigit (List.all_eq_true.mp (all_digitsOf _) c hc)
  unfold integerText
  split
  · rw [List.all_cons, hdigits]
    rfl
  · exact hdigits

theorem integerText_ne_nil (n : Int) : integerText n ≠ [] := by
  unfold integerText
  split
  · exact List.cons_ne_nil _ _
  · exact digitsOf_ne_nil _

theorem all_plainText {x : Binary64} (hx : x.isFinite = true) :
    x.plainText.all startsNumber = true := by
  cases x with
  | nan => cases hx
  | infinite negative => cases hx
  | finite negative rank =>
      have hmagnitude : (Layout.plain.magnitudeText rank).all startsNumber = true := by
        rw [List.all_eq_true]
        intro c hc
        have hplain := List.all_eq_true.mp (all_magnitudeText rank) c hc
        rw [isDigitOrPoint, Bool.or_eq_true, beq_iff_eq] at hplain
        rcases hplain with hdigit | rfl
        · exact startsNumber_of_isAsciiDigit hdigit
        · rfl
      cases negative with
      | false => exact hmagnitude
      | true =>
          show ('-' :: Layout.plain.magnitudeText rank).all startsNumber = true
          rw [List.all_cons, hmagnitude]
          rfl

theorem plainText_ne_nil (x : Binary64) : x.plainText ≠ [] := by
  intro hnil
  have hread := Binary64.read?_plainText x
  rw [hnil] at hread
  cases hread

theorem readNumber?_integerText (n : Int64) :
    readNumber? (integerText n.toInt) = some (.int n) := by
  rw [readNumber?_of_all (integerText_ne_nil _) (all_integerText _), readWord?_integerText]

theorem readNumber?_plainText {x : Binary64} (hx : x.isFinite = true) :
    readNumber? x.plainText =
      match readWord? x.plainText with
      | some n => some (.int n)
      | none => some (.float x) := by
  rw [readNumber?_of_all (plainText_ne_nil x) (all_plainText hx), Binary64.read?_plainText,
    Option.bind_some, ofFinite?, if_pos hx]

/-! ## Integers among the numbers -/

theorem toBinary64_whole (negative : Bool) (n : Nat) :
    ({ digits := n, exponent := 0 } : Decimal).toBinary64 negative =
      if n = 0 then .zero negative else .ofQuotient negative n 1 := by
  have hpower : n * Nat.pow 10 (Int.toNat 0) = n := Nat.mul_one n
  have hlow : ¬ ((0 : Int) + ((n.log2 / 3 + 1 : Nat) : Int) ≤ -330) := by omega
  rw [Decimal.toBinary64]
  dsimp only
  rw [if_neg (show ¬ (310 : Int) ≤ 0 by decide), if_neg hlow, if_pos (Int.le_refl 0), hpower]

theorem sameLetters_of_digits {text word : List Char} {c : Char}
    (hall : text.all isAsciiDigit = true) (hc : isDigitOrPoint (lowerAscii c) = false) :
    sameLetters text (c :: word) = false :=
  sameLetters_of_digitOrPoint (all_digitOrPoint_of_digits hall) hc

theorem readUnsigned?_of_unsigned? {digits : List Char} {n : Nat} (h : unsigned? digits = some n)
    (negative : Bool) :
    Binary64.readUnsigned? negative digits =
      some (if n = 0 then .zero negative else .ofQuotient negative n 1) := by
  rw [unsigned?] at h
  split at h
  · rename_i hdigits
    cases h
    rw [Bool.and_eq_true, Bool.not_eq_true', List.isEmpty_eq_false_iff] at hdigits
    have hvalue : Decimal.Numeral.value { whole := digits, fraction := [], exponent := 0 } =
        { digits := valueOf digits, exponent := 0 } := by
      rw [Decimal.Numeral.value]
      dsimp only
      rw [List.append_nil]
      rfl
    rw [Binary64.readUnsigned?, sameLetters_of_digits hdigits.2 (by decide),
      sameLetters_of_digits hdigits.2 (by decide), sameLetters_of_digits hdigits.2 (by decide),
      Decimal.numeral?_whole hdigits.1 hdigits.2, Option.map_some, hvalue, toBinary64_whole]
    rfl
  · cases h

/-- The two zeros stand at one place, so it is enough to know the sign of the other numbers. -/
theorem place?_ofQuotient_of_sign {n : Nat} {negative sign : Bool} (h : n ≠ 0 → sign = negative) :
    (if n = 0 then Binary64.zero negative else .ofQuotient negative n 1).place? =
      (Binary64.ofQuotient sign n 1).place? := by
  by_cases hzero : n = 0
  · subst hzero
    cases negative <;> cases sign <;> rfl
  · rw [if_neg hzero, h hzero]

/-- A text that is an integer is read as a number to where the integer stands. -/
theorem place?_of_signed? {text : List Char} {m : Int} {x : Binary64}
    (hsigned : signed? text = some m)
    (hread : Binary64.read? text = some x) : x.place? = (Binary64.ofInt m).place? := by
  have hunsigned : ∀ {digits : List Char} {n : Nat} (negative : Bool),
      unsigned? digits = some n → Binary64.readUnsigned? negative digits = some x →
      (m = if negative then -(n : Int) else n) → x.place? = (Binary64.ofInt m).place? := by
    intro digits n negative hdigits hx hm
    rw [readUnsigned?_of_unsigned? hdigits] at hx
    cases hx
    have habs : m.natAbs = n := by
      cases negative <;> simp [hm]
    rw [Binary64.ofInt, habs]
    apply place?_ofQuotient_of_sign
    intro hne
    cases negative with
    | false => simp [hm]
    | true =>
        rw [decide_eq_true_eq, hm]
        simp only [if_true]
        omega
  unfold signed? at hsigned
  unfold Binary64.read? at hread
  split at hsigned
  · obtain ⟨m, hm, rfl⟩ := Option.map_eq_some_iff.mp hsigned
    obtain ⟨n, hn, hcast⟩ := Option.bind_eq_some_iff.mp hm
    cases hcast
    exact hunsigned true hn hread rfl
  · obtain ⟨n, hn, rfl⟩ := Option.map_eq_some_iff.mp hsigned
    exact hunsigned false hn hread rfl
  · rename_i hminus hplus
    obtain ⟨n, hn, rfl⟩ := Option.map_eq_some_iff.mp hsigned
    split at hread
    · exact absurd rfl (hminus _)
    · exact absurd rfl (hplus _)
    · exact hunsigned false hn hread rfl

/-- A number whose text is an integer is equal to the integer when the two are compared. -/
theorem sameNumber_of_readWord? {x : Binary64} (hx : x.isFinite = true) {n : Int64}
    (h : readWord? x.plainText = some n) : (Binary64.ofInt n.toInt).sameNumber x = true := by
  obtain ⟨m, hm, hword⟩ := Option.bind_eq_some_iff.mp h
  have hvalue : n.toInt = m := by
    rw [word?] at hword
    split at hword
    · rename_i hbounds
      cases hword
      rw [Bool.and_eq_true, decide_eq_true_eq, decide_eq_true_eq] at hbounds
      exact Int64.toInt_ofInt_of_le hbounds.1 (Int.lt_of_le_of_lt hbounds.2 (by decide))
    · cases hword
  have hplace := place?_of_signed? hm (Binary64.read?_plainText x)
  rw [hvalue, Binary64.sameNumber, Binary64.compare, ← hplace]
  cases x with
  | nan => cases hx
  | infinite negative => cases hx
  | finite negative rank => simp [Binary64.place?]

end Number
end RecordFilter
