/-
A double-precision number is read back from its plain text.  The digits that are written were chosen
because they read back, so what is left to show is that the text writes the number of its digits,
wherever the point falls, and that the digits are found at all: a decimal with all digits of the
number is exact.  The main statement is `read?_plainText`.
-/
import RecordFilter.Number.Layout
import RecordFilter.Proofs.Number.Digits
import RecordFilter.Proofs.Number.Rounding
import RecordFilter.Proofs.Text.Words

namespace RecordFilter
namespace Number

open Text

/-! ## The chosen digits -/

theorem toBinary64_of_readsBack {rank : Nat} {d : Decimal} (h : readsBack rank d = true)
    (hrank : rank < rankCount) (negative : Bool) :
    d.toBinary64 negative = .finite negative ⟨rank, hrank⟩ := by
  obtain ⟨num, den, hden, hratio⟩ := d.exists_ratio
  rw [readsBack, Decimal.toBinary64_eq false hden hratio] at h
  rw [Decimal.toBinary64_eq negative hden hratio]
  by_cases hlt : nearestRank num den < rankCount
  · rw [Binary64.ofRank, dif_pos hlt] at h
    have hfound : nearestRank num den = rank := beq_iff_eq.mp h
    subst hfound
    rw [Binary64.ofRank, dif_pos hlt]
  · rw [Binary64.ofRank, dif_neg hlt] at h
    cases h

theorem readsBack_of_atLength? {tie : Tie} {rank places : Nat} {d : Decimal}
    (h : atLength? tie rank places = some d) : readsBack rank d = true := by
  have hchoice : ∀ (below above : Decimal) (preferAbove : Bool), readsBack rank below = true →
      readsBack rank above = true →
      readsBack rank (if preferAbove then above else below) = true := by
    intro below above preferAbove hbelow habove
    cases preferAbove with
    | true => exact habove
    | false => exact hbelow
  unfold atLength? at h
  dsimp only at h
  split at h
  · rename_i hbelow habove
    exact Option.some.inj h ▸ hchoice _ _ _ hbelow habove
  · rename_i hbelow _
    exact Option.some.inj h ▸ hbelow
  · rename_i _ habove
    exact Option.some.inj h ▸ habove
  · cases h

theorem value_exactDecimal (rank : Nat) :
    (exactDecimal rank).value = Binary64.significand rank * 2 ^ Binary64.spacing rank := by
  unfold exactDecimal
  dsimp only
  split
  · rename_i hspacing
    obtain ⟨n, hn⟩ := Int.eq_ofNat_of_zero_le hspacing
    rw [Decimal.value, hn, Int.toNat_natCast, zpow_natCast, zpow_zero, mul_one]
    simp only [Nat.cast_mul, Nat.pow_eq, Nat.cast_pow, Nat.cast_ofNat]
  · rename_i hspacing
    obtain ⟨n, hn⟩ := Int.eq_ofNat_of_zero_le (show 0 ≤ -Binary64.spacing rank by omega)
    have hneg : Binary64.spacing rank = -(n : Int) := by omega
    rw [Decimal.value, hneg, neg_neg, Int.toNat_natCast, zpow_neg, zpow_neg, zpow_natCast,
      zpow_natCast]
    simp only [Nat.cast_mul, Nat.pow_eq, Nat.cast_pow, Nat.cast_ofNat]
    -- Ten to a power is two and five to that power.
    have hten : (10 : ℚ) ^ n = 2 ^ n * 5 ^ n := by
      rw [← mul_pow]
      norm_num
    rw [hten]
    field_simp

theorem readsBack_exactDecimal {rank : Nat} (hrank : 0 < rank) (hlt : rank < rankCount) :
    readsBack rank (exactDecimal rank) = true := by
  have hnearest := Binary64.nearestRank_magnitude hrank (Binary64.magnitude_snd_pos rank)
    (Binary64.magnitude_ratio rank)
  rw [readsBack, Decimal.toBinary64_eq false (Binary64.magnitude_snd_pos rank)
    ((Binary64.magnitude_ratio rank).trans (value_exactDecimal rank).symm), hnearest,
    Binary64.ofRank, dif_pos hlt]
  exact beq_self_eq_true rank

theorem readsBack_shortestDecimal (tie : Tie) {rank : Nat} (hrank : 0 < rank)
    (hlt : rank < rankCount) : readsBack rank (shortestDecimal tie rank) = true := by
  unfold shortestDecimal
  cases hfound : (List.range 17).findSome? fun n => atLength? tie rank (n + 1) with
  | none => exact readsBack_exactDecimal hrank hlt
  | some d =>
      obtain ⟨n, _, hn⟩ := List.exists_of_findSome?_eq_some hfound
      exact readsBack_of_atLength? hn

theorem digits_shortestDecimal_ne_zero (tie : Tie) {rank : Nat} (hrank : 0 < rank)
    (hlt : rank < rankCount) : (shortestDecimal tie rank).digits ≠ 0 := by
  intro hzero
  have hread := toBinary64_of_readsBack (readsBack_shortestDecimal tie hrank hlt) hlt false
  rw [Decimal.toBinary64, if_pos hzero, Binary64.zero] at hread
  cases hread
  omega

/-! ## Texts of digits -/

namespace Scientific

/-- The number that digits with the power of the first one stand for. -/
def value (s : Scientific) : ℚ :=
  valueOf s.digits * 10 ^ (s.power + 1 - s.digits.length)

end Scientific

theorem value_scientific (d : Decimal) : d.scientific.value = d.value := by
  obtain ⟨zeros, hlength, hvalue⟩ := valueOf_trimEnd (digitsOf d.digits)
  rw [valueOf_digitsOf] at hvalue
  rw [Scientific.value, Decimal.scientific, Decimal.value]
  dsimp only
  rw [hlength]
  have hpower :
      d.exponent + ((trimEnd (· == '0') (digitsOf d.digits)).length + zeros : Nat) - 1 + 1 -
        (trimEnd (· == '0') (digitsOf d.digits)).length = zeros + d.exponent := by
    push_cast
    ring
  rw [hpower, zpow_add₀ (by norm_num), zpow_natCast, ← mul_assoc]
  congr 1
  exact_mod_cast hvalue.symm

theorem scientific_digits_ne_nil {d : Decimal} (h : d.digits ≠ 0) : d.scientific.digits ≠ [] := by
  intro hnil
  obtain ⟨zeros, _, hvalue⟩ := valueOf_trimEnd (digitsOf d.digits)
  have htrimmed : trimEnd (· == '0') (digitsOf d.digits) = [] := hnil
  rw [valueOf_digitsOf, htrimmed] at hvalue
  exact h (hvalue.trans (Nat.zero_mul _))

theorem all_scientific_digits (d : Decimal) : d.scientific.digits.all isAsciiDigit = true := by
  obtain ⟨tail, hdigits, _⟩ := exists_trimEnd_append (· == '0') (digitsOf d.digits)
  have hall := all_digitsOf d.digits
  rw [hdigits, List.all_append, Bool.and_eq_true] at hall
  exact hall.1

theorem takeWhile_digits {left rest : List Char} (hleft : left.all isAsciiDigit = true)
    (hrest : ∀ c ∈ rest.head?, isAsciiDigit c = false) :
    (left ++ rest).takeWhile isAsciiDigit = left ∧
      (left ++ rest).dropWhile isAsciiDigit = rest := by
  have hall := List.all_eq_true.mp hleft
  rw [List.takeWhile_append_of_pos hall, List.dropWhile_append_of_pos hall]
  cases rest with
  | nil => exact ⟨List.append_nil left, rfl⟩
  | cons c rest =>
      have hc : ¬ isAsciiDigit c = true := by rw [hrest c rfl]; exact Bool.false_ne_true
      rw [List.takeWhile_cons_of_neg hc, List.dropWhile_cons_of_neg hc]
      exact ⟨List.append_nil left, rfl⟩

namespace Decimal

theorem numeral?_whole {whole : List Char} (hne : whole ≠ [])
    (hall : whole.all isAsciiDigit = true) :
    numeral? whole = some { whole, fraction := [], exponent := 0 } := by
  obtain ⟨htake, hdrop⟩ := @takeWhile_digits whole [] hall (by intro c hc; cases hc)
  rw [List.append_nil] at htake hdrop
  have hempty : whole.isEmpty = false := List.isEmpty_eq_false_iff.mpr hne
  unfold numeral?
  rw [htake, hdrop]
  simp only [hempty, Bool.false_and]
  rfl

theorem numeral?_point {whole fraction : List Char} (hne : whole ≠ [])
    (hwhole : whole.all isAsciiDigit = true) (hfraction : fraction.all isAsciiDigit = true) :
    numeral? (whole ++ '.' :: fraction) = some { whole, fraction, exponent := 0 } := by
  obtain ⟨htake, hdrop⟩ := @takeWhile_digits whole ('.' :: fraction) hwhole
    (by intro c hc; cases hc; rfl)
  obtain ⟨htakeFraction, hdropFraction⟩ := @takeWhile_digits fraction [] hfraction
    (by intro c hc; cases hc)
  rw [List.append_nil] at htakeFraction hdropFraction
  have hempty : whole.isEmpty = false := List.isEmpty_eq_false_iff.mpr hne
  unfold numeral?
  rw [htake, hdrop]
  simp only [htakeFraction, hdropFraction, hempty, Bool.false_and]
  rfl

/-- Zeros around the digits do not change what a numeral stands for, if the exponent counts those
behind them. -/
theorem value_of_padded {s : Scientific} {n : Numeral} {front behind : Nat}
    (hdigits : n.whole ++ n.fraction =
      List.replicate front '0' ++ (s.digits ++ List.replicate behind '0'))
    (hexponent : n.exponent - n.fraction.length + behind = s.power + 1 - s.digits.length) :
    n.value.value = s.value := by
  have hvalue : valueOf (n.whole ++ n.fraction) = valueOf s.digits * 10 ^ behind := by
    rw [hdigits, valueOf_append, valueOf_append, valueOf_replicate, valueOf_replicate,
      Nat.zero_mul, Nat.zero_add, Nat.add_zero, List.length_replicate]
  rw [value, Numeral.value, Scientific.value, ← hexponent]
  dsimp only
  rw [hvalue, Nat.cast_mul, Nat.cast_pow, Nat.cast_ofNat, zpow_add₀ (by norm_num), zpow_natCast]
  ring

end Decimal

/-- Digits in plain layout are a numeral of the number that they stand for, whether the point falls
in front of them, behind them or among them. -/
theorem exists_numeral_of_positionalText {s : Scientific} (hne : s.digits ≠ [])
    (hall : s.digits.all isAsciiDigit = true) :
    ∃ n, Decimal.numeral? (Layout.plain.positionalText s) = some n ∧ n.value.value = s.value := by
  have hzeros : ∀ k, (List.replicate k '0').all isAsciiDigit = true := by
    intro k
    rw [List.all_replicate]
    cases k <;> rfl
  have hlength : 0 < s.digits.length := List.length_pos_iff.mpr hne
  unfold Layout.positionalText
  split
  · -- Zeros stand between the point and the digits.
    rename_i hpower
    refine ⟨_, @Decimal.numeral?_point ['0']
      (List.replicate ((-s.power).toNat - 1) '0' ++ s.digits) (by simp) rfl
      (by rw [List.all_append, hzeros, hall]; rfl),
      @Decimal.value_of_padded s _ ((-s.power).toNat - 1 + 1) 0 ?_ ?_⟩
    · rw [List.replicate_zero, List.append_nil, List.replicate_succ]
      rfl
    · dsimp only
      rw [List.length_append, List.length_replicate]
      omega
  · rename_i hpower
    dsimp only
    split
    · -- Zeros stand behind the digits, in the places up to the point.
      rename_i hle
      have htext : s.digits ++ List.replicate (s.power.toNat + 1 - s.digits.length) '0' ++
          Layout.plain.wholeMark =
            s.digits ++ List.replicate (s.power.toNat + 1 - s.digits.length) '0' :=
        List.append_nil _
      rw [htext]
      refine ⟨_, Decimal.numeral?_whole (List.append_ne_nil_of_left_ne_nil hne _)
        (by rw [List.all_append, hzeros, hall]; rfl),
        @Decimal.value_of_padded s _ 0 (s.power.toNat + 1 - s.digits.length) ?_ ?_⟩
      · rw [List.append_nil]
        rfl
      · dsimp only
        rw [List.length_nil]
        omega
    · -- The point stands among the digits.
      rename_i hlt
      have hall' := hall
      rw [← List.take_append_drop (s.power.toNat + 1) s.digits, List.all_append,
        Bool.and_eq_true] at hall'
      have htake : s.digits.take (s.power.toNat + 1) ≠ [] := by
        rw [← List.length_pos_iff, List.length_take]
        omega
      refine ⟨_, Decimal.numeral?_point htake hall'.1 hall'.2,
        @Decimal.value_of_padded s _ 0 0 ?_ ?_⟩
      · rw [List.take_append_drop, List.replicate_zero, List.append_nil, List.nil_append]
      · dsimp only
        rw [List.length_drop]
        omega

/-! ## Texts of numbers -/

/-- A digit or a point. -/
def isDigitOrPoint (c : Char) : Bool :=
  isAsciiDigit c || c == '.'

theorem all_digitOrPoint_of_digits {text : List Char} (h : text.all isAsciiDigit = true) :
    text.all isDigitOrPoint = true := by
  rw [List.all_eq_true] at h ⊢
  intro c hc
  rw [isDigitOrPoint, h c hc, Bool.true_or]

theorem all_positionalText {s : Scientific} (hall : s.digits.all isAsciiDigit = true) :
    (Layout.plain.positionalText s).all isDigitOrPoint = true := by
  have hzeros : ∀ k, (List.replicate k '0').all isDigitOrPoint = true := by
    intro k
    rw [List.all_replicate]
    cases k <;> rfl
  have hdigits := all_digitOrPoint_of_digits hall
  unfold Layout.positionalText
  split
  · rw [List.all_append, List.all_append, hzeros, hdigits]
    rfl
  · dsimp only
    split
    · rw [List.all_append, List.all_append, hzeros, hdigits]
      rfl
    · rw [← List.take_append_drop (s.power.toNat + 1) s.digits, List.all_append,
        Bool.and_eq_true] at hdigits
      rw [List.all_append, List.all_cons, hdigits.1, hdigits.2]
      rfl

theorem all_magnitudeText (rank : Nat) :
    (Layout.plain.magnitudeText rank).all isDigitOrPoint = true := by
  unfold Layout.magnitudeText
  split
  · rfl
  · exact all_positionalText (all_scientific_digits _)

/-- What a magnitude is written as is a numeral of it. -/
theorem exists_numeral_of_magnitudeText {rank : Nat} (hrank : rank < rankCount) :
    ∃ n, Decimal.numeral? (Layout.plain.magnitudeText rank) = some n ∧
      ∀ negative, n.value.toBinary64 negative = .finite negative ⟨rank, hrank⟩ := by
  unfold Layout.magnitudeText
  split
  · rename_i hzero
    subst hzero
    exact ⟨{ whole := ['0'], fraction := [], exponent := 0 }, rfl, fun _ => rfl⟩
  · rename_i hpos
    have hdigits := digits_shortestDecimal_ne_zero Layout.plain.tie (Nat.pos_of_ne_zero hpos) hrank
    obtain ⟨n, hn, hvalue⟩ := exists_numeral_of_positionalText
      (scientific_digits_ne_nil hdigits) (all_scientific_digits _)
    refine ⟨n, hn, fun negative => ?_⟩
    rw [value_scientific] at hvalue
    rw [Decimal.toBinary64_congr hvalue]
    exact toBinary64_of_readsBack
      (readsBack_shortestDecimal _ (Nat.pos_of_ne_zero hpos) hrank) hrank negative

theorem magnitudeText_ne_nil {rank : Nat} (hrank : rank < rankCount) :
    Layout.plain.magnitudeText rank ≠ [] := by
  obtain ⟨n, hn, _⟩ := exists_numeral_of_magnitudeText hrank
  intro hnil
  rw [hnil] at hn
  cases hn

theorem sameLetters_of_digitOrPoint {text word : List Char} {c : Char}
    (hall : text.all isDigitOrPoint = true) (hc : isDigitOrPoint (lowerAscii c) = false) :
    sameLetters text (c :: word) = false := by
  refine beq_eq_false_iff_ne.mpr fun heq => ?_
  cases text with
  | nil => cases heq
  | cons d rest =>
      rw [List.all_cons, Bool.and_eq_true] at hall
      have hd : ¬ ('A' ≤ d ∧ d ≤ 'Z') := by
        rintro ⟨hle, hge⟩
        have hdigit := hall.1
        simp only [isDigitOrPoint, isAsciiDigit, Bool.or_eq_true, Bool.and_eq_true,
          decide_eq_true_eq, beq_iff_eq] at hdigit
        rcases hdigit with ⟨_, hnine⟩ | rfl
        · exact absurd (Char.le_trans hle hnine) (by decide)
        · exact absurd hle (by decide)
      have hlower : lowerAscii d = lowerAscii c := (List.cons.inj heq).1
      rw [lowerAscii_of_not_upper hd] at hlower
      rw [← hlower, hall.1] at hc
      cases hc

namespace Binary64

theorem readUnsigned?_magnitudeText {rank : Nat} (hrank : rank < rankCount) (negative : Bool) :
    readUnsigned? negative (Layout.plain.magnitudeText rank) =
      some (.finite negative ⟨rank, hrank⟩) := by
  have hall := all_magnitudeText rank
  obtain ⟨n, hn, hvalue⟩ := exists_numeral_of_magnitudeText hrank
  rw [readUnsigned?, sameLetters_of_digitOrPoint hall (by decide),
    sameLetters_of_digitOrPoint hall (by decide), sameLetters_of_digitOrPoint hall (by decide), hn,
    Option.map_some, hvalue negative]
  rfl

/-- Every number is read back from its plain text. -/
theorem read?_plainText (x : Binary64) : read? x.plainText = some x := by
  cases x with
  | nan => rfl
  | infinite negative => cases negative <;> rfl
  | finite negative rank =>
      cases negative with
      | true => exact readUnsigned?_magnitudeText rank.isLt true
      | false =>
          have hall := all_magnitudeText rank
          have hread := readUnsigned?_magnitudeText rank.isLt false
          show read? (Layout.plain.magnitudeText rank) = _
          cases htext : Layout.plain.magnitudeText rank with
          | nil => exact absurd htext (magnitudeText_ne_nil rank.isLt)
          | cons c rest =>
              rw [htext] at hall hread
              rw [List.all_cons, Bool.and_eq_true] at hall
              unfold read?
              split
              · rename_i heq
                cases heq
                cases hall.1
              · rename_i heq
                cases heq
                cases hall.1
              · exact hread

end Binary64

end Number
end RecordFilter
