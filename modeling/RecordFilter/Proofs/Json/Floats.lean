/-
Numbers with a fraction in JSON texts.  Reading one may miss the nearest number, since the digits
and the power of ten are rounded apart from each other, but it does not fail on a numeral of a
finite number: the two roundings do not carry even the greatest of them past the finite ones.  The
main statement is `isSome_toFloat?_floatNumeral`.
-/
import RecordFilter.Proofs.Json.Numerals
import RecordFilter.Proofs.Number.Bounds

namespace RecordFilter
namespace Json

open Number

/-! ## Significands -/

/-- Appending a digit in front of others is appending all of them. -/
theorem append_digit (significand : Nat) (c : Char) (digits : List Char) :
    (10 * significand + digitValue c) * 10 ^ digits.length + valueOf digits =
      significand * 10 ^ (c :: digits).length + valueOf (c :: digits) := by
  rw [valueOf_cons, List.length_cons, Nat.pow_succ]
  ring

/-- Digits are all absorbed if the significand that they make fits a word. -/
theorem absorb_of_lt {significand : Nat} {digits : List Char}
    (h : significand * 10 ^ digits.length + valueOf digits < wordCount) :
    absorb significand digits = (significand * 10 ^ digits.length + valueOf digits, []) := by
  induction digits generalizing significand with
  | nil =>
      have hvalue : significand * 10 ^ ([] : List Char).length + valueOf [] = significand :=
        Nat.mul_one significand
      rw [hvalue, absorb]
  | cons c rest ih =>
      have hpower : 0 < 10 ^ rest.length := Nat.pow_pos (by omega)
      have hnext : 10 * significand + digitValue c < wordCount := by
        have hle := Nat.le_mul_of_pos_right (10 * significand + digitValue c) hpower
        rw [← append_digit] at h
        omega
      rw [absorb, if_pos hnext, ih (by rwa [append_digit]), append_digit]

/-- What is absorbed are the first of the digits. -/
theorem exists_absorb (significand : Nat) (digits : List Char) :
    ∃ taken dropped, digits = taken ++ dropped ∧
      absorb significand digits =
        (significand * 10 ^ taken.length + valueOf taken, dropped) := by
  have hstop : ∀ significand, significand =
      significand * 10 ^ ([] : List Char).length + valueOf [] :=
    fun significand => (Nat.mul_one significand).symm
  induction digits generalizing significand with
  | nil => exact ⟨[], [], rfl, congrArg (·, []) (hstop significand)⟩
  | cons c rest ih =>
      rw [absorb]
      split
      · obtain ⟨taken, dropped, hrest, habsorb⟩ := ih (10 * significand + digitValue c)
        rw [append_digit] at habsorb
        exact ⟨c :: taken, dropped, by rw [hrest, List.cons_append], habsorb⟩
      · exact ⟨[], c :: rest, rfl, congrArg (·, c :: rest) (hstop significand)⟩

/-! ## Powers of ten -/

/-- Three and a half steps below the power of two that ends the finite magnitudes: what is left of
the last binade after two roundings. -/
def safeLimit : ℚ :=
  (2 ^ 53 - 7 / 2) * 2 ^ (971 : Int)

theorem safeLimit_lt : safeLimit * (1 + 1 / 2 ^ 53) * (1 + 1 / 2 ^ 53) <
    (2 ^ 53 - 1 / 2) * 2 ^ (971 : Int) := by
  have hstep : (0 : ℚ) < 2 ^ (971 : Int) := zpow_pos (by norm_num) _
  have hfactor : ((2 : ℚ) ^ 53 - 7 / 2) * (1 + 1 / 2 ^ 53) * (1 + 1 / 2 ^ 53) < 2 ^ 53 - 1 / 2 := by
    norm_num
  calc safeLimit * (1 + 1 / 2 ^ 53) * (1 + 1 / 2 ^ 53)
      = (2 ^ 53 - 7 / 2) * (1 + 1 / 2 ^ 53) * (1 + 1 / 2 ^ 53) * 2 ^ (971 : Int) := by
        rw [safeLimit]
        ring
    _ < (2 ^ 53 - 1 / 2) * 2 ^ (971 : Int) := mul_lt_mul_of_pos_right hfactor hstep

theorem safeLimit_lt_finite : safeLimit < (2 ^ 53 - 1 / 2) * 2 ^ (971 : Int) :=
  mul_lt_mul_of_pos_right (by norm_num) (zpow_pos (by norm_num) _)

theorem safeLimit_lt_ten_zpow : safeLimit < 10 ^ (309 : Int) := by
  have hpower : (2 : ℚ) ^ (1024 : Int) ≤ 10 ^ (309 : Int) :=
    Decimal.cast_pow_le (a := 2) (b := 10) (m := 1024) (n := 309) (by decide +kernel)
  refine lt_of_lt_of_le ?_ hpower
  rw [safeLimit, show (1024 : Int) = 53 + 971 by norm_num, zpow_add₀ (by norm_num)]
  exact mul_lt_mul_of_pos_right (by norm_num) (zpow_pos (by norm_num) _)

theorem ten_zpow_le_of_pow_le {n m c : Nat} (h : Nat.pow 10 n ≤ c * Nat.pow 2 m) :
    (10 : ℚ) ^ (n : Int) ≤ c * 2 ^ (m : Int) := by
  rw [zpow_natCast, zpow_natCast]
  exact_mod_cast h

theorem ten_zpow_le_safeLimit {n : Nat} (h : n ≤ 308) : (10 : ℚ) ^ (n : Int) ≤ safeLimit := by
  have hlast : (10 : ℚ) ^ ((308 : Nat) : Int) ≤
      (9007199254740988 : Nat) * 2 ^ ((971 : Nat) : Int) :=
    ten_zpow_le_of_pow_le (by decide +kernel)
  refine le_trans (zpow_le_zpow_right₀ (by norm_num) (by omega)) (le_trans hlast ?_)
  exact mul_le_mul_of_nonneg_right (by norm_num) (zpow_pos (by norm_num) _).le

/-- A whole number is rounded to a finite one, which is larger by one part in 2^53 at most. -/
theorem exists_rank_of_whole {n : Nat} (h : (n : ℚ) ≤ safeLimit) :
    ∃ rank : Fin rankCount, Binary64.ofQuotient false n 1 = .finite false rank ∧
      (Binary64.significand rank : ℚ) * 2 ^ Binary64.spacing rank ≤ n * (1 + 1 / 2 ^ 53) := by
  have hratio : (n : ℚ) / (1 : Nat) = n := by rw [Nat.cast_one, div_one]
  have hlt : nearestRank n 1 < rankCount := by
    apply nearestRank_lt_rankCount Nat.one_pos
    rw [hratio]
    exact lt_of_le_of_lt h safeLimit_lt_finite
  refine ⟨⟨nearestRank n 1, hlt⟩, by rw [Binary64.ofQuotient, Binary64.ofRank, dif_pos hlt], ?_⟩
  rcases Nat.eq_zero_or_pos n with rfl | hpos
  · show (Binary64.significand 0 : ℚ) * 2 ^ Binary64.spacing 0 ≤ _
    rw [Binary64.significand, if_pos (by decide), Nat.cast_zero, zero_mul, zero_mul]
  · have hone : (1 : ℚ) ≤ n := by exact_mod_cast hpos
    have hnormal : (2 : ℚ) ^ (-1022 : Int) ≤ n / (1 : Nat) := by
      rw [hratio]
      exact le_trans (zpow_le_one_of_nonpos₀ (by norm_num) (by norm_num)) hone
    have hmost := Binary64.magnitude_nearestRank_le hpos Nat.one_pos hnormal
    rwa [hratio] at hmost

theorem powerOfTen_eq (n : Nat) : powerOfTen n = .ofQuotient false (10 ^ n) 1 := by
  apply Decimal.toBinary64_eq false Nat.one_pos
  rw [Decimal.value, zpow_natCast]
  push_cast
  ring

/-- The product of two finite numbers is finite if the product of the magnitudes is small enough. -/
theorem isFinite_multiply {left right : Fin rankCount} (leftSign rightSign : Bool)
    (h : ((Binary64.significand left : ℚ) * 2 ^ Binary64.spacing left) *
      ((Binary64.significand right : ℚ) * 2 ^ Binary64.spacing right) <
        (2 ^ 53 - 1 / 2) * 2 ^ (971 : Int)) :
    ((Binary64.finite leftSign left).multiply (.finite rightSign right)).isFinite = true := by
  have hden := Nat.mul_pos (Binary64.magnitude_snd_pos left) (Binary64.magnitude_snd_pos right)
  rw [← Binary64.magnitude_ratio, ← Binary64.magnitude_ratio, div_mul_div_comm, ← Nat.cast_mul,
    ← Nat.cast_mul] at h
  have hlt := nearestRank_lt_rankCount hden h
  rw [Binary64.multiply, Binary64.ofQuotient, Binary64.ofRank, dif_pos hlt]
  rfl

/-- The power of ten of a number that is not too large is finite. -/
theorem le_of_le_safeLimit {significand n : Nat} (hne : significand ≠ 0)
    (h : (significand : ℚ) * 10 ^ (n : Int) ≤ safeLimit) : n ≤ 308 := by
  by_contra hbig
  have hone : (1 : ℚ) ≤ significand := by exact_mod_cast Nat.one_le_iff_ne_zero.mpr hne
  have hpower : (10 : ℚ) ^ (309 : Int) ≤ 10 ^ (n : Int) :=
    zpow_le_zpow_right₀ (by norm_num) (by omega)
  have hpos : (0 : ℚ) < 10 ^ (n : Int) := zpow_pos (by norm_num) _
  have hproduct := le_mul_of_one_le_left hpos.le hone
  exact absurd safeLimit_lt_ten_zpow (not_lt.mpr (le_trans hpower (le_trans hproduct h)))

/-- The two roundings, of the significand and of the power of ten, leave the product finite. -/
theorem isFinite_scaled {significand n : Nat} (hn : n ≤ 308)
    (h : (significand : ℚ) * 10 ^ (n : Int) ≤ safeLimit) :
    ((Binary64.ofQuotient false significand 1).multiply (powerOfTen n)).isFinite = true := by
  have hone : (1 : ℚ) ≤ 10 ^ (n : Int) := one_le_zpow₀ (by norm_num) (by omega)
  have hpower : ((10 ^ n : Nat) : ℚ) = 10 ^ (n : Int) := by
    rw [zpow_natCast, Nat.cast_pow, Nat.cast_ofNat]
  obtain ⟨left, hleft, hleftMost⟩ := exists_rank_of_whole
    (le_trans (le_mul_of_one_le_right (Nat.cast_nonneg significand) hone) h)
  obtain ⟨right, hright, hrightMost⟩ := exists_rank_of_whole
    (le_of_eq_of_le hpower (ten_zpow_le_safeLimit hn))
  rw [hpower] at hrightMost
  rw [powerOfTen_eq, hleft, hright]
  apply isFinite_multiply
  have hscaled := mul_le_mul_of_nonneg_right h
    (show (0 : ℚ) ≤ (1 + 1 / 2 ^ 53) * (1 + 1 / 2 ^ 53) by norm_num)
  calc _ ≤ (significand : ℚ) * (1 + 1 / 2 ^ 53) * (10 ^ (n : Int) * (1 + 1 / 2 ^ 53)) :=
        mul_le_mul hleftMost hrightMost
          (mul_nonneg (Nat.cast_nonneg _) (zpow_pos (by norm_num) _).le)
          (mul_nonneg (Nat.cast_nonneg _) (by norm_num))
    _ ≤ safeLimit * (1 + 1 / 2 ^ 53) * (1 + 1 / 2 ^ 53) := by linarith only [hscaled]
    _ < (2 ^ 53 - 1 / 2) * 2 ^ (971 : Int) := safeLimit_lt

/-- A significand is scaled by a power of ten if the product leaves room for the two roundings. -/
theorem isSome_scale? {significand : Nat} {exponent : Int}
    (h : (significand : ℚ) * 10 ^ exponent ≤ safeLimit) :
    (scale? (.ofInt significand) exponent).isSome = true := by
  have hofInt : Binary64.ofInt significand = .ofQuotient false significand 1 := by
    rw [Binary64.ofInt, Int.natAbs_natCast, decide_eq_false (by omega)]
  rw [hofInt, scale?]
  by_cases hnegative : exponent < 0
  · rw [if_pos hnegative]
    rfl
  rw [if_neg hnegative]
  by_cases hbig : significand = 0 ∧ 308 < exponent
  · rw [hbig.1, decide_eq_true hbig.2]
    rfl
  obtain ⟨n, rfl⟩ := Int.eq_ofNat_of_zero_le (Int.not_lt.mp hnegative)
  have hn : n ≤ 308 := by
    by_cases hzero : significand = 0
    · have hsmall : ¬ 308 < (n : Int) := fun hlt => hbig ⟨hzero, hlt⟩
      omega
    · exact le_of_le_safeLimit hzero h
  rw [decide_eq_false (by omega), Bool.and_false, if_neg Bool.false_ne_true, if_neg (by omega),
    Int.toNat_natCast]
  dsimp only
  rw [if_pos (isFinite_scaled hn h)]
  rfl

/-! ## Numerals -/

/-- A numeral as a decimal. -/
def Numeral.decimal (n : Numeral) : Decimal :=
  Decimal.Numeral.value
    { whole := n.whole, fraction := n.fraction.getD [], exponent := n.exponent.getD 0 }

/-- The first digits of a numeral make no larger number than all of them. -/
theorem value_of_taken {n : Numeral} {taken dropped : List Char}
    (h : n.fraction.getD [] = taken ++ dropped) :
    (valueOf (n.whole ++ taken) : ℚ) * 10 ^ (n.exponent.getD 0 - taken.length) ≤
      n.decimal.value := by
  have hdigits : valueOf (n.whole ++ taken) * 10 ^ dropped.length ≤
      valueOf (n.whole ++ (taken ++ dropped)) := by
    rw [← List.append_assoc, valueOf_append (n.whole ++ taken)]
    exact Nat.le_add_right _ _
  have hcast : (valueOf (n.whole ++ taken) : ℚ) * 10 ^ (dropped.length : Int) ≤
      valueOf (n.whole ++ (taken ++ dropped)) := by
    rw [zpow_natCast]
    exact_mod_cast hdigits
  have hexponent : n.exponent.getD 0 - taken.length =
      dropped.length + (n.exponent.getD 0 - (taken ++ dropped).length) := by
    rw [List.length_append]
    push_cast
    ring
  rw [Numeral.decimal, Decimal.value, Decimal.Numeral.value]
  dsimp only
  rw [h, hexponent, zpow_add₀ (by norm_num), ← mul_assoc]
  exact mul_le_mul_of_nonneg_right hcast (zpow_pos (by norm_num) _).le

/-- A numeral is read if its whole part fits a word and it is not too large. -/
theorem isSome_toFloat? {n : Numeral} (hall : n.whole.all Text.isAsciiDigit = true)
    (hlength : n.whole.length ≤ 19) (h : n.decimal.value ≤ safeLimit) :
    n.toFloat?.isSome = true := by
  have hword : valueOf n.whole < wordCount := by
    have hpower : 10 ^ n.whole.length ≤ 10 ^ 19 := Nat.pow_le_pow_right (by omega) hlength
    have hsmall : 10 ^ 19 < wordCount := by decide
    exact Nat.lt_trans (Nat.lt_of_lt_of_le (valueOf_lt hall) hpower) hsmall
  have hwhole : absorb 0 n.whole = (valueOf n.whole, []) := by
    have habsorb := @absorb_of_lt 0 n.whole (by rwa [Nat.zero_mul, Nat.zero_add])
    rwa [Nat.zero_mul, Nat.zero_add] at habsorb
  obtain ⟨taken, dropped, hfraction, habsorb⟩ :=
    exists_absorb (valueOf n.whole) (n.fraction.getD [])
  have hscale : (scale? (.ofInt (valueOf n.whole * 10 ^ taken.length + valueOf taken : Nat))
      (n.exponent.getD 0 - taken.length)).isSome = true := by
    apply isSome_scale?
    refine le_trans ?_ h
    have htaken : valueOf n.whole * 10 ^ taken.length + valueOf taken =
        valueOf (n.whole ++ taken) :=
      (valueOf_append _ _).symm
    rw [htaken]
    exact value_of_taken hfraction
  obtain ⟨x, hx⟩ := Option.isSome_iff_exists.mp hscale
  have hplaces : (([] : List Char).length : Int) -
      ((n.fraction.getD []).length - dropped.length : Nat) + n.exponent.getD 0 =
        n.exponent.getD 0 - taken.length := by
    rw [hfraction, List.length_append, List.length_nil]
    omega
  rw [Numeral.toFloat?, hwhole]
  dsimp only
  rw [habsorb]
  dsimp only
  rw [hplaces, hx]
  rfl

/-- Digits in positional notation stand for their number, whether the point falls in front of them,
behind them or among them. -/
theorem value_positionalNumeral (negative : Bool) (s : Scientific) :
    (positionalNumeral negative s).decimal.value = s.value := by
  rw [Numeral.decimal, positionalNumeral]
  split
  · refine @Decimal.value_of_padded s _ ((-s.power).toNat - 1 + 1) 0 ?_ ?_
    · dsimp only
      rw [List.replicate_zero, List.append_nil, List.replicate_succ]
      rfl
    · dsimp only [Option.getD]
      rw [List.length_append, List.length_replicate]
      omega
  · split
    · refine @Decimal.value_of_padded s _ 0 (s.power.toNat + 1 - s.digits.length + 1) ?_ ?_
      · dsimp only [Option.getD]
        rw [List.replicate_zero, List.nil_append, List.append_assoc, List.replicate_succ']
      · dsimp only [Option.getD]
        rw [List.length_singleton]
        omega
    · refine @Decimal.value_of_padded s _ 0 0 ?_ ?_
      · dsimp only [Option.getD]
        rw [List.take_append_drop, List.replicate_zero, List.append_nil, List.nil_append]
      · dsimp only [Option.getD]
        rw [List.length_drop]
        omega

theorem value_exponentNumeral (negative : Bool) {s : Scientific} (hne : s.digits ≠ []) :
    (exponentNumeral negative s).decimal.value = s.value := by
  have hlength := List.length_pos_iff.mpr hne
  rw [Numeral.decimal, exponentNumeral]
  split
  · rename_i hone
    refine @Decimal.value_of_padded s _ 0 0 ?_ ?_
    · dsimp only [Option.getD]
      rw [List.take_of_length_le hone, List.replicate_zero]
      rfl
    · dsimp only [Option.getD]
      rw [List.length_nil]
      omega
  · refine @Decimal.value_of_padded s _ 0 0 ?_ ?_
    · dsimp only [Option.getD]
      rw [List.take_append_drop, List.replicate_zero, List.append_nil, List.nil_append]
    · dsimp only [Option.getD]
      rw [List.length_drop]
      omega

/-- The whole part of a numeral that a number is written as is short. -/
theorem length_whole_floatNumeral (negative : Bool) (rank : Nat) :
    (floatNumeral negative rank).whole.length ≤ 16 := by
  rw [floatNumeral]
  split
  · exact Nat.le_of_ble_eq_true rfl
  · dsimp only
    split
    · rename_i hpositional
      have hpower : (shortest .even rank).power < 16 := by
        rw [Layout.json, Bool.and_eq_true, decide_eq_true_eq, decide_eq_true_eq] at hpositional
        exact hpositional.2
      rw [positionalNumeral]
      split
      · exact Nat.le_of_ble_eq_true rfl
      · split
        · dsimp only
          rw [List.length_append, List.length_replicate]
          omega
        · dsimp only
          rw [List.length_take]
          omega
    · rw [exponentNumeral, List.length_take]
      omega

theorem value_floatNumeral (negative : Bool) {rank : Nat} (hrank : 0 < rank)
    (hlt : rank < rankCount) :
    (floatNumeral negative rank).decimal.value = (shortestDecimal .even rank).value := by
  have hvalue : (shortest .even rank).value = (shortestDecimal .even rank).value :=
    value_scientific _
  rw [floatNumeral, if_neg (Nat.pos_iff_ne_zero.mp hrank), ← hvalue]
  dsimp only
  split
  · exact value_positionalNumeral negative _
  · exact value_exponentNumeral negative (leading_shortest hrank hlt .even).ne_nil

/-- The digits that a number is written with read back as it, so they are not much larger. -/
theorem value_floatNumeral_le (negative : Bool) {rank : Nat} (hlt : rank + 3 < rankCount) :
    (floatNumeral negative rank).decimal.value ≤ safeLimit := by
  rcases Nat.eq_zero_or_pos rank with rfl | hrank
  · have hzero : (floatNumeral negative 0).decimal.digits = 0 := rfl
    rw [Decimal.value, hzero, Nat.cast_zero, zero_mul]
    exact (mul_pos (by norm_num) (zpow_pos (by norm_num) _)).le
  · have hfinite : rank < rankCount := by omega
    have hread := toBinary64_of_readsBack (readsBack_shortestDecimal .even hrank hfinite) hfinite
      false
    obtain ⟨num, den, hden, hratio⟩ := (shortestDecimal .even rank).exists_ratio
    rw [Decimal.toBinary64_eq false hden hratio, Binary64.ofRank] at hread
    split at hread
    · have hnearest : nearestRank num den = rank := by
        injection hread with _ hranks
        exact congrArg Fin.val hranks
      rw [value_floatNumeral negative hrank hfinite, ← hratio]
      exact div_le_of_nearestRank_lt hden (by rwa [hnearest])
    · cases hread

/-- Every numeral that a finite number is written as is read. -/
theorem isSome_toFloat?_floatNumeral (negative : Bool) {rank : Nat} (hlt : rank < rankCount) :
    (floatNumeral negative rank).toFloat?.isSome = true := by
  by_cases hroom : rank + 3 < rankCount
  · have hlength := length_whole_floatNumeral negative rank
    exact isSome_toFloat? (proper_floatNumeral hlt negative).all_whole (by omega)
      (value_floatNumeral_le negative hroom)
  · -- The three greatest magnitudes have no room for the bounds, but they can be tried.
    have htop : ∀ negative, ∀ n < 3,
        (floatNumeral negative (rankCount - 3 + n)).toFloat?.isSome = true := by
      decide +kernel
    have hcount : 3 ≤ rankCount := by decide
    have hsplit : rank = rankCount - 3 + (rank + 3 - rankCount) := by omega
    rw [hsplit]
    exact htop negative _ (by omega)

end Json
end RecordFilter
