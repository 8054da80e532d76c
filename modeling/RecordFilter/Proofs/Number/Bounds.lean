/-
How far rounding goes.  A quotient is at most half a step away from what it is rounded to, so a
number that is not too small grows by at most one part in 2^53, and the greatest finite magnitude is
passed only by numbers half a step above it.  The main statements are `magnitude_nearestRank_le` and
`nearestRank_lt_rankCount`.
-/
import RecordFilter.Proofs.Number.Rounding

namespace RecordFilter
namespace Number

theorem cast_binadeSize : ((binadeSize : Nat) : ℚ) = 2 ^ 52 := by
  norm_num

/-- The last binade ends with the finite magnitudes. -/
theorem rankCount_eq_last : rankCount = (971 + 1074 : Int).toNat * binadeSize + 2 * binadeSize := by
  decide

section

variable {num den : Nat}

/-- A quotient is rounded by half a step at most. -/
theorem roundHalfEven_close (hden : 0 < den) :
    (roundHalfEven num den : ℚ) ≤ num / den + 1 / 2 ∧
      (num : ℚ) / den ≤ roundHalfEven num den + 1 / 2 := by
  have hdenq : (0 : ℚ) < den := Nat.cast_pos.mpr hden
  have hsplit : den * (num / den) + num % den = num := Nat.div_add_mod num den
  have hmod : num % den < den := Nat.mod_lt num hden
  have hnext : den * (num / den + 1) = den * (num / den) + den := Nat.mul_succ _ _
  have hclose : 2 * (den * roundHalfEven num den) ≤ 2 * num + den ∧
      2 * num ≤ 2 * (den * roundHalfEven num den) + den := by
    unfold roundHalfEven
    dsimp only
    split
    · omega
    · split
      · rw [hnext]
        omega
      · split
        · omega
        · rw [hnext]
          omega
  have habove : 2 * ((den : ℚ) * roundHalfEven num den) ≤ 2 * num + den := by
    exact_mod_cast hclose.1
  have hbelow : 2 * (num : ℚ) ≤ 2 * (den * roundHalfEven num den) + den := by
    exact_mod_cast hclose.2
  constructor
  · rw [← sub_le_iff_le_add, le_div_iff₀ hdenq]
    linarith only [habove]
  · rw [div_le_iff₀ hdenq]
    linarith only [hbelow]

/-- The exponent of the steps that a number is rounded to. -/
def stepExponent (num den : Nat) : Int :=
  max (floorLog2 num den - 52) (-1074)

/-- How many steps a number is rounded to. -/
def steps (num den : Nat) : Nat :=
  roundHalfEven (scaleDown num den (stepExponent num den)).1
    (scaleDown num den (stepExponent num den)).2

theorem neg_le_stepExponent (num den : Nat) : -1074 ≤ stepExponent num den :=
  le_max_right _ _

theorem nearestRank_eq_steps (hnum : 0 < num) :
    nearestRank num den = (stepExponent num den + 1074).toNat * binadeSize + steps num den := by
  rw [nearestRank, if_neg (Nat.pos_iff_ne_zero.mp hnum), steps, stepExponent]

/-- The steps a number is rounded to are half a step away from it at most. -/
theorem steps_close (num : Nat) (hden : 0 < den) :
    (steps num den : ℚ) ≤ num / den / 2 ^ stepExponent num den + 1 / 2 ∧
      (num : ℚ) / den / 2 ^ stepExponent num den ≤ steps num den + 1 / 2 := by
  rw [← scaleDown_ratio]
  exact roundHalfEven_close (scaleDown_snd_pos hden _)

/-- A number has fewer steps than two binades. -/
theorem div_step_lt (hnum : 0 < num) (hden : 0 < den) :
    (num : ℚ) / den / 2 ^ stepExponent num den < 2 ^ 53 := by
  have hstep : (0 : ℚ) < 2 ^ stepExponent num den := zpow_pos (by norm_num) _
  obtain ⟨_, hhigh⟩ := floorLog2_spec hnum hden
  have hexponent : floorLog2 num den + 1 ≤ 53 + stepExponent num den := by
    have hle : floorLog2 num den - 52 ≤ stepExponent num den := le_max_left _ _
    omega
  rw [div_lt_iff₀ hstep]
  calc (num : ℚ) / den < 2 ^ (floorLog2 num den + 1) := hhigh
    _ ≤ 2 ^ (53 + stepExponent num den) := zpow_le_zpow_right₀ (by norm_num) hexponent
    _ = 2 ^ 53 * 2 ^ stepExponent num den := by
        rw [zpow_add₀ (by norm_num)]
        norm_num

theorem steps_le (hnum : 0 < num) (hden : 0 < den) : steps num den ≤ 2 * binadeSize := by
  have hclose := (steps_close num hden).1
  have hlt := div_step_lt hnum hden
  have hbound : (steps num den : ℚ) < (2 * binadeSize + 1 : Nat) := by
    rw [Nat.cast_add, Nat.cast_mul, cast_binadeSize]
    push_cast
    linarith only [hclose, hlt]
  exact Nat.lt_succ_iff.mp (Nat.cast_lt.mp hbound)

/-- Above the smallest numbers a binade of steps at least goes into a number. -/
theorem le_div_step (hnum : 0 < num) (hden : 0 < den) (hbinade : -1074 < stepExponent num den) :
    (2 : ℚ) ^ 52 ≤ num / den / 2 ^ stepExponent num den := by
  have hstep : (0 : ℚ) < 2 ^ stepExponent num den := zpow_pos (by norm_num) _
  have hexponent : stepExponent num den = floorLog2 num den - 52 := by
    unfold stepExponent at hbinade ⊢
    omega
  rw [le_div_iff₀ hstep]
  calc (2 : ℚ) ^ 52 * 2 ^ stepExponent num den = 2 ^ (52 + stepExponent num den) := by
        rw [zpow_add₀ (by norm_num)]
        norm_num
    _ = 2 ^ floorLog2 num den := by
        rw [hexponent]
        congr 1
        ring
    _ ≤ num / den := (floorLog2_spec hnum hden).1

theorem le_steps (hnum : 0 < num) (hden : 0 < den) (hbinade : -1074 < stepExponent num den) :
    binadeSize ≤ steps num den := by
  apply le_roundHalfEven (scaleDown_snd_pos hden _)
  rw [scaleDown_ratio, cast_binadeSize]
  exact le_div_step hnum hden hbinade

namespace Binary64

/-- What a rank stands for, if it is given by a number of steps. -/
theorem significand_mul_spacing {e : Int} {m : Nat} (he : -1074 ≤ e) (hm : m ≤ 2 * binadeSize)
    (hbinade : -1074 < e → binadeSize ≤ m) :
    (significand ((e + 1074).toNat * binadeSize + m) : ℚ) *
        2 ^ spacing ((e + 1074).toNat * binadeSize + m) = m * 2 ^ e := by
  obtain ⟨n, hn⟩ := Int.eq_ofNat_of_zero_le (show 0 ≤ e + 1074 by omega)
  obtain rfl : e = n - 1074 := by omega
  rw [show ((n : Int) - 1074 + 1074).toNat = n by omega]
  by_cases hsmall : n * binadeSize + m < binadeSize
  · have hzero : n = 0 := by omega
    subst hzero
    rw [Nat.zero_mul, Nat.zero_add] at hsmall ⊢
    rw [significand, spacing, if_pos hsmall, if_pos hsmall]
    norm_num
  · rw [significand, spacing, if_neg hsmall, if_neg hsmall]
    have hge : binadeSize ≤ m := by
      by_cases hn : n = 0
      · subst hn
        omega
      · exact hbinade (by omega)
    obtain ⟨r, rfl⟩ := Nat.exists_eq_add_of_le hge
    have hsum : n * binadeSize + (binadeSize + r) = r + binadeSize * (n + 1) := by ring
    rw [hsum, Nat.add_mul_div_left _ _ (by decide), Nat.add_mul_mod_self_left]
    by_cases htop : r < binadeSize
    · rw [Nat.div_eq_of_lt htop, Nat.mod_eq_of_lt htop]
      congr 2
      push_cast
      ring
    · -- The rounding has reached the first number of the next binade.
      obtain rfl : r = binadeSize := by omega
      have hexponent : ((1 + (n + 1) : Nat) : Int) - 1075 = 1 + (n - 1074) := by omega
      rw [Nat.div_self (by decide), Nat.mod_self, Nat.add_zero, hexponent,
        zpow_add₀ (by norm_num), zpow_one, ← mul_assoc, Nat.cast_add, mul_two]

/-- A number that is not below the smallest binade grows by one part in 2^53 at most when it is
rounded. -/
theorem magnitude_nearestRank_le (hnum : 0 < num) (hden : 0 < den)
    (hnormal : (2 : ℚ) ^ (-1022 : Int) ≤ num / den) :
    (significand (nearestRank num den) : ℚ) * 2 ^ spacing (nearestRank num den) ≤
      num / den * (1 + 1 / 2 ^ 53) := by
  have hstep : (0 : ℚ) < 2 ^ stepExponent num den := zpow_pos (by norm_num) _
  have hmost : (2 : ℚ) ^ 52 * 2 ^ stepExponent num den ≤ num / den := by
    have hlog : -1022 < floorLog2 num den + 1 :=
      (zpow_lt_zpow_iff_right₀ (by norm_num : (1 : ℚ) < 2)).mp
        (lt_of_le_of_lt hnormal (floorLog2_spec hnum hden).2)
    have hexponent : stepExponent num den + 52 = floorLog2 num den := by
      unfold stepExponent
      omega
    calc (2 : ℚ) ^ 52 * 2 ^ stepExponent num den = 2 ^ (stepExponent num den + 52) := by
          rw [zpow_add₀ (by norm_num), mul_comm]
          norm_num
      _ ≤ num / den := by
          rw [hexponent]
          exact (floorLog2_spec hnum hden).1
  have hclose := (steps_close num hden).1
  rw [nearestRank_eq_steps hnum, significand_mul_spacing (neg_le_stepExponent num den)
    (steps_le hnum hden) (le_steps hnum hden)]
  have hwhole : (num : ℚ) / den / 2 ^ stepExponent num den * 2 ^ stepExponent num den = num / den :=
    div_mul_cancel₀ _ hstep.ne'
  have hscaled := mul_le_mul_of_nonneg_right hclose hstep.le
  rw [add_mul, hwhole] at hscaled
  linarith only [hscaled, hmost]

end Binary64

/-- A number below half a step past the greatest magnitude is rounded to a finite one. -/
theorem nearestRank_lt_rankCount (hden : 0 < den)
    (h : (num : ℚ) / den < (2 ^ 53 - 1 / 2) * 2 ^ (971 : Int)) :
    nearestRank num den < rankCount := by
  rcases Nat.eq_zero_or_pos num with rfl | hnum
  · rw [nearestRank, if_pos rfl]
    decide
  · have hlog : floorLog2 num den < 1024 := by
      apply (zpow_lt_zpow_iff_right₀ (by norm_num : (1 : ℚ) < 2)).mp
      refine lt_trans (lt_of_le_of_lt (floorLog2_spec hnum hden).1 h) ?_
      rw [show (1024 : Int) = 53 + 971 by norm_num, zpow_add₀ (by norm_num)]
      exact mul_lt_mul_of_pos_right (by norm_num) (zpow_pos (by norm_num) _)
    have hmost := steps_le hnum hden
    rw [nearestRank_eq_steps hnum]
    by_cases hlast : stepExponent num den = 971
    · have hclose := (steps_close num hden).1
      rw [hlast] at hclose
      rw [← div_lt_iff₀ (zpow_pos (by norm_num) _)] at h
      have hlt : (steps num den : ℚ) < (2 * binadeSize : Nat) := by
        rw [Nat.cast_mul, cast_binadeSize]
        push_cast
        linarith only [hclose, h]
      rw [hlast, rankCount_eq_last]
      exact Nat.add_lt_add_left (Nat.cast_lt.mp hlt) _
    · have hexponent : (stepExponent num den + 1074).toNat ≤ 2044 := by
        unfold stepExponent at hlast ⊢
        omega
      calc (stepExponent num den + 1074).toNat * binadeSize + steps num den
          ≤ 2044 * binadeSize + 2 * binadeSize :=
            Nat.add_le_add (Nat.mul_le_mul_right binadeSize hexponent) hmost
        _ < rankCount := by decide

/-- A number that is rounded to a magnitude below the three greatest ones is itself three and a half
steps below the next power of two. -/
theorem div_le_of_nearestRank_lt (hden : 0 < den) (h : nearestRank num den + 3 < rankCount) :
    (num : ℚ) / den ≤ (2 ^ 53 - 7 / 2) * 2 ^ (971 : Int) := by
  have hlast : (0 : ℚ) < 2 ^ (971 : Int) := zpow_pos (by norm_num) _
  by_contra hbig
  rw [not_le] at hbig
  have hpos : (0 : ℚ) < num / den := lt_trans (mul_pos (by norm_num) hlast) hbig
  have hnum : 0 < num := by
    rcases Nat.eq_zero_or_pos num with rfl | hnum
    · rw [Nat.cast_zero, zero_div] at hpos
      exact absurd hpos (lt_irrefl _)
    · exact hnum
  have hlog : 1023 < floorLog2 num den + 1 := by
    apply (zpow_lt_zpow_iff_right₀ (by norm_num : (1 : ℚ) < 2)).mp
    refine lt_trans (lt_of_le_of_lt ?_ hbig) (floorLog2_spec hnum hden).2
    rw [show (1023 : Int) = 52 + 971 by norm_num, zpow_add₀ (by norm_num)]
    exact mul_le_mul_of_nonneg_right (by norm_num) hlast.le
  by_cases hnext : 1024 ≤ floorLog2 num den
  · have hpast : (2 : ℚ) ^ (1024 : Int) ≤ num / den :=
      le_trans (zpow_le_zpow_right₀ (by norm_num) hnext) (floorLog2_spec hnum hden).1
    have hcount := rankCount_le_nearestRank hden hpast
    omega
  · have hexponent : stepExponent num den = 971 := by
      unfold stepExponent
      omega
    have hclose := (steps_close num hden).2
    rw [hexponent] at hclose
    rw [← lt_div_iff₀ hlast] at hbig
    have hlt : ((2 * binadeSize : Nat) : ℚ) < (steps num den + 4 : Nat) := by
      rw [Nat.cast_mul, Nat.cast_add, cast_binadeSize]
      push_cast
      linarith only [hclose, hbig]
    have hmany : 2 * binadeSize < steps num den + 4 := Nat.cast_lt.mp hlt
    rw [nearestRank_eq_steps hnum, hexponent, rankCount_eq_last, Nat.add_assoc,
      Nat.add_lt_add_iff_left] at h
    omega

end

end Number
end RecordFilter
