/-
Rounding depends on the number alone.  A fraction is rounded by way of the power of two below it and
of a whole number of steps of that size, all of it in natural numbers; `nearestRank_congr` says that
two fractions of one rational number are rounded alike.  A decimal is read through such a fraction,
so decimals of one value are read alike, by `toBinary64_congr`, in particular the same digits with
the point at another place.

Magnitudes are fixed by rounding: `nearestRank_magnitude`.
-/
import Mathlib.Data.Rat.Cast.Order
import Mathlib.Tactic.FieldSimp
import Mathlib.Tactic.Linarith
import Mathlib.Tactic.NormNum
import Mathlib.Tactic.Positivity
import Mathlib.Tactic.Ring
import RecordFilter.Number.Decimal

namespace RecordFilter
namespace Number

/-! ## Fractions -/

theorem scaleDown_snd_pos {num den : Nat} (hden : 0 < den) (power : Int) :
    0 < (scaleDown num den power).2 := by
  unfold scaleDown
  split
  · exact Nat.mul_pos hden (Nat.pow_pos (by omega))
  · exact hden

theorem scaleDown_ratio (num den : Nat) (power : Int) :
    ((scaleDown num den power).1 : ℚ) / (scaleDown num den power).2 =
      num / den / (2 : ℚ) ^ power := by
  unfold scaleDown
  split
  · rename_i hpower
    obtain ⟨n, rfl⟩ := Int.eq_ofNat_of_zero_le hpower
    simp only [Int.toNat_natCast, zpow_natCast, Nat.cast_mul, Nat.pow_eq, Nat.cast_pow,
      Nat.cast_ofNat]
    rw [div_div]
  · rename_i hpower
    obtain ⟨n, hn⟩ := Int.eq_ofNat_of_zero_le (show 0 ≤ -power by omega)
    obtain rfl : power = -(n : Int) := by omega
    simp only [neg_neg, Int.toNat_natCast, zpow_neg, zpow_natCast, Nat.cast_mul, Nat.pow_eq,
      Nat.cast_pow, Nat.cast_ofNat]
    rw [div_inv_eq_mul]
    ring

/-- Cancelling a common factor does not change what a quotient is rounded to. -/
theorem roundHalfEven_mul_left {c : Nat} (hc : 0 < c) (num den : Nat) :
    roundHalfEven (c * num) (c * den) = roundHalfEven num den := by
  have hdiv : c * num / (c * den) = num / den := Nat.mul_div_mul_left num den hc
  have hmod : 2 * (c * num % (c * den)) = c * (2 * (num % den)) := by
    rw [Nat.mul_mod_mul_left]
    ring
  unfold roundHalfEven
  simp only [hdiv, hmod, Nat.mul_lt_mul_left hc]

theorem roundHalfEven_congr {a b c d : Nat} (hb : 0 < b) (hd : 0 < d)
    (h : (a : ℚ) / b = c / d) : roundHalfEven a b = roundHalfEven c d := by
  have hcross : a * d = c * b := by
    have hbq : (b : ℚ) ≠ 0 := Nat.cast_ne_zero.mpr (by omega)
    have hdq : (d : ℚ) ≠ 0 := Nat.cast_ne_zero.mpr (by omega)
    exact_mod_cast (div_eq_div_iff hbq hdq).mp h
  calc roundHalfEven a b = roundHalfEven (d * a) (d * b) := (roundHalfEven_mul_left hd a b).symm
    _ = roundHalfEven (b * c) (b * d) := by rw [Nat.mul_comm d a, hcross, Nat.mul_comm c b,
        Nat.mul_comm d b]
    _ = roundHalfEven c d := roundHalfEven_mul_left hb c d

theorem roundHalfEven_of_dvd {a b m : Nat} (hb : 0 < b) (h : (a : ℚ) / b = m) :
    roundHalfEven a b = m := by
  have hone : (a : ℚ) / b = (m : Nat) / (1 : Nat) := by rw [h, Nat.cast_one, div_one]
  rw [roundHalfEven_congr hb Nat.one_pos hone]
  unfold roundHalfEven
  simp only [Nat.div_one, Nat.mod_one, Nat.mul_zero, Nat.zero_lt_one, if_true]

theorem roundHalfEven_eq_zero {a b : Nat} (hb : 0 < b) (h : (a : ℚ) / b < 1 / 2) :
    roundHalfEven a b = 0 := by
  have hbq : (0 : ℚ) < b := Nat.cast_pos.mpr hb
  have htwice : 2 * a < b := by
    rw [div_lt_div_iff₀ hbq (by norm_num), one_mul] at h
    have hcast : a * 2 < b := by exact_mod_cast h
    omega
  have hdiv : a / b = 0 := Nat.div_eq_of_lt (by omega)
  have hmod : a % b = a := Nat.mod_eq_of_lt (by omega)
  unfold roundHalfEven
  simp only [hdiv, hmod, if_pos htwice]

theorem le_roundHalfEven {a b m : Nat} (hb : 0 < b) (h : (m : ℚ) ≤ a / b) :
    m ≤ roundHalfEven a b := by
  have hbq : (0 : ℚ) < b := Nat.cast_pos.mpr hb
  have hle : m ≤ a / b := by
    rw [Nat.le_div_iff_mul_le hb]
    rw [le_div_iff₀ hbq] at h
    exact_mod_cast h
  unfold roundHalfEven
  dsimp only
  split
  · exact hle
  · split
    · omega
    · split <;> omega

/-! ## The power of two below a fraction -/

section Logarithm

variable {num den : Nat}

theorem two_zpow_log2_le {n : Nat} (h : 0 < n) : (2 : ℚ) ^ (n.log2 : Int) ≤ n := by
  rw [zpow_natCast]
  exact_mod_cast Nat.log2_self_le (by omega)

theorem lt_two_zpow_log2 {n : Nat} (h : 0 < n) : (n : ℚ) < 2 ^ ((n.log2 : Int) + 1) := by
  have hlt : n < 2 ^ (n.log2 + 1) := (Nat.log2_lt (by omega)).mp (Nat.lt_succ_self _)
  exact_mod_cast hlt

theorem floorLog2_spec (hnum : 0 < num) (hden : 0 < den) :
    (2 : ℚ) ^ floorLog2 num den ≤ num / den ∧ (num : ℚ) / den < 2 ^ (floorLog2 num den + 1) := by
  have hdenq : (0 : ℚ) < den := Nat.cast_pos.mpr hden
  have hpos : ∀ k : Int, (0 : ℚ) < 2 ^ k := fun k => zpow_pos (by norm_num) k
  -- The guess is one too high at most, and the comparison says whether it is.
  have hguess : (num : ℚ) / den < 2 ^ ((num.log2 : Int) - den.log2 + 1) := by
    rw [div_lt_iff₀ hdenq]
    calc (num : ℚ) < 2 ^ ((num.log2 : Int) + 1) := lt_two_zpow_log2 hnum
      _ = 2 ^ ((num.log2 : Int) - den.log2 + 1) * 2 ^ (den.log2 : Int) := by
          rw [← zpow_add₀ (by norm_num)]
          congr 1
          ring
      _ ≤ 2 ^ ((num.log2 : Int) - den.log2 + 1) * den :=
          mul_le_mul_of_nonneg_left (two_zpow_log2_le hden) (hpos _).le
  have hbelow : (2 : ℚ) ^ ((num.log2 : Int) - den.log2 - 1) < num / den := by
    rw [lt_div_iff₀ hdenq]
    calc (2 : ℚ) ^ ((num.log2 : Int) - den.log2 - 1) * den
        < 2 ^ ((num.log2 : Int) - den.log2 - 1) * 2 ^ ((den.log2 : Int) + 1) :=
          mul_lt_mul_of_pos_left (lt_two_zpow_log2 hden) (hpos _)
      _ = 2 ^ (num.log2 : Int) := by
          rw [← zpow_add₀ (by norm_num)]
          congr 1
          ring
      _ ≤ num := two_zpow_log2_le hnum
  have hscaled := scaleDown_ratio num den ((num.log2 : Int) - den.log2)
  have hscaledPos : (0 : ℚ) < (scaleDown num den ((num.log2 : Int) - den.log2)).2 :=
    Nat.cast_pos.mpr (scaleDown_snd_pos hden _)
  unfold floorLog2
  dsimp only
  split
  · rename_i hle
    have hone : (1 : ℚ) ≤ num / den / 2 ^ ((num.log2 : Int) - den.log2) := by
      rw [← hscaled, one_le_div hscaledPos]
      exact_mod_cast hle
    rw [one_le_div (hpos _)] at hone
    exact ⟨hone, hguess⟩
  · rename_i hlt
    have hone : (num : ℚ) / den / 2 ^ ((num.log2 : Int) - den.log2) < 1 := by
      rw [← hscaled, div_lt_one hscaledPos]
      exact_mod_cast Nat.lt_of_not_le hlt
    rw [div_lt_one (hpos _)] at hone
    rw [Int.sub_add_cancel]
    exact ⟨hbelow.le, hone⟩

theorem floorLog2_eq (hnum : 0 < num) (hden : 0 < den) {k : Int} (hlow : (2 : ℚ) ^ k ≤ num / den)
    (hhigh : (num : ℚ) / den < 2 ^ (k + 1)) : floorLog2 num den = k := by
  obtain ⟨hlow', hhigh'⟩ := floorLog2_spec hnum hden
  have hle : k < floorLog2 num den + 1 :=
    (zpow_lt_zpow_iff_right₀ (by norm_num : (1 : ℚ) < 2)).mp (lt_of_le_of_lt hlow hhigh')
  have hge : floorLog2 num den < k + 1 :=
    (zpow_lt_zpow_iff_right₀ (by norm_num : (1 : ℚ) < 2)).mp (lt_of_le_of_lt hlow' hhigh)
  omega

end Logarithm

/-! ## Rounding to a rank -/

section Rank

variable {num den : Nat}

/-- Two fractions of one number have one nearest rank. -/
theorem nearestRank_congr {num' den' : Nat} (hden : 0 < den) (hden' : 0 < den')
    (h : (num : ℚ) / den = num' / den') : nearestRank num den = nearestRank num' den' := by
  have hdenq : (den : ℚ) ≠ 0 := Nat.cast_ne_zero.mpr (by omega)
  have hdenq' : (den' : ℚ) ≠ 0 := Nat.cast_ne_zero.mpr (by omega)
  by_cases hzero : num = 0
  · have hzero' : num' = 0 := by
      rw [hzero, Nat.cast_zero, zero_div, eq_comm, div_eq_zero_iff] at h
      rcases h with h | h
      · exact_mod_cast h
      · exact absurd h hdenq'
    rw [hzero, hzero', nearestRank, if_pos rfl, nearestRank, if_pos rfl]
  · have hzero' : num' ≠ 0 := by
      rintro rfl
      rw [Nat.cast_zero, zero_div, div_eq_zero_iff] at h
      rcases h with h | h
      · exact hzero (by exact_mod_cast h)
      · exact hdenq h
    have hlog : floorLog2 num den = floorLog2 num' den' := by
      have hspec := floorLog2_spec (Nat.pos_of_ne_zero hzero') hden'
      rw [← h] at hspec
      exact floorLog2_eq (Nat.pos_of_ne_zero hzero) hden hspec.1 hspec.2
    rw [nearestRank, nearestRank, if_neg hzero, if_neg hzero']
    dsimp only
    rw [hlog]
    congr 1
    apply roundHalfEven_congr (scaleDown_snd_pos hden _) (scaleDown_snd_pos hden' _)
    rw [scaleDown_ratio, scaleDown_ratio, h]

/-- A whole number of steps of the size that belongs to it is a rank as it stands. -/
theorem nearestRank_of_multiple {m : Nat} {e : Int} (hm : 0 < m) (hden : 0 < den)
    (h : (num : ℚ) / den = m * 2 ^ e)
    (hsize : (e = -1074 ∧ m < binadeSize) ∨
      (-1074 ≤ e ∧ binadeSize ≤ m ∧ m < 2 * binadeSize)) :
    nearestRank num den = (e + 1074).toNat * binadeSize + m := by
  have hepos : (0 : ℚ) < 2 ^ e := zpow_pos (by norm_num) e
  have hmq : (0 : ℚ) < m := Nat.cast_pos.mpr hm
  have hnum : 0 < num := by
    rcases Nat.eq_zero_or_pos num with rfl | hpos
    · rw [Nat.cast_zero, zero_div] at h
      exact absurd h (mul_pos hmq hepos).ne
    · exact hpos
  obtain ⟨hlow, hhigh⟩ := floorLog2_spec hnum hden
  rw [h] at hlow hhigh
  have hshift : ∀ k : Int, (2 : ℚ) ^ k = 2 ^ (k - e) * 2 ^ e := fun k => by
    rw [← zpow_add₀ (by norm_num), Int.sub_add_cancel]
  rw [hshift (floorLog2 num den), mul_le_mul_iff_left₀ hepos] at hlow
  rw [hshift (floorLog2 num den + 1), mul_lt_mul_iff_left₀ hepos] at hhigh
  have hspacing : max (floorLog2 num den - 52) (-1074) = e := by
    rcases hsize with ⟨he, hsmall⟩ | ⟨he, hge, hlt⟩
    · have hlt : (2 : ℚ) ^ (floorLog2 num den - e) < 2 ^ (52 : Int) := by
        refine lt_of_le_of_lt hlow ?_
        calc (m : ℚ) < (binadeSize : Nat) := Nat.cast_lt.mpr hsmall
          _ = 2 ^ (52 : Int) := by norm_num
      have hlog := (zpow_lt_zpow_iff_right₀ (by norm_num : (1 : ℚ) < 2)).mp hlt
      omega
    · have hupper : (2 : ℚ) ^ (floorLog2 num den - e) < 2 ^ (53 : Int) := by
        refine lt_of_le_of_lt hlow ?_
        calc (m : ℚ) < (2 * binadeSize : Nat) := Nat.cast_lt.mpr hlt
          _ = 2 ^ (53 : Int) := by norm_num
      have hlower : (2 : ℚ) ^ (52 : Int) < 2 ^ (floorLog2 num den + 1 - e) := by
        refine lt_of_le_of_lt ?_ hhigh
        calc (2 : ℚ) ^ (52 : Int) = (binadeSize : Nat) := by norm_num
          _ ≤ m := Nat.cast_le.mpr hge
      have hlog := (zpow_lt_zpow_iff_right₀ (by norm_num : (1 : ℚ) < 2)).mp hupper
      have hlog' := (zpow_lt_zpow_iff_right₀ (by norm_num : (1 : ℚ) < 2)).mp hlower
      omega
  have hround : roundHalfEven (scaleDown num den e).1 (scaleDown num den e).2 = m := by
    apply roundHalfEven_of_dvd (scaleDown_snd_pos hden e)
    rw [scaleDown_ratio, h, mul_div_assoc, div_self hepos.ne', mul_one]
  rw [nearestRank, if_neg (by omega)]
  dsimp only
  rw [hspacing, hround]

/-- What is less than half of the least magnitude is rounded to zero. -/
theorem nearestRank_eq_zero (hden : 0 < den) (h : (num : ℚ) / den < 2 ^ (-1075 : Int)) :
    nearestRank num den = 0 := by
  by_cases hzero : num = 0
  · rw [nearestRank, if_pos hzero]
  · obtain ⟨hlow, _⟩ := floorLog2_spec (Nat.pos_of_ne_zero hzero) hden
    have hlog := (zpow_lt_zpow_iff_right₀ (by norm_num : (1 : ℚ) < 2)).mp (lt_of_le_of_lt hlow h)
    have hspacing : max (floorLog2 num den - 52) (-1074) = -1074 := by omega
    have hround :
        roundHalfEven (scaleDown num den (-1074)).1 (scaleDown num den (-1074)).2 = 0 := by
      apply roundHalfEven_eq_zero (scaleDown_snd_pos hden _)
      have hstep : (0 : ℚ) < 2 ^ (-1074 : Int) := zpow_pos (by norm_num) _
      rw [scaleDown_ratio, div_lt_iff₀ hstep]
      refine lt_of_lt_of_eq h ?_
      rw [show (-1075 : Int) = -1 + -1074 by norm_num, zpow_add₀ (by norm_num)]
      norm_num
    rw [nearestRank, if_neg hzero]
    dsimp only
    rw [hspacing, hround]
    rfl

/-- What is past every binade has no finite rank. -/
theorem rankCount_le_nearestRank (hden : 0 < den) (h : (2 : ℚ) ^ (1024 : Int) ≤ num / den) :
    rankCount ≤ nearestRank num den := by
  have hpos : (0 : ℚ) < num / den := lt_of_lt_of_le (zpow_pos (by norm_num) _) h
  have hnum : 0 < num := by
    rcases Nat.eq_zero_or_pos num with rfl | hnum
    · rw [Nat.cast_zero, zero_div] at hpos
      exact absurd hpos (lt_irrefl _)
    · exact hnum
  obtain ⟨hlow, hhigh⟩ := floorLog2_spec hnum hden
  have hlog := (zpow_lt_zpow_iff_right₀ (by norm_num : (1 : ℚ) < 2)).mp (lt_of_le_of_lt h hhigh)
  have hspacing : max (floorLog2 num den - 52) (-1074) = floorLog2 num den - 52 := by omega
  have hround : binadeSize ≤ roundHalfEven (scaleDown num den (floorLog2 num den - 52)).1
      (scaleDown num den (floorLog2 num den - 52)).2 := by
    apply le_roundHalfEven (scaleDown_snd_pos hden _)
    have hstep : (0 : ℚ) < 2 ^ (floorLog2 num den - 52) := zpow_pos (by norm_num) _
    rw [scaleDown_ratio, le_div_iff₀ hstep]
    calc ((binadeSize : Nat) : ℚ) * 2 ^ (floorLog2 num den - 52)
        = 2 ^ (52 : Int) * 2 ^ (floorLog2 num den - 52) := by norm_num
      _ = 2 ^ floorLog2 num den := by
          rw [← zpow_add₀ (by norm_num)]
          congr 1
          ring
      _ ≤ num / den := hlow
  rw [nearestRank, if_neg (by omega)]
  dsimp only
  rw [hspacing]
  have hcount : 2046 ≤ (floorLog2 num den - 52 + 1074).toNat := by omega
  have hmul := Nat.mul_le_mul_right binadeSize hcount
  have hall : rankCount = 2046 * binadeSize + binadeSize := by decide
  omega

end Rank

namespace Binary64

theorem magnitude_ratio (rank : Nat) :
    ((magnitude rank).1 : ℚ) / (magnitude rank).2 = significand rank * 2 ^ spacing rank := by
  unfold magnitude
  split
  · rename_i hspacing
    obtain ⟨n, hn⟩ := Int.eq_ofNat_of_zero_le hspacing
    rw [hn, Int.toNat_natCast, zpow_natCast]
    simp only [Nat.cast_mul, Nat.pow_eq, Nat.cast_pow, Nat.cast_ofNat, Nat.cast_one, div_one]
  · rename_i hspacing
    obtain ⟨n, hn⟩ := Int.eq_ofNat_of_zero_le (show 0 ≤ -spacing rank by omega)
    have hneg : spacing rank = -(n : Int) := by omega
    rw [hneg, neg_neg, Int.toNat_natCast, zpow_neg, zpow_natCast]
    simp only [Nat.pow_eq, Nat.cast_pow, Nat.cast_ofNat]
    rw [div_eq_mul_inv]

theorem magnitude_snd_pos (rank : Nat) : 0 < (magnitude rank).2 := by
  unfold magnitude
  split
  · exact Nat.one_pos
  · exact Nat.pow_pos (by omega)

/-- Every magnitude is rounded to itself. -/
theorem nearestRank_magnitude {num den rank : Nat} (hrank : 0 < rank) (hden : 0 < den)
    (h : (num : ℚ) / den = significand rank * 2 ^ spacing rank) : nearestRank num den = rank := by
  by_cases hsmall : rank < binadeSize
  · rw [significand, spacing, if_pos hsmall, if_pos hsmall] at h
    rw [nearestRank_of_multiple hrank hden h (Or.inl ⟨rfl, hsmall⟩), Int.add_left_neg,
      Int.toNat_zero, Nat.zero_mul, Nat.zero_add]
  · rw [significand, spacing, if_neg hsmall, if_neg hsmall] at h
    have hmod : rank % binadeSize < binadeSize := Nat.mod_lt rank (by decide)
    have hdiv : 1 ≤ rank / binadeSize := (Nat.one_le_div_iff (by decide)).mpr (by omega)
    have hsplit := Nat.div_add_mod rank binadeSize
    rw [nearestRank_of_multiple (by omega) hden h (Or.inr (by omega))]
    have hpower :
        ((rank / binadeSize : Nat) - 1075 + 1074 : Int).toNat = rank / binadeSize - 1 := by
      omega
    have hback : rank / binadeSize = (rank / binadeSize - 1) + 1 := by omega
    rw [hpower]
    rw [hback] at hsplit
    rw [Nat.mul_add] at hsplit
    rw [Nat.mul_comm]
    omega

end Binary64

/-! ## Decimals -/

namespace Decimal

/-- The number that a decimal stands for. -/
def value (d : Decimal) : ℚ :=
  d.digits * 10 ^ d.exponent

theorem cast_pow_le {a b m n : Nat} (h : Nat.pow a m ≤ Nat.pow b n) :
    (a : ℚ) ^ (m : Int) ≤ (b : ℚ) ^ (n : Int) := by
  rw [zpow_natCast, zpow_natCast]
  exact_mod_cast h

theorem two_pow_le_ten_pow : (2 : ℚ) ^ (1024 : Int) ≤ 10 ^ (310 : Int) :=
  cast_pow_le (a := 2) (b := 10) (m := 1024) (n := 310) (by decide +kernel)

theorem ten_pow_le_two_pow : (10 : ℚ) ^ (-330 : Int) ≤ 2 ^ (-1075 : Int) := by
  have hpow : (2 : ℚ) ^ (1075 : Int) ≤ 10 ^ (330 : Int) :=
    cast_pow_le (a := 2) (b := 10) (m := 1075) (n := 330) (by decide +kernel)
  rw [zpow_neg, zpow_neg]
  exact inv_anti₀ (zpow_pos (by norm_num) _) hpow

section Range

variable {d : Decimal}

theorem two_zpow_le_value (hdigits : d.digits ≠ 0) (hbig : 310 ≤ d.exponent) :
    (2 : ℚ) ^ (1024 : Int) ≤ d.value := by
  have hone : (1 : ℚ) ≤ d.digits := by exact_mod_cast Nat.one_le_iff_ne_zero.mpr hdigits
  have hten : (0 : ℚ) < 10 ^ d.exponent := zpow_pos (by norm_num) _
  calc (2 : ℚ) ^ (1024 : Int) ≤ 10 ^ (310 : Int) := two_pow_le_ten_pow
    _ ≤ 10 ^ d.exponent := zpow_le_zpow_right₀ (by norm_num) hbig
    _ ≤ d.digits * 10 ^ d.exponent := le_mul_of_one_le_left hten.le hone

/-- Three binary places are less than one decimal place. -/
theorem lt_ten_zpow {n : Nat} (h : n ≠ 0) : (n : ℚ) < 10 ^ ((n.log2 / 3 + 1 : Nat) : Int) := by
  have hlog : n.log2 + 1 ≤ 3 * (n.log2 / 3 + 1) := by omega
  have hlt : n < 2 ^ (n.log2 + 1) := (Nat.log2_lt h).mp (Nat.lt_succ_self _)
  calc (n : ℚ) < 2 ^ (n.log2 + 1) := by exact_mod_cast hlt
    _ ≤ 2 ^ (3 * (n.log2 / 3 + 1)) := pow_le_pow_right₀ (by norm_num) hlog
    _ = 8 ^ (n.log2 / 3 + 1) := by rw [pow_mul]; norm_num
    _ ≤ 10 ^ (n.log2 / 3 + 1) := pow_le_pow_left₀ (by norm_num) (by norm_num) _
    _ = 10 ^ ((n.log2 / 3 + 1 : Nat) : Int) := (zpow_natCast _ _).symm

theorem value_lt_two_zpow (hdigits : d.digits ≠ 0)
    (hsmall : d.exponent + (d.digits.log2 / 3 + 1 : Nat) ≤ -330) :
    d.value < (2 : ℚ) ^ (-1075 : Int) := by
  have hten : (0 : ℚ) < 10 ^ d.exponent := zpow_pos (by norm_num) _
  calc (d.digits : ℚ) * 10 ^ d.exponent
      < 10 ^ ((d.digits.log2 / 3 + 1 : Nat) : Int) * 10 ^ d.exponent :=
        mul_lt_mul_of_pos_right (lt_ten_zpow hdigits) hten
    _ = 10 ^ (d.exponent + (d.digits.log2 / 3 + 1 : Nat)) := by
        rw [← zpow_add₀ (by norm_num), Int.add_comm]
    _ ≤ 10 ^ (-330 : Int) := zpow_le_zpow_right₀ (by norm_num) hsmall
    _ ≤ 2 ^ (-1075 : Int) := ten_pow_le_two_pow

end Range

/-- A decimal is read as the number nearest to it; the shortcuts for numbers out of range only save
work. -/
theorem toBinary64_eq {d : Decimal} {num den : Nat} (negative : Bool) (hden : 0 < den)
    (h : (num : ℚ) / den = d.value) :
    d.toBinary64 negative = .ofRank negative (nearestRank num den) := by
  unfold toBinary64
  split
  · rename_i hzero
    have hnum : nearestRank num den = 0 := by
      rw [value, hzero, Nat.cast_zero, zero_mul] at h
      apply nearestRank_eq_zero hden
      rw [h]
      exact zpow_pos (by norm_num) _
    rw [hnum]
    rfl
  · rename_i hdigits
    split
    · rename_i hbig
      have hcount : rankCount ≤ nearestRank num den := by
        apply rankCount_le_nearestRank hden
        rw [h]
        exact two_zpow_le_value hdigits hbig
      rw [Binary64.ofRank, dif_neg (by omega)]
    · split
      · rename_i hsmall
        have hzero : nearestRank num den = 0 := by
          apply nearestRank_eq_zero hden
          rw [h]
          exact value_lt_two_zpow hdigits hsmall
        rw [hzero]
        rfl
      · split
        · rename_i hexponent
          obtain ⟨n, hn⟩ := Int.eq_ofNat_of_zero_le hexponent
          rw [Binary64.ofQuotient]
          congr 1
          apply nearestRank_congr Nat.one_pos hden
          rw [h, value, hn, Int.toNat_natCast, zpow_natCast]
          simp only [Nat.cast_mul, Nat.pow_eq, Nat.cast_pow, Nat.cast_ofNat, Nat.cast_one, div_one]
        · rename_i hexponent
          obtain ⟨n, hn⟩ := Int.eq_ofNat_of_zero_le (show 0 ≤ -d.exponent by omega)
          have hneg : d.exponent = -(n : Int) := by omega
          rw [Binary64.ofQuotient]
          congr 1
          apply nearestRank_congr (Nat.pow_pos (by omega)) hden
          rw [h, value, hneg, neg_neg, Int.toNat_natCast, zpow_neg, zpow_natCast]
          simp only [Nat.cast_pow, Nat.cast_ofNat]
          rw [div_eq_mul_inv]

theorem exists_ratio (d : Decimal) : ∃ num den : Nat, 0 < den ∧ (num : ℚ) / den = d.value := by
  rcases Int.eq_nat_or_neg d.exponent with ⟨n, hn | hn⟩
  · refine ⟨d.digits * 10 ^ n, 1, Nat.one_pos, ?_⟩
    rw [value, hn, zpow_natCast]
    push_cast
    rw [div_one]
  · refine ⟨d.digits, 10 ^ n, by positivity, ?_⟩
    rw [value, hn, zpow_neg, zpow_natCast]
    push_cast
    rw [div_eq_mul_inv]

/-- Decimals of one value are read as one number. -/
theorem toBinary64_congr {d d' : Decimal} (h : d.value = d'.value) (negative : Bool) :
    d.toBinary64 negative = d'.toBinary64 negative := by
  obtain ⟨num, den, hden, hratio⟩ := exists_ratio d
  rw [toBinary64_eq negative hden hratio, toBinary64_eq negative hden (hratio.trans h)]

end Decimal
end Number
end RecordFilter
