/-
Rounding keeps the order.  A number is not rounded below what a lower number is rounded to, so whole
numbers stand as double-precision numbers in the order that they have, by `standing_mono`, though
two of them may come to stand at one place.  Up to 2^53 none do: there every whole number is a
double-precision number, and `ofInt_injective` says that they stay apart.
-/
import RecordFilter.Proofs.Number.Bounds

namespace RecordFilter
namespace Number

/-! ## Quotients -/

section

variable {a b c d : Nat}

theorem div_le_roundHalfEven (a d : Nat) : a / d ≤ roundHalfEven a d := by
  unfold roundHalfEven
  dsimp only
  split
  · exact Nat.le_refl _
  · split
    · omega
    · split <;> omega

theorem roundHalfEven_le_succ_div (a d : Nat) : roundHalfEven a d ≤ a / d + 1 := by
  unfold roundHalfEven
  dsimp only
  split
  · omega
  · split
    · exact Nat.le_refl _
    · split <;> omega

theorem roundHalfEven_le_of_le (h : a ≤ b) : roundHalfEven a d ≤ roundHalfEven b d := by
  have hdiv : a / d ≤ b / d := Nat.div_le_div_right h
  rcases Nat.lt_or_eq_of_le hdiv with hlt | heq
  · calc roundHalfEven a d ≤ a / d + 1 := roundHalfEven_le_succ_div a d
      _ ≤ b / d := hlt
      _ ≤ roundHalfEven b d := div_le_roundHalfEven b d
  · -- With one floor, the remainders decide.
    have ha : d * (a / d) + a % d = a := Nat.div_add_mod a d
    have hb : d * (b / d) + b % d = b := Nat.div_add_mod b d
    rw [← heq] at hb
    have hmod : a % d ≤ b % d := by omega
    unfold roundHalfEven
    dsimp only
    rw [← heq]
    repeat' split
    all_goals omega

theorem roundHalfEven_mono (hb : 0 < b) (hd : 0 < d) (h : (a : ℚ) / b ≤ c / d) :
    roundHalfEven a b ≤ roundHalfEven c d := by
  have hcross : d * a ≤ b * c := by
    rw [div_le_div_iff₀ (Nat.cast_pos.mpr hb) (Nat.cast_pos.mpr hd)] at h
    have hcast : a * d ≤ c * b := by exact_mod_cast h
    rw [Nat.mul_comm d, Nat.mul_comm b]
    exact hcast
  calc roundHalfEven a b = roundHalfEven (d * a) (d * b) := (roundHalfEven_mul_left hd a b).symm
    _ ≤ roundHalfEven (b * c) (d * b) := roundHalfEven_le_of_le hcross
    _ = roundHalfEven (b * c) (b * d) := by rw [Nat.mul_comm d b]
    _ = roundHalfEven c d := roundHalfEven_mul_left hb c d

end

/-! ## Ranks -/

section

variable {num den num' den' : Nat}

theorem stepExponent_mono (hnum : 0 < num) (hden : 0 < den) (hnum' : 0 < num') (hden' : 0 < den')
    (h : (num : ℚ) / den ≤ num' / den') : stepExponent num den ≤ stepExponent num' den' := by
  have hlog : floorLog2 num den < floorLog2 num' den' + 1 := by
    apply (zpow_lt_zpow_iff_right₀ (by norm_num : (1 : ℚ) < 2)).mp
    calc (2 : ℚ) ^ floorLog2 num den ≤ num / den := (floorLog2_spec hnum hden).1
      _ ≤ num' / den' := h
      _ < 2 ^ (floorLog2 num' den' + 1) := (floorLog2_spec hnum' hden').2
  unfold stepExponent
  omega

/-- With steps of one size, a greater number has no fewer of them. -/
theorem steps_mono (hden : 0 < den) (hden' : 0 < den')
    (hsize : stepExponent num den = stepExponent num' den') (h : (num : ℚ) / den ≤ num' / den') :
    steps num den ≤ steps num' den' := by
  have hstep : (0 : ℚ) < 2 ^ stepExponent num' den' := zpow_pos (by norm_num) _
  apply roundHalfEven_mono (scaleDown_snd_pos hden _) (scaleDown_snd_pos hden' _)
  rw [scaleDown_ratio, scaleDown_ratio, hsize]
  exact div_le_div_of_nonneg_right h hstep.le

/-- A number is not rounded below what a lower number is rounded to. -/
theorem nearestRank_mono (hden : 0 < den) (hden' : 0 < den') (h : (num : ℚ) / den ≤ num' / den') :
    nearestRank num den ≤ nearestRank num' den' := by
  rcases Nat.eq_zero_or_pos num with rfl | hnum
  · rw [nearestRank, if_pos rfl]
    exact Nat.zero_le _
  · have hnum' : 0 < num' := by
      have hpos : (0 : ℚ) < num' / den' :=
        lt_of_lt_of_le (div_pos (Nat.cast_pos.mpr hnum) (Nat.cast_pos.mpr hden)) h
      rw [div_pos_iff_of_pos_right (Nat.cast_pos.mpr hden')] at hpos
      exact Nat.cast_pos.mp hpos
    have hleast := neg_le_stepExponent num den
    rw [nearestRank_eq_steps hnum, nearestRank_eq_steps hnum']
    rcases (stepExponent_mono hnum hden hnum' hden' h).lt_or_eq with hlt | hsize
    · -- The lower number gets to the start of the next binade at most.
      have hexponent : (stepExponent num den + 1074).toNat + 1 ≤
          (stepExponent num' den' + 1074).toNat := by omega
      have hmost := steps_le hnum hden
      have hfull := le_steps hnum' hden' (by omega)
      have hbinades := Nat.mul_le_mul_right binadeSize hexponent
      rw [Nat.add_mul, Nat.one_mul] at hbinades
      omega
    · rw [hsize]
      exact Nat.add_le_add_left (steps_mono hden hden' hsize h) _

theorem nearestRank_whole_mono {m n : Nat} (h : m ≤ n) : nearestRank m 1 ≤ nearestRank n 1 := by
  apply nearestRank_mono Nat.one_pos Nat.one_pos
  rw [Nat.cast_one, div_one, div_one]
  exact Nat.cast_le.mpr h

theorem nearestRank_whole_pos {n : Nat} (h : 0 < n) : 0 < nearestRank n 1 :=
  calc 0 < nearestRank 1 1 := by decide +kernel
    _ ≤ nearestRank n 1 := nearestRank_whole_mono h

/-- Below 2^53 a step is one or a fraction of one, and at 2^53 it is two; so a whole number up to
there is a whole number of steps. -/
theorem exists_steps_of_whole {n : Nat} (hpos : 0 < n) (h : n ≤ 2 * binadeSize) :
    ∃ m : Nat, (n : ℚ) / (1 : Nat) / 2 ^ stepExponent n 1 = m := by
  rcases Nat.lt_or_eq_of_le h with hlt | rfl
  · have hlog : floorLog2 n 1 < 53 := by
      apply (zpow_lt_zpow_iff_right₀ (by norm_num : (1 : ℚ) < 2)).mp
      calc (2 : ℚ) ^ floorLog2 n 1 ≤ n / (1 : Nat) := (floorLog2_spec hpos Nat.one_pos).1
        _ = n := by rw [Nat.cast_one, div_one]
        _ < (2 * binadeSize : Nat) := Nat.cast_lt.mpr hlt
        _ = 2 ^ (53 : Int) := by norm_num
    have hexponent : stepExponent n 1 ≤ 0 := by
      unfold stepExponent
      omega
    obtain ⟨k, hk⟩ := Int.eq_ofNat_of_zero_le (Int.neg_nonneg_of_nonpos hexponent)
    have hstep : stepExponent n 1 = -(k : Int) := by omega
    refine ⟨n * 2 ^ k, ?_⟩
    rw [hstep, zpow_neg, zpow_natCast, div_inv_eq_mul, Nat.cast_one, div_one]
    push_cast
    rfl
  · have hstep : stepExponent (2 * binadeSize) 1 = 1 := by decide +kernel
    refine ⟨binadeSize, ?_⟩
    rw [hstep]
    norm_num

namespace Binary64

/-- Up to 2^53 whole numbers are not rounded. -/
theorem magnitude_nearestRank_whole {n : Nat} (hpos : 0 < n) (h : n ≤ 2 * binadeSize) :
    (significand (nearestRank n 1) : ℚ) * 2 ^ spacing (nearestRank n 1) = n := by
  have hstep : (2 : ℚ) ^ stepExponent n 1 ≠ 0 := zpow_ne_zero _ (by norm_num)
  obtain ⟨m, hm⟩ := exists_steps_of_whole hpos h
  have hsteps : steps n 1 = m := by
    apply roundHalfEven_of_dvd (scaleDown_snd_pos Nat.one_pos _)
    rw [scaleDown_ratio, hm]
  rw [nearestRank_eq_steps hpos, significand_mul_spacing (neg_le_stepExponent n 1)
    (steps_le hpos Nat.one_pos) (le_steps hpos Nat.one_pos), hsteps, ← hm, div_mul_cancel₀ _ hstep,
    Nat.cast_one, div_one]

theorem nearestRank_whole_injective {m n : Nat} (hm : m ≤ 2 * binadeSize) (hn : n ≤ 2 * binadeSize)
    (h : nearestRank m 1 = nearestRank n 1) : m = n := by
  have hzero : nearestRank 0 1 = 0 := by rw [nearestRank, if_pos rfl]
  rcases Nat.eq_zero_or_pos m with rfl | hmpos
  · rcases Nat.eq_zero_or_pos n with rfl | hnpos
    · rfl
    · have hpos := nearestRank_whole_pos hnpos
      omega
  · rcases Nat.eq_zero_or_pos n with rfl | hnpos
    · have hpos := nearestRank_whole_pos hmpos
      omega
    · have hvalue := magnitude_nearestRank_whole hmpos hm
      rw [h, magnitude_nearestRank_whole hnpos hn] at hvalue
      exact (Nat.cast_injective hvalue).symm

end Binary64

end

/-! ## Places -/

namespace Binary64

theorem place?_ofRank (negative : Bool) (rank : Nat) :
    (ofRank negative rank).place? =
      some (if negative then -((min rank rankCount : Nat) : Int)
        else (min rank rankCount : Nat)) := by
  unfold ofRank
  split
  · rename_i hlt
    rw [place?, Nat.min_eq_left (Nat.le_of_lt hlt)]
  · rename_i hge
    rw [place?, Nat.min_eq_right (Nat.le_of_not_lt hge)]

/-- Where a whole number stands as a double-precision number. -/
def standing (n : Int) : Int :=
  if n < 0 then -((min (nearestRank n.natAbs 1) rankCount : Nat) : Int)
  else (min (nearestRank n.natAbs 1) rankCount : Nat)

theorem place?_ofInt (n : Int) : (ofInt n).place? = some (standing n) := by
  rw [ofInt, ofQuotient, place?_ofRank, standing]
  simp only [decide_eq_true_eq]

theorem standing_neg {n : Int} (h : n < 0) : standing n < 0 := by
  have hpos : 0 < nearestRank n.natAbs 1 := nearestRank_whole_pos (by omega)
  have hcount : 0 < rankCount := by decide
  rw [standing, if_pos h]
  omega

theorem standing_nonneg {n : Int} (h : 0 ≤ n) : 0 ≤ standing n := by
  rw [standing, if_neg (by omega)]
  exact Int.natCast_nonneg _

theorem standing_mono {m n : Int} (h : m ≤ n) : standing m ≤ standing n := by
  by_cases hm : m < 0
  · by_cases hn : n < 0
    · have hrank : nearestRank n.natAbs 1 ≤ nearestRank m.natAbs 1 :=
        nearestRank_whole_mono (by omega)
      rw [standing, standing, if_pos hm, if_pos hn]
      omega
    · have hneg := standing_neg hm
      have hnonneg := standing_nonneg (Int.not_lt.mp hn)
      omega
  · have hrank : nearestRank m.natAbs 1 ≤ nearestRank n.natAbs 1 :=
      nearestRank_whole_mono (by omega)
    rw [standing, standing, if_neg hm, if_neg (by omega)]
    omega

theorem standing_eq_iff {m n : Int} :
    standing m = standing n ↔
      (m < 0 ↔ n < 0) ∧
        min (nearestRank m.natAbs 1) rankCount = min (nearestRank n.natAbs 1) rankCount := by
  constructor
  · intro h
    have hsign : m < 0 ↔ n < 0 := by
      by_cases hm : m < 0
      · by_cases hn : n < 0
        · exact iff_of_true hm hn
        · have hneg := standing_neg hm
          have hnonneg := standing_nonneg (Int.not_lt.mp hn)
          omega
      · by_cases hn : n < 0
        · have hneg := standing_neg hn
          have hnonneg := standing_nonneg (Int.not_lt.mp hm)
          omega
        · exact iff_of_false hm hn
    refine ⟨hsign, ?_⟩
    simp only [standing, hsign] at h
    split at h <;> omega
  · rintro ⟨hsign, hrank⟩
    simp only [standing, hsign, hrank]

theorem ofRank_min (negative : Bool) (rank : Nat) :
    ofRank negative (min rank rankCount) = ofRank negative rank := by
  by_cases hlt : rank < rankCount
  · rw [Nat.min_eq_left (Nat.le_of_lt hlt)]
  · rw [Nat.min_eq_right (Nat.le_of_not_lt hlt), ofRank, ofRank, dif_neg hlt,
      dif_neg (Nat.lt_irrefl _)]

/-- Whole numbers at one place are the same double-precision number: there is one zero among
them. -/
theorem ofInt_eq_iff {m n : Int} : ofInt m = ofInt n ↔ standing m = standing n := by
  constructor
  · intro h
    have hplace := place?_ofInt m
    rw [h, place?_ofInt] at hplace
    exact (Option.some.inj hplace).symm
  · intro h
    obtain ⟨hsign, hrank⟩ := standing_eq_iff.mp h
    rw [ofInt, ofInt, ofQuotient, ofQuotient, ← ofRank_min _ (nearestRank m.natAbs 1),
      ← ofRank_min _ (nearestRank n.natAbs 1), hrank]
    simp only [hsign]

/-- Whole numbers are compared as such, unless they come to be the same double-precision number. -/
theorem compare_ofInt (m n : Int) :
    (ofInt m).compare (ofInt n) =
      some (if ofInt m = ofInt n then .eq else Ord.compare m n) := by
  rw [compare, place?_ofInt, place?_ofInt]
  dsimp only
  congr 1
  by_cases hsame : ofInt m = ofInt n
  · rw [if_pos hsame, ofInt_eq_iff.mp hsame]
    exact compare_eq_iff_eq.mpr rfl
  · rw [if_neg hsame]
    have hplaces : standing m ≠ standing n := fun h => hsame (ofInt_eq_iff.mpr h)
    rcases Int.lt_trichotomy m n with hlt | rfl | hgt
    · have hle := standing_mono (Int.le_of_lt hlt)
      rw [compare_lt_iff_lt.mpr hlt, compare_lt_iff_lt.mpr (by omega)]
    · exact absurd rfl hsame
    · have hle := standing_mono (Int.le_of_lt hgt)
      rw [compare_gt_iff_gt.mpr hgt, compare_gt_iff_gt.mpr (by omega)]

/-- Up to 2^53 on both sides of zero, different whole numbers stay different. -/
theorem ofInt_injective {m n : Int} (hm : m.natAbs ≤ 2 * binadeSize)
    (hn : n.natAbs ≤ 2 * binadeSize) (h : ofInt m = ofInt n) : m = n := by
  have hfinite : ∀ {k : Nat}, k ≤ 2 * binadeSize → nearestRank k 1 < rankCount := fun {k} hk =>
    calc nearestRank k 1 ≤ nearestRank (2 * binadeSize) 1 := nearestRank_whole_mono hk
      _ < rankCount := by decide +kernel
  obtain ⟨hsign, hrank⟩ := standing_eq_iff.mp (ofInt_eq_iff.mp h)
  rw [Nat.min_eq_left (Nat.le_of_lt (hfinite hm)), Nat.min_eq_left (Nat.le_of_lt (hfinite hn))]
    at hrank
  have habs := nearestRank_whole_injective hm hn hrank
  omega

end Binary64
end Number
end RecordFilter
