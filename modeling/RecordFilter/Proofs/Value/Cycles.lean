/-
Cycles of the order.  Each pair of values is compared in an order of its own, as numbers if both look
like numbers and otherwise as texts if both are strings.  Within one of these orders there is no
cycle, but three values may meet in two of them: "9" comes before "10" as a number, "10" before "1a"
as a text, and "1a" before "9" as a text.  `lt_cycle_iff` says that all cycles of three are of this
kind, and that a column whose strings all look like numbers, or none of them, is ordered
transitively.
-/
import RecordFilter.Proofs.Value.Order

namespace RecordFilter

open Number

theorem Number.Binary64.compare_eq_some_lt_iff {x y : Binary64} :
    x.compare y = some .lt ↔ ∃ m n, x.place? = some m ∧ y.place? = some n ∧ m < n := by
  rw [Binary64.compare]
  cases x.place? with
  | none => simp
  | some m =>
      cases y.place? with
      | none => simp
      | some n => simp [Int.compare_eq_lt]

namespace Value

/-! ## The key of a string -/

theorem key?_eq_number_iff {v : Value} {m : Int} :
    key? v = some (.number m) ↔ ∃ x, v.asFloat? = some x ∧ x.place? = some m := by
  cases hv : v.asFloat? with
  | none =>
      rw [key?_of_plain hv]
      exact iff_of_false (plainKey?_ne_number v m) (by simp)
  | some x => simp [key?_of_number hv]

theorem key?_str_eq_text_iff {s : String} :
    key? (.str s) = some (.text s) ↔ (Value.str s).asFloat? = none := by
  cases hs : (Value.str s).asFloat? with
  | none => simp [key?_of_plain hs, plainKey?]
  | some x => simp [key?_of_number hs]

/-! ## What comes before what -/

/-- How one value comes before another: by its place on the line, as false before true, or as a
text, the last for two strings of which one at least does not look like a number. -/
inductive Precedes : Value → Value → Prop where
  | numbers {l r : Value} {m n : Int} (hl : key? l = some (.number m))
      (hr : key? r = some (.number n)) (hlt : m < n) : Precedes l r
  | booleans : Precedes (.bool false) (.bool true)
  | texts {s t : String}
      (hplain : key? (.str s) = some (.text s) ∨ key? (.str t) = some (.text t)) (hlt : s < t) :
      Precedes (.str s) (.str t)

theorem precedes_of_plainOrder? {l r : Value} (hplain : l.asFloat? = none ∨ r.asFloat? = none)
    (h : plainOrder? l r = some .lt) : Precedes l r := by
  cases l with
  | bool a =>
      cases r with
      | bool b =>
          cases a with
          | false =>
              cases b with
              | false => cases h
              | true => exact .booleans
          | true => cases b <;> cases h
      | null | int _ | float _ | str _ | list _ | map _ => cases h
  | str s =>
      cases r with
      | str t =>
          have hlt : s < t := by
            rw [plainOrder?, Option.some.injEq, compareOfLessAndEq] at h
            split at h
            · assumption
            · split at h <;> cases h
          rw [← key?_str_eq_text_iff, ← key?_str_eq_text_iff] at hplain
          exact .texts hplain hlt
      | null | bool _ | int _ | float _ | list _ | map _ => cases h
  | null | int _ | float _ | list _ | map _ => cases r <;> cases h

theorem order?_eq_some_lt_iff {l r : Value} : order? l r = some .lt ↔ Precedes l r := by
  constructor
  · intro h
    by_cases hplain : l.asFloat? = none ∨ r.asFloat? = none
    · rw [order?_of_plain hplain] at h
      exact precedes_of_plainOrder? hplain h
    · obtain ⟨hl, hr⟩ := not_or.mp hplain
      obtain ⟨x, hx⟩ := Option.ne_none_iff_exists'.mp hl
      obtain ⟨y, hy⟩ := Option.ne_none_iff_exists'.mp hr
      rw [order?_of_numbers hx hy, Binary64.compare_eq_some_lt_iff] at h
      obtain ⟨m, n, hm, hn, hlt⟩ := h
      exact .numbers (key?_eq_number_iff.mpr ⟨x, hx, hm⟩) (key?_eq_number_iff.mpr ⟨y, hy, hn⟩) hlt
  · intro h
    cases h with
    | @numbers l r m n hl hr hlt =>
        obtain ⟨x, hx, hm⟩ := key?_eq_number_iff.mp hl
        obtain ⟨y, hy, hn⟩ := key?_eq_number_iff.mp hr
        rw [order?_of_numbers hx hy, Binary64.compare_eq_some_lt_iff]
        exact ⟨m, n, hm, hn, hlt⟩
    | booleans => rfl
    | @texts s t hplain hlt =>
        rw [key?_str_eq_text_iff, key?_str_eq_text_iff] at hplain
        rw [order?_of_plain hplain, plainOrder?, compareOfLessAndEq, if_pos hlt]

/-! ## Three values -/

/-- Two strings that look like numbers, the first the smaller number, and a third that does not
look like one, which comes as a text behind the second and before the first. -/
def Straddles (a b c : Value) : Prop :=
  ∃ p q r : String, a = .str p ∧ b = .str q ∧ c = .str r ∧
    (∃ m n, key? a = some (.number m) ∧ key? b = some (.number n) ∧ m < n) ∧
    key? c = some (.text r) ∧ q < r ∧ r < p

theorem Straddles.precedes {a b c : Value} (h : Straddles a b c) :
    Precedes a b ∧ Precedes b c ∧ Precedes c a := by
  obtain ⟨p, q, r, rfl, rfl, rfl, ⟨m, n, hm, hn, hlt⟩, hplain, hbehind, hbefore⟩ := h
  exact ⟨.numbers hm hn hlt, .texts (Or.inr hplain) hbehind, .texts (Or.inl hplain) hbefore⟩

/-- Of a cycle through two numbers the third value is a string between them. -/
theorem straddles_of_numbers {a b c : Value} {m n : Int} (hm : key? a = some (.number m))
    (hn : key? b = some (.number n)) (hlt : m < n) (hbc : Precedes b c) (hca : Precedes c a) :
    Straddles a b c := by
  cases hbc with
  | @numbers _ _ n' k hn' hk hnk =>
      obtain rfl : n = n' := by simpa [hn] using hn'
      cases hca with
      | @numbers _ _ k' m' hk' hm' hkm =>
          obtain rfl : k = k' := by simpa [hk] using hk'
          obtain rfl : m = m' := by simpa [hm] using hm'
          omega
      | booleans => cases hk
      | texts hplain _ => simp [hk, hm] at hplain
  | booleans => cases hn
  | @texts q r hplain hqr =>
      have hr : key? (.str r) = some (.text r) := by simpa [hn] using hplain
      cases hca with
      | numbers hk _ _ => simp [hr] at hk
      | @texts _ p _ hrp => exact ⟨p, q, r, rfl, rfl, rfl, ⟨m, n, hm, hn, hlt⟩, hr, hqr, hrp⟩

theorem straddles_of_cycle {a b c : Value} (hab : Precedes a b) (hbc : Precedes b c)
    (hca : Precedes c a) : Straddles a b c ∨ Straddles b c a ∨ Straddles c a b := by
  -- Two values that meet as numbers are straddled by the third, and some pair has to meet so, since
  -- neither the booleans nor the texts have a cycle of their own.
  cases hab with
  | numbers hm hn hlt => exact Or.inl (straddles_of_numbers hm hn hlt hbc hca)
  | booleans =>
      cases hbc with
      | numbers hm _ _ => cases hm
  | @texts s t hplain hst =>
      have hab : Precedes (.str s) (.str t) := .texts hplain hst
      cases hbc with
      | numbers hm hn hlt => exact Or.inr (Or.inl (straddles_of_numbers hm hn hlt hca hab))
      | @texts _ u hplain htu =>
          cases hca with
          | numbers hm hn hlt =>
              exact Or.inr (Or.inr (straddles_of_numbers hm hn hlt hab (.texts hplain htu)))
          | texts _ hus =>
              exact absurd (String.lt_trans (String.lt_trans hst htu) hus) (String.lt_irrefl s)

/-- If one string among some values looks like no number, then none does. -/
def Uniform (column : List Value) : Prop :=
  ∀ s t : String, .str s ∈ column → .str t ∈ column →
    key? (.str s) = some (.text s) → key? (.str t) = some (.text t)

theorem Uniform.precedes_trans {column : List Value} (huniform : Uniform column) {a b c : Value}
    (ha : a ∈ column) (hb : b ∈ column) (hc : c ∈ column) (hab : Precedes a b)
    (hbc : Precedes b c) : Precedes a c := by
  cases hab with
  | @numbers _ _ m n hm hn hlt =>
      cases hbc with
      | @numbers _ _ n' k hn' hk hnk =>
          obtain rfl : n = n' := by simpa [hn] using hn'
          exact .numbers hm hk (Int.lt_trans hlt hnk)
      | booleans => cases hn
      | @texts t u hplain _ =>
          have hu : key? (.str u) = some (.text u) := by simpa [hn] using hplain
          simp [huniform u t hc hb hu] at hn
  | booleans =>
      cases hbc with
      | numbers hm _ _ => cases hm
  | @texts s t hplain hst =>
      have hs : key? (.str s) = some (.text s) :=
        hplain.elim id (huniform t s hb ha)
      cases hbc with
      | numbers hn _ _ => simp [huniform s t ha hb hs] at hn
      | @texts _ u _ htu => exact .texts (Or.inl hs) (String.lt_trans hst htu)

end Value

namespace Operator

theorem lt_holds_iff {l r : Value} : lt.holds l r = true ↔ Value.Precedes l r := by
  rw [holds, beq_iff_eq, Value.order?_eq_some_lt_iff]

/-- Three values are each less than the next, all the way around, exactly if they are strings of
which two look like numbers and the third does not, and as a text the third comes before the smaller
number and behind the greater one.  A column in which such strings do not meet is ordered
transitively. -/
theorem lt_cycle_iff (a b c : Value) :
    (lt.holds a b = true ∧ lt.holds b c = true ∧ lt.holds c a = true ↔
        Value.Straddles a b c ∨ Value.Straddles b c a ∨ Value.Straddles c a b) ∧
      ∀ column, Value.Uniform column → a ∈ column → b ∈ column → c ∈ column →
        lt.holds a b = true → lt.holds b c = true → lt.holds a c = true := by
  simp only [lt_holds_iff]
  refine ⟨⟨?_, ?_⟩, fun column huniform => huniform.precedes_trans⟩
  · intro h
    obtain ⟨hab, hbc, hca⟩ := h
    exact Value.straddles_of_cycle hab hbc hca
  · intro h
    rcases h with h | h | h
    · exact h.precedes
    · obtain ⟨hbc, hca, hab⟩ := h.precedes
      exact ⟨hab, hbc, hca⟩
    · obtain ⟨hca, hab, hbc⟩ := h.precedes
      exact ⟨hab, hbc, hca⟩

/-- A string that looks like a number among numbers. -/
theorem lt_trans_of_numeric_column :
    lt.holds (.int 9) (.str "1e1") = true ∧ lt.holds (.str "1e1") (.int 11) = true ∧
      lt.holds (.int 9) (.int 11) = true := by
  have hfirst : lt.holds (.int 9) (.str "1e1") = true := by decide +kernel
  have hsecond : lt.holds (.str "1e1") (.int 11) = true := by decide +kernel
  have huniform : Value.Uniform [.int 9, .str "1e1", .int 11] := by
    intro s t hs ht hplain
    obtain rfl : s = "1e1" := by simpa using hs
    obtain rfl : t = "1e1" := by simpa using ht
    exact hplain
  obtain ⟨_, htrans⟩ := lt_cycle_iff (.int 9) (.str "1e1") (.int 11)
  exact ⟨hfirst, hsecond, htrans _ huniform (by simp) (by simp) (by simp) hfirst hsecond⟩

/-- Nine is less than ten, but the text of ten comes before "1a" and that before the text of nine. -/
theorem exists_lt_cycle :
    ¬ ∀ a b c : Value, a.isScalar = true → b.isScalar = true → c.isScalar = true →
      lt.holds a b = true → lt.holds b c = true → lt.holds c a = false := by
  intro h
  have hlast := h (.str "9") (.str "10") (.str "1a") rfl rfl rfl (by decide +kernel)
    (by decide +kernel)
  revert hlast
  decide +kernel

end Operator
end RecordFilter
