/-
The laws of comparison.  Values meet in three orders: null and the booleans among themselves,
numbers with the strings that look like numbers, and strings as texts as soon as one of the two does
not look like a number.  What makes two values equal can nevertheless be said of each by itself:
`key?` is null, a boolean, a place on the line or a text, and `order?_eq_some_eq_iff` says that
values are ordered as equal exactly if they have the same key.  So equality is symmetric and
transitive across the three orders, and a scalar without a key, which only the undefined number is,
is not equal to itself.
-/
import RecordFilter.Evaluation
import RecordFilter.Proofs.Condition.Leaves

namespace RecordFilter

namespace Number
namespace Binary64

theorem compare_swap (x y : Binary64) : y.compare x = (x.compare y).map Ordering.swap := by
  rw [compare, compare]
  cases x.place? with
  | none => cases y.place? <;> rfl
  | some a =>
      cases y.place? with
      | none => rfl
      | some b => exact congrArg some (Int.compare_swap a b).symm

theorem compare_eq_some_eq_iff {x y : Binary64} :
    x.compare y = some .eq ↔ ∃ place, x.place? = some place ∧ y.place? = some place := by
  rw [compare]
  cases x.place? with
  | none => simp
  | some a =>
      cases y.place? with
      | none => simp
      | some b => simp [@eq_comm _ b a]

theorem place?_eq_none_iff {x : Binary64} : x.place? = none ↔ x = .nan := by
  cases x <;> simp [place?]

theorem ofInt_ne_nan (n : Int) : ofInt n ≠ .nan := by
  unfold ofInt ofQuotient ofRank
  split <;> simp

end Binary64
end Number

namespace Value

open Number

/-! ## The three orders -/

section

variable {l r : Value}

theorem order?_of_numbers {x y : Binary64} (hl : l.asFloat? = some x) (hr : r.asFloat? = some y) :
    order? l r = x.compare y := by
  cases l <;> cases r <;> simp_all [order?, asFloat?]

/-- The order of values of which one at least does not look like a number. -/
def plainOrder? : Value → Value → Option Ordering
  | .null, .null => some .eq
  | .bool a, .bool b => some (compare a b)
  | .str s, .str t => some (compareOfLessAndEq s t)
  | _, _ => none

theorem order?_of_plain (h : l.asFloat? = none ∨ r.asFloat? = none) :
    order? l r = plainOrder? l r := by
  unfold order?
  split
  · rfl
  · rfl
  · rename_i hnull hbool
    split
    · rename_i x y hx hy
      rw [hx, hy] at h
      rcases h with h | h <;> cases h
    · split
      · rfl
      · rename_i hstr
        unfold plainOrder?
        split
        · exact absurd rfl (hnull rfl)
        · exact absurd rfl (hbool _ _ rfl)
        · exact absurd rfl (hstr _ _ rfl)
        · rfl

theorem plainOrder?_swap (l r : Value) :
    plainOrder? r l = (plainOrder? l r).map Ordering.swap := by
  cases l with
  | null => cases r <;> rfl
  | bool a =>
      cases r with
      | bool b => cases a <;> cases b <;> rfl
      | null | int _ | float _ | str _ | list _ | map _ => rfl
  | str s =>
      cases r with
      | str t =>
          show some (compareOfLessAndEq t s) = some (compareOfLessAndEq s t).swap
          rw [compareOfLessAndEq_eq_swap String.le_antisymm String.le_total String.not_le]
      | null | bool _ | int _ | float _ | list _ | map _ => rfl
  | int _ | float _ | list _ | map _ => cases r <;> rfl

theorem order?_swap (l r : Value) : order? r l = (order? l r).map Ordering.swap := by
  by_cases hplain : l.asFloat? = none ∨ r.asFloat? = none
  · rw [order?_of_plain hplain, order?_of_plain hplain.symm, plainOrder?_swap]
  · obtain ⟨hl, hr⟩ := not_or.mp hplain
    obtain ⟨x, hx⟩ := Option.ne_none_iff_exists'.mp hl
    obtain ⟨y, hy⟩ := Option.ne_none_iff_exists'.mp hr
    rw [order?_of_numbers hx hy, order?_of_numbers hy hx, Binary64.compare_swap]

end

/-! ## Keys -/

/-- What a value is to comparison. -/
inductive Key where
  | null
  | bool (b : Bool)
  | number (place : Int)
  | text (s : String)
deriving DecidableEq, Repr

/-- The key of a value that does not look like a number. -/
def plainKey? : Value → Option Key
  | .null => some .null
  | .bool b => some (.bool b)
  | .str s => some (.text s)
  | _ => none

/-- The key of a value: the undefined number has none, and neither have lists and maps. -/
def key? (v : Value) : Option Key :=
  match v.asFloat? with
  | some x => x.place?.map .number
  | none => plainKey? v

theorem plainOrder?_eq_some_eq_iff {l r : Value} :
    plainOrder? l r = some .eq ↔ ∃ k, plainKey? l = some k ∧ plainKey? r = some k := by
  cases l with
  | null => cases r <;> simp [plainOrder?, plainKey?]
  | bool a =>
      cases r with
      | bool b => cases a <;> cases b <;> simp [plainOrder?, plainKey?]
      | null | int _ | float _ | str _ | list _ | map _ => simp [plainOrder?, plainKey?]
  | str s =>
      cases r with
      | str t =>
          have htexts : compareOfLessAndEq s t = .eq ↔ s = t :=
            compareOfLessAndEq_eq_eq String.le_refl String.not_le
          simp [plainOrder?, plainKey?, htexts, @eq_comm _ t s]
      | null | bool _ | int _ | float _ | list _ | map _ => simp [plainOrder?, plainKey?]
  | int _ | float _ | list _ | map _ => cases r <;> simp [plainOrder?, plainKey?]

theorem key?_of_number {v : Value} {x : Binary64} (h : v.asFloat? = some x) :
    key? v = x.place?.map .number := by
  rw [key?, h]

theorem key?_of_plain {v : Value} (h : v.asFloat? = none) : key? v = plainKey? v := by
  rw [key?, h]

theorem plainKey?_ne_number (v : Value) (place : Int) : plainKey? v ≠ some (.number place) := by
  cases v <;> simp [plainKey?]

theorem eq_of_plainKey? {l r : Value} {k : Key} (hl : plainKey? l = some k)
    (hr : plainKey? r = some k) : l = r := by
  cases l <;> cases hl <;> cases r <;> cases hr <;> rfl

/-- A string that looks like a number differs from every one that does not, as a text and by its
key. -/
theorem order?_ne_of_one_number {l r : Value} {x : Binary64} (hl : l.asFloat? = some x)
    (hr : r.asFloat? = none) :
    order? l r ≠ some .eq ∧ ¬ ∃ k, key? l = some k ∧ key? r = some k := by
  constructor
  · rw [order?_of_plain (Or.inr hr), Ne, plainOrder?_eq_some_eq_iff]
    rintro ⟨k, hlk, hrk⟩
    rw [eq_of_plainKey? hlk hrk, hr] at hl
    cases hl
  · rw [key?_of_number hl, key?_of_plain hr]
    rintro ⟨k, hlk, hrk⟩
    obtain ⟨place, _, rfl⟩ := Option.map_eq_some_iff.mp hlk
    exact plainKey?_ne_number r place hrk

/-- Values are ordered as equal exactly if they have the same key. -/
theorem order?_eq_some_eq_iff {l r : Value} :
    order? l r = some .eq ↔ ∃ k, key? l = some k ∧ key? r = some k := by
  cases hl : l.asFloat? with
  | none =>
      cases hr : r.asFloat? with
      | none =>
          rw [order?_of_plain (Or.inl hl), plainOrder?_eq_some_eq_iff, key?_of_plain hl,
            key?_of_plain hr]
      | some y =>
          obtain ⟨horder, hkeys⟩ := order?_ne_of_one_number hr hl
          refine iff_of_false (fun h => horder ?_) fun ⟨k, hlk, hrk⟩ => hkeys ⟨k, hrk, hlk⟩
          rw [order?_swap, h]
          rfl
  | some x =>
      cases hr : r.asFloat? with
      | none =>
          obtain ⟨horder, hkeys⟩ := order?_ne_of_one_number hl hr
          exact iff_of_false horder hkeys
      | some y =>
          rw [order?_of_numbers hl hr, Binary64.compare_eq_some_eq_iff, key?_of_number hl,
            key?_of_number hr]
          constructor
          · rintro ⟨place, hx, hy⟩
            exact ⟨.number place, by rw [hx]; rfl, by rw [hy]; rfl⟩
          · rintro ⟨k, hx, hy⟩
            obtain ⟨place, hplace, rfl⟩ := Option.map_eq_some_iff.mp hx
            obtain ⟨other, hother, heq⟩ := Option.map_eq_some_iff.mp hy
            cases heq
            exact ⟨place, hplace, hother⟩

/-! ## Scalars -/

/-- A string is never read as the undefined number. -/
theorem asFloat?_str_ne_nan (s : String) : (Value.str s).asFloat? ≠ some .nan := by
  rw [asFloat?]
  split
  · exact fun h => Binary64.ofInt_ne_nan _ (Option.some.inj h)
  · rename_i x hread
    intro h
    have hfinite : (Value.float x).IsLiteral := Clause.isLiteral_of_readNumber? hread
    rw [Option.some.inj h] at hfinite
    cases hfinite
  · simp

/-- Of the scalars only the undefined number has no key. -/
theorem key?_eq_none_iff {v : Value} (hscalar : v.isScalar = true) :
    key? v = none ↔ v = .float .nan := by
  cases hv : v.asFloat? with
  | none =>
      rw [key?_of_plain hv]
      cases v with
      | null | bool _ | str _ => simp [plainKey?]
      | int _ | float _ => cases hv
      | list _ | map _ => cases hscalar
  | some x =>
      rw [key?_of_number hv, Option.map_eq_none_iff, Binary64.place?_eq_none_iff]
      cases v with
      | float y =>
          cases hv
          simp
      | int n =>
          cases hv
          simp [Binary64.ofInt_ne_nan]
      | str s =>
          have hne := asFloat?_str_ne_nan s
          rw [hv] at hne
          simpa using hne
      | null | bool _ | list _ | map _ => cases hv

/-- Scalars that are equal as they are, are the same or two numbers at one place. -/
theorem same_or_numbers_of_equals {l r : Value} (hscalar : l.isScalar = true)
    (h : l.equals r = true) :
    (l = r ∧ l ≠ .float .nan) ∨
      ∃ x y, l = .float x ∧ r = .float y ∧ x.compare y = some .eq := by
  rw [equals] at h
  cases l with
  | float x =>
      cases r with
      | float y =>
          rw [agree, Binary64.sameNumber, beq_iff_eq] at h
          exact Or.inr ⟨x, y, rfl, rfl, h⟩
      | null | bool _ | int _ | str _ | list _ | map _ => cases h
  | null | bool _ | int _ | str _ =>
      left
      cases r <;> simp_all [agree]
  | list _ | map _ => cases hscalar

/-- Values without an order are compared as they are.  No scalars are equal by that alone: those
that are equal as they are have an order, in which they are equal. -/
theorem order?_of_equals {l r : Value} (hscalar : l.isScalar = true) (h : l.equals r = true) :
    order? l r = some .eq := by
  rcases same_or_numbers_of_equals hscalar h with ⟨rfl, hne⟩ | ⟨x, y, rfl, rfl, hsame⟩
  · obtain ⟨k, hk⟩ := Option.ne_none_iff_exists'.mp (mt (key?_eq_none_iff hscalar).mp hne)
    exact order?_eq_some_eq_iff.mpr ⟨k, hk, hk⟩
  · rw [order?_of_numbers rfl rfl, hsame]

theorem looselyEqual_eq {l r : Value} (hscalar : l.isScalar = true) :
    looselyEqual l r = (order? l r == some .eq) := by
  rw [looselyEqual]
  cases horder : order? l r with
  | some ordering => rfl
  | none =>
      refine Bool.eq_false_iff.mpr fun h => ?_
      rw [order?_of_equals hscalar h] at horder
      cases horder

/-- Scalars are equal exactly if they have the same key. -/
theorem looselyEqual_iff {l r : Value} (hscalar : l.isScalar = true) :
    looselyEqual l r = true ↔ ∃ k, key? l = some k ∧ key? r = some k := by
  rw [looselyEqual_eq hscalar, beq_iff_eq, order?_eq_some_eq_iff]

end Value

/-! ## The laws -/

namespace Operator

/-- An operator holds between values that are ordered like this. -/
def admits : Operator → Ordering → Bool
  | .eq, ordering => ordering == .eq
  | .ne, ordering => ordering != .eq
  | .lt, ordering => ordering == .lt
  | .le, ordering => ordering != .gt
  | .gt, ordering => ordering == .gt
  | .ge, ordering => ordering != .lt
  | .like, _ => false

/-- What an operator makes of the order of two scalars: those without one are unequal, and that
is all that holds between them. -/
def verdict (operator : Operator) : Option Ordering → Bool
  | some ordering => operator.admits ordering
  | none => operator == .ne

section

variable {l r t : Value}

theorem holds_ne (l r : Value) : ne.holds l r = !eq.holds l r :=
  rfl

/-- Turning a comparison around turns its operator around. -/
theorem lt_holds_comm (l r : Value) : lt.holds l r = gt.holds r l := by
  rw [holds, holds, Value.order?_swap l r]
  rcases Value.order? l r with _ | _ | _ | _ <;> rfl

theorem le_holds_comm (l r : Value) : le.holds l r = ge.holds r l := by
  rw [holds, holds, Value.order?_swap l r]
  rcases Value.order? l r with _ | _ | _ | _ <;> rfl

theorem holds_eq_verdict (hl : l.isScalar = true) (operator : Operator) (r : Value) :
    operator.holds l r = operator.verdict (Value.order? l r) := by
  cases operator <;> simp only [holds, Value.looselyEqual_eq hl] <;>
    rcases Value.order? l r with _ | _ | _ | _ <;> rfl

theorem le_holds_eq (hl : l.isScalar = true) (r : Value) :
    le.holds l r = (lt.holds l r || eq.holds l r) := by
  simp only [holds_eq_verdict hl]
  rcases Value.order? l r with _ | _ | _ | _ <;> rfl

theorem eq_of_verdict (order : Option Ordering) :
    ∀ a ∈ [lt, eq, gt], ∀ b ∈ [lt, eq, gt],
      a.verdict order = true → b.verdict order = true → a = b := by
  rcases order with _ | _ | _ | _ <;> decide

/-- At most one of less, equal and greater. -/
theorem eq_of_holds (hl : l.isScalar = true) {a b : Operator} (ha : a ∈ [lt, eq, gt])
    (hb : b ∈ [lt, eq, gt]) (hholds : a.holds l r = true) (hother : b.holds l r = true) :
    a = b := by
  rw [holds_eq_verdict hl] at hholds hother
  exact eq_of_verdict _ a ha b hb hholds hother

theorem eq_holds_comm (hl : l.isScalar = true) (hr : r.isScalar = true) :
    eq.holds l r = eq.holds r l := by
  rw [holds_eq_verdict hl, holds_eq_verdict hr, Value.order?_swap l r]
  rcases Value.order? l r with _ | _ | _ | _ <;> rfl

theorem eq_holds_trans (hl : l.isScalar = true) (hr : r.isScalar = true)
    (hleft : eq.holds l r = true) (hright : eq.holds r t = true) : eq.holds l t = true := by
  obtain ⟨k, hlk, hrk⟩ := (Value.looselyEqual_iff hl).mp hleft
  obtain ⟨k', hrk', htk⟩ := (Value.looselyEqual_iff hr).mp hright
  rw [hrk] at hrk'
  cases hrk'
  exact (Value.looselyEqual_iff hl).mpr ⟨k, hlk, htk⟩

theorem eq_holds_self_iff (hl : l.isScalar = true) :
    eq.holds l l = true ↔ l ≠ .float .nan := by
  rw [Ne, ← Value.key?_eq_none_iff hl, ← Ne, Option.ne_none_iff_exists']
  constructor
  · intro h
    obtain ⟨k, hk, _⟩ := (Value.looselyEqual_iff hl).mp h
    exact ⟨k, hk⟩
  · rintro ⟨k, hk⟩
    exact (Value.looselyEqual_iff hl).mpr ⟨k, hk, hk⟩

end

/-- The laws of comparison between scalars: of the six operators four are given by the other two,
less, equal and greater exclude each other, and equality is symmetric, transitive and, the
undefined number apart, reflexive. -/
theorem comparison_laws {l r t : Value} (hl : l.isScalar = true) (hr : r.isScalar = true) :
    ne.holds l r = !eq.holds l r ∧
    lt.holds l r = gt.holds r l ∧
    le.holds l r = ge.holds r l ∧
    le.holds l r = (lt.holds l r || eq.holds l r) ∧
    (∀ a ∈ [lt, eq, gt], ∀ b ∈ [lt, eq, gt], a.holds l r = true → b.holds l r = true → a = b) ∧
    eq.holds l r = eq.holds r l ∧
    (eq.holds l r = true → eq.holds r t = true → eq.holds l t = true) ∧
    (eq.holds l l = true ↔ l ≠ .float .nan) :=
  ⟨holds_ne l r, lt_holds_comm l r, le_holds_comm l r, le_holds_eq hl r,
    fun _ ha _ hb => eq_of_holds hl ha hb, eq_holds_comm hl hr, eq_holds_trans hl hr,
    eq_holds_self_iff hl⟩

/-- A text, a whole number and a number with a fraction that stand at one place; and the word for
the undefined number, which is a text and equal to itself. -/
theorem comparison_laws_of_numeric_text :
    eq.holds (.str "1e2") (.int 100) = true ∧
      eq.holds (.str "1e2") (.float (.ofInt 100)) = true ∧
      eq.holds (.str "nan") (.str "nan") = true := by
  obtain ⟨_, _, _, _, _, _, htrans, _⟩ :=
    @comparison_laws (.str "1e2") (.int 100) (.float (.ofInt 100)) rfl rfl
  obtain ⟨_, _, _, _, _, _, _, hself⟩ := @comparison_laws (.str "nan") .null .null rfl rfl
  have htext : eq.holds (.str "1e2") (.int 100) = true := by decide +kernel
  have hwhole : eq.holds (.int 100) (.float (.ofInt 100)) = true := by decide +kernel
  exact ⟨htext, htrans htext hwhole, hself.mpr (by simp)⟩

end Operator
end RecordFilter
