/-
Numbers in JSON texts.  A number is written as a numeral: digits of a whole part, and behind a point
and behind an exponent sign the other two parts, if there are any.  A numeral is taken apart again as
long as nothing follows that could belong to it.  Whole numbers are written without a fraction and
without an exponent, and every other number with one of them, which keeps the two apart.
-/
import RecordFilter.Json.Printer
import RecordFilter.Json.Reader
import RecordFilter.Proofs.Number.ReadBack

namespace RecordFilter
namespace Json

open Number Text
open Written (digitRun exponentDigits? exponentPart? fractionPart? magnitude? number? wholePart?)

/-! ## Spelling -/

def fractionText : Option (List Char) → List Char
  | none => []
  | some fraction => '.' :: fraction

def exponentText : Option Int → List Char
  | none => []
  | some exponent =>
      'e' :: (if exponent < 0 then integerText exponent else '+' :: integerText exponent)

namespace Numeral

/-- A numeral without its sign. -/
def magnitudeText (n : Numeral) : List Char :=
  n.whole ++ (fractionText n.fraction ++ exponentText n.exponent)

/-- A numeral as it is written. -/
def text (n : Numeral) : List Char :=
  if n.negative then '-' :: n.magnitudeText else n.magnitudeText

/-- The parts of a numeral are digits, at least one in each, and the whole part starts with a zero
only if it is one. -/
structure Proper (n : Numeral) : Prop where
  whole_ne_nil : n.whole ≠ []
  all_whole : n.whole.all isAsciiDigit = true
  leading : n.whole = ['0'] ∨ n.whole.head? ≠ some '0'
  fraction_ne_nil : ∀ fraction ∈ n.fraction, fraction ≠ []
  all_fraction : ∀ fraction ∈ n.fraction, fraction.all isAsciiDigit = true

end Numeral

/-- A character that can go on with a numeral. -/
def continuesNumeral (c : Char) : Bool :=
  isAsciiDigit c || c == '.' || c == 'e' || c == 'E'

/-- The text ends a numeral in front of it. -/
def EndsNumeral (text : List Char) : Prop :=
  ∀ c ∈ text.head?, continuesNumeral c = false

theorem endsNumeral_cons {c : Char} (h : continuesNumeral c = false) (rest : List Char) :
    EndsNumeral (c :: rest) := by
  intro d hd
  cases hd
  exact h

theorem endsNumeral_nil : EndsNumeral [] := fun _ hc => nomatch hc

/-! ## Taking numerals apart -/

/-- The text goes on without a digit. -/
def EndsDigits (text : List Char) : Prop :=
  ∀ c ∈ text.head?, isAsciiDigit c = false

theorem EndsNumeral.endsDigits {text : List Char} (h : EndsNumeral text) : EndsDigits text := by
  intro c hc
  have hnot := h c hc
  simp only [continuesNumeral, Bool.or_eq_false_iff] at hnot
  exact hnot.1.1.1

theorem endsDigits_cons {c : Char} (h : isAsciiDigit c = false) (rest : List Char) :
    EndsDigits (c :: rest) := by
  intro d hd
  cases hd
  exact h

theorem digitRun_append {digits rest : List Char} (h : digits.all isAsciiDigit = true)
    (hrest : EndsDigits rest) : digitRun (digits ++ rest) = (digits, rest) := by
  obtain ⟨htake, hdrop⟩ := takeWhile_digits h hrest
  rw [digitRun, htake, hdrop]

theorem wholePart?_append {n : Numeral} (h : n.Proper) {rest : List Char}
    (hrest : EndsDigits rest) :
    wholePart? (n.whole ++ rest) = some (n.whole, rest) := by
  rw [wholePart?, digitRun_append h.all_whole hrest]
  cases hwhole : n.whole with
  | nil => exact absurd hwhole h.whole_ne_nil
  | cons c digits =>
      rcases h.leading with hzero | hlead
      · rw [hwhole] at hzero
        cases hzero
        rfl
      · have hc : c ≠ '0' := by
          rintro rfl
          rw [hwhole] at hlead
          exact hlead rfl
        split
        · rename_i heq
          cases heq
        · rename_i heq
          cases heq
          exact absurd rfl hc
        · rename_i heq
          cases heq
          exact absurd rfl hc
        · rename_i heq
          cases heq
          rfl

theorem fractionPart?_append {fraction : Option (List Char)}
    (hne : ∀ digits ∈ fraction, digits ≠ [])
    (hall : ∀ digits ∈ fraction, digits.all isAsciiDigit = true) {rest : List Char}
    (hrest : EndsDigits rest) (hpoint : rest.head? ≠ some '.') :
    fractionPart? (fractionText fraction ++ rest) = some (fraction, rest) := by
  cases fraction with
  | none =>
      rw [fractionText, List.nil_append]
      unfold fractionPart?
      split
      · exact absurd rfl hpoint
      · rfl
  | some digits =>
      rw [fractionText, List.cons_append, fractionPart?, digitRun_append (hall digits rfl) hrest]
      cases digits with
      | nil => exact absurd rfl (hne [] rfl)
      | cons c digits => rfl

theorem exponentDigits?_digitsOf (negative : Bool) (n : Nat) {rest : List Char}
    (hrest : EndsDigits rest) :
    exponentDigits? negative (digitsOf n ++ rest) =
      some (some (if negative then -(n : Int) else n), rest) := by
  rw [exponentDigits?, digitRun_append (all_digitsOf n) hrest]
  have hne := digitsOf_ne_nil n
  have hvalue := valueOf_digitsOf n
  cases hdigits : digitsOf n with
  | nil => exact absurd hdigits hne
  | cons c digits =>
      rw [hdigits] at hvalue
      dsimp only
      rw [hvalue]

theorem exponentPart?_append (exponent : Option Int) {rest : List Char} (hrest : EndsNumeral rest) :
    exponentPart? (exponentText exponent ++ rest) = some (exponent, rest) := by
  cases exponent with
  | none =>
      cases rest with
      | nil => rfl
      | cons c rest =>
          have hnot := hrest c rfl
          simp only [continuesNumeral, Bool.or_eq_false_iff] at hnot
          show (if c == 'e' || c == 'E' then _ else some (none, c :: rest)) = some (none, c :: rest)
          rw [hnot.1.2, hnot.2]
          rfl
  | some exponent =>
      have hdigits := fun negative =>
        exponentDigits?_digitsOf negative exponent.natAbs hrest.endsDigits
      rw [exponentText, List.cons_append]
      by_cases hneg : exponent < 0
      · have hvalue : -(exponent.natAbs : Int) = exponent := by omega
        rw [if_pos hneg, integerText, if_pos hneg]
        show exponentDigits? true (digitsOf exponent.natAbs ++ rest) = _
        rw [hdigits, if_pos rfl, hvalue]
      · have hvalue : (exponent.natAbs : Int) = exponent := by omega
        rw [if_neg hneg, integerText, if_neg hneg]
        show exponentDigits? false (digitsOf exponent.natAbs ++ rest) = _
        rw [hdigits, if_neg Bool.false_ne_true, hvalue]

theorem endsDigits_exponentText (exponent : Option Int) {rest : List Char} (h : EndsDigits rest) :
    EndsDigits (exponentText exponent ++ rest) := by
  cases exponent with
  | none => exact h
  | some exponent => exact endsDigits_cons (by decide) _

theorem endsDigits_fractionText (fraction : Option (List Char)) {rest : List Char}
    (h : EndsDigits rest) : EndsDigits (fractionText fraction ++ rest) := by
  cases fraction with
  | none => exact h
  | some fraction => exact endsDigits_cons (by decide) _

/-- A numeral is taken apart into its parts. -/
theorem magnitude?_append {n : Numeral} (h : n.Proper) {rest : List Char}
    (hrest : EndsNumeral rest) :
    magnitude? n.negative (n.magnitudeText ++ rest) = some (.number n, rest) := by
  have hexponent := endsDigits_exponentText n.exponent hrest.endsDigits
  have hpoint : (exponentText n.exponent ++ rest).head? ≠ some '.' := by
    cases n.exponent with
    | none =>
        intro heq
        have hnot := hrest '.' heq
        cases hnot
    | some exponent => exact fun heq => absurd (Option.some.inj heq) (by decide)
  rw [magnitude?, Numeral.magnitudeText, List.append_assoc, List.append_assoc,
    wholePart?_append h (endsDigits_fractionText n.fraction hexponent), Option.bind_eq_bind,
    Option.bind_some]
  dsimp only
  rw [fractionPart?_append h.fraction_ne_nil h.all_fraction hexponent hpoint, Option.bind_eq_bind,
    Option.bind_some]
  dsimp only
  rw [exponentPart?_append n.exponent hrest]
  rfl

theorem number?_append {n : Numeral} (h : n.Proper) {rest : List Char} (hrest : EndsNumeral rest) :
    number? (n.text ++ rest) = some (.number n, rest) := by
  have hmagnitude := magnitude?_append h hrest
  rw [Numeral.text]
  cases hnegative : n.negative with
  | true =>
      rw [hnegative] at hmagnitude
      rw [if_pos rfl, List.cons_append, number?, hmagnitude]
  | false =>
      rw [hnegative] at hmagnitude
      rw [if_neg Bool.false_ne_true]
      cases hwhole : n.whole with
      | nil => exact absurd hwhole h.whole_ne_nil
      | cons c digits =>
          have hc : isAsciiDigit c = true := by
            have hall := h.all_whole
            rw [hwhole, List.all_cons, Bool.and_eq_true] at hall
            exact hall.1
          rw [Numeral.magnitudeText, hwhole] at hmagnitude ⊢
          rw [List.cons_append, List.cons_append] at hmagnitude ⊢
          rw [number?]
          · exact hmagnitude
          · intro text heq
            cases heq
            cases hc

/-! ## Whole numbers -/

/-- Digits of a number above zero do not start with a zero. -/
theorem head?_digitsOf {n : Nat} (h : 0 < n) : (digitsOf n).head? ≠ some '0' := by
  induction n using Nat.strongRecOn with
  | ind n ih =>
      by_cases hsmall : n < 10
      · have hall : ∀ m < 10, 0 < m → (digitsOf m).head? ≠ some '0' := by decide
        exact hall n hsmall h
      · have hsplit : digitsOf n = digitsOf (n / 10) ++ [Nat.digitChar (n % 10)] :=
          Nat.toDigits_of_base_le (by decide) (Nat.le_of_not_lt hsmall)
        have hne := digitsOf_ne_nil (n / 10)
        have hrest := ih (n / 10) (by omega) (by omega)
        cases hdigits : digitsOf (n / 10) with
        | nil => exact absurd hdigits hne
        | cons c digits =>
            rw [hdigits] at hsplit hrest
            rw [hsplit]
            exact hrest

/-- The numeral that a whole number is written as. -/
def intNumeral (n : Int) : Numeral :=
  { negative := n < 0, whole := digitsOf n.natAbs, fraction := none, exponent := none }

theorem text_intNumeral (n : Int) : (intNumeral n).text = integerText n := by
  have hmagnitude : (intNumeral n).magnitudeText = digitsOf n.natAbs := by
    rw [Numeral.magnitudeText, intNumeral, fractionText, exponentText, List.append_nil,
      List.append_nil]
  rw [Numeral.text, hmagnitude, integerText, intNumeral]
  simp only [decide_eq_true_eq]

theorem proper_intNumeral (n : Int) : (intNumeral n).Proper where
  whole_ne_nil := digitsOf_ne_nil n.natAbs
  all_whole := all_digitsOf n.natAbs
  leading := by
    by_cases hzero : n.natAbs = 0
    · exact Or.inl (by rw [intNumeral, hzero]; rfl)
    · exact Or.inr (head?_digitsOf (Nat.pos_of_ne_zero hzero))
  fraction_ne_nil := fun _ h => nomatch h
  all_fraction := fun _ h => nomatch h

/-- A whole number that fits a 64-bit word, signed or unsigned, is read back. -/
theorem toJson?_intNumeral {n : Int} (hlow : leastWord ≤ n) (hhigh : n < wordCount) :
    (intNumeral n).toJson? = some (.int n) := by
  have hint : (intNumeral n).toInt? = some n := by
    simp only [Numeral.toInt?, intNumeral, Option.isNone_none, Bool.and_self, if_true,
      valueOf_digitsOf, decide_eq_true_eq]
    by_cases hneg : n < 0
    · have habs : -(n.natAbs : Int) = n := by omega
      have hpos : 0 < n.natAbs := by omega
      rw [if_pos hneg, habs, decide_eq_true hpos, decide_eq_true hlow]
      rfl
    · have habs : (n.natAbs : Int) = n := by omega
      have hlt : n.natAbs < wordCount := by omega
      rw [if_neg hneg, if_pos hlt, habs]
  rw [Numeral.toJson?, hint]

/-! ## Numbers with a fraction -/

/-- Digits in positional notation, with a fraction even if it is zero. -/
def positionalNumeral (negative : Bool) (s : Scientific) : Numeral :=
  let places := s.power.toNat + 1
  if s.power < 0 then
    { negative, whole := ['0']
      fraction := some (List.replicate ((-s.power).toNat - 1) '0' ++ s.digits), exponent := none }
  else if s.digits.length ≤ places then
    { negative, whole := s.digits ++ List.replicate (places - s.digits.length) '0'
      fraction := some ['0'], exponent := none }
  else
    { negative, whole := s.digits.take places, fraction := some (s.digits.drop places)
      exponent := none }

/-- Digits with an exponent: a point behind the first of them, if there are more. -/
def exponentNumeral (negative : Bool) (s : Scientific) : Numeral :=
  { negative, whole := s.digits.take 1
    fraction := if s.digits.length ≤ 1 then none else some (s.digits.drop 1)
    exponent := some s.power }

/-- The numeral that a magnitude is written as. -/
def floatNumeral (negative : Bool) (rank : Nat) : Numeral :=
  if rank = 0 then { negative, whole := ['0'], fraction := some ['0'], exponent := none }
  else
    let s := shortest .even rank
    if Layout.json.positional s.power then positionalNumeral negative s
    else exponentNumeral negative s

section

variable {s : Scientific} {negative : Bool}

theorem magnitudeText_positionalNumeral :
    (positionalNumeral negative s).magnitudeText = Layout.json.positionalText s := by
  rw [Numeral.magnitudeText, positionalNumeral, Layout.positionalText]
  dsimp only
  split
  · simp only [fractionText, exponentText, List.append_nil, List.append_assoc]
    rfl
  · split
    · simp only [fractionText, exponentText, List.append_nil, List.append_assoc]
      rfl
    · simp only [fractionText, exponentText, List.append_nil]

theorem magnitudeText_exponentNumeral :
    (exponentNumeral negative s).magnitudeText = Layout.json.exponentText s := by
  rw [Numeral.magnitudeText, exponentNumeral, Layout.exponentText]
  cases s.digits with
  | nil => rfl
  | cons d rest =>
      cases rest with
      | nil => rfl
      | cons e rest =>
          have hlength : ¬ (d :: e :: rest).length ≤ 1 := by
            rw [List.length_cons, List.length_cons]
            omega
          simp only [if_neg hlength]
          rfl

/-- Digits of a number above zero: at least one, and the first is no zero. -/
structure Leading (s : Scientific) : Prop where
  ne_nil : s.digits ≠ []
  all_digits : s.digits.all isAsciiDigit = true
  head_ne_zero : s.digits.head? ≠ some '0'

theorem all_replicate_zero (n : Nat) : (List.replicate n '0').all isAsciiDigit = true := by
  rw [List.all_replicate]
  cases n <;> rfl

theorem proper_positionalNumeral (h : Leading s) : (positionalNumeral negative s).Proper := by
  have hlength := List.length_pos_iff.mpr h.ne_nil
  rw [positionalNumeral]
  split
  · refine ⟨List.cons_ne_nil _ _, rfl, Or.inl rfl, ?_, ?_⟩
    · rintro fraction ⟨⟩
      exact List.append_ne_nil_of_right_ne_nil _ h.ne_nil
    · rintro fraction ⟨⟩
      rw [List.all_append, all_replicate_zero, h.all_digits]
      rfl
  · split
    · refine ⟨List.append_ne_nil_of_left_ne_nil h.ne_nil _, ?_, Or.inr ?_, ?_, ?_⟩
      · rw [List.all_append, all_replicate_zero, h.all_digits]
        rfl
      · rw [List.head?_append_of_ne_nil _ h.ne_nil]
        exact h.head_ne_zero
      · rintro fraction ⟨⟩
        exact List.cons_ne_nil _ _
      · rintro fraction ⟨⟩
        rfl
    · rename_i hlong
      have hall := h.all_digits
      rw [← List.take_append_drop (s.power.toNat + 1) s.digits, List.all_append,
        Bool.and_eq_true] at hall
      refine ⟨?_, hall.1, Or.inr ?_, ?_, ?_⟩
      · rw [← List.length_pos_iff, List.length_take]
        omega
      · rw [List.head?_take, if_neg (Nat.succ_ne_zero _)]
        exact h.head_ne_zero
      · rintro fraction ⟨⟩
        rw [← List.length_pos_iff, List.length_drop]
        omega
      · rintro fraction ⟨⟩
        exact hall.2

theorem proper_exponentNumeral (h : Leading s) : (exponentNumeral negative s).Proper := by
  have hlength := List.length_pos_iff.mpr h.ne_nil
  have hall := h.all_digits
  rw [← List.take_append_drop 1 s.digits, List.all_append, Bool.and_eq_true] at hall
  refine ⟨?_, hall.1, Or.inr ?_, ?_, ?_⟩
  · rw [exponentNumeral, ← List.length_pos_iff, List.length_take]
    omega
  · rw [exponentNumeral, List.head?_take, if_neg Nat.one_ne_zero]
    exact h.head_ne_zero
  · rw [exponentNumeral]
    dsimp only
    split
    · rintro fraction ⟨⟩
    · rintro fraction ⟨⟩
      rw [← List.length_pos_iff, List.length_drop]
      omega
  · rw [exponentNumeral]
    dsimp only
    split
    · rintro fraction ⟨⟩
    · rintro fraction ⟨⟩
      exact hall.2

end

theorem leading_shortest {rank : Nat} (hrank : 0 < rank) (hlt : rank < rankCount) (tie : Tie) :
    Leading (shortest tie rank) := by
  have hdigits := digits_shortestDecimal_ne_zero tie hrank hlt
  have hne : (shortest tie rank).digits ≠ [] := scientific_digits_ne_nil hdigits
  refine ⟨hne, all_scientific_digits _, ?_⟩
  obtain ⟨tail, hsplit, _⟩ :=
    exists_trimEnd_append (· == '0') (digitsOf (shortestDecimal tie rank).digits)
  have hhead := head?_digitsOf (Nat.pos_of_ne_zero hdigits)
  rw [hsplit] at hhead
  intro heq
  exact hhead ((List.head?_append_of_ne_nil (shortest tie rank).digits hne).trans heq)

theorem proper_floatNumeral {rank : Nat} (hlt : rank < rankCount) (negative : Bool) :
    (floatNumeral negative rank).Proper := by
  rw [floatNumeral]
  split
  · refine ⟨List.cons_ne_nil _ _, rfl, Or.inl rfl, ?_, ?_⟩
    · rintro fraction ⟨⟩
      exact List.cons_ne_nil _ _
    · rintro fraction ⟨⟩
      rfl
  · rename_i hrank
    have hleading := leading_shortest (Nat.pos_of_ne_zero hrank) hlt .even
    dsimp only
    split
    · exact proper_positionalNumeral hleading
    · exact proper_exponentNumeral hleading

theorem text_floatNumeral (negative : Bool) {rank : Nat} (hlt : rank < rankCount) :
    (floatNumeral negative rank).text = floatText (.finite negative ⟨rank, hlt⟩) := by
  have hnegative : (floatNumeral negative rank).negative = negative := by
    simp only [floatNumeral, positionalNumeral]
    repeat' split
    all_goals rfl
  have hmagnitude : (floatNumeral negative rank).magnitudeText =
      Layout.json.magnitudeText rank := by
    rw [floatNumeral, Layout.magnitudeText]
    by_cases hrank : rank = 0
    · rw [if_pos hrank, if_pos hrank]
      rfl
    · rw [if_neg hrank, if_neg hrank]
      by_cases hpositional : Layout.json.positional (shortest .even rank).power = true
      · simp only [if_pos hpositional]
        rw [magnitudeText_positionalNumeral]
        exact (if_pos hpositional).symm
      · simp only [if_neg hpositional]
        rw [magnitudeText_exponentNumeral]
        exact (if_neg hpositional).symm
  rw [Numeral.text, hnegative, hmagnitude]
  rfl

/-- A number with a fraction or with an exponent is not read as a whole one. -/
theorem toInt?_floatNumeral (negative : Bool) (rank : Nat) :
    (floatNumeral negative rank).toInt? = none := by
  have hparts : ((floatNumeral negative rank).fraction.isNone &&
      (floatNumeral negative rank).exponent.isNone) = false := by
    simp only [floatNumeral, positionalNumeral, exponentNumeral]
    repeat' split
    all_goals rfl
  rw [Numeral.toInt?, hparts]
  rfl

end Json
end RecordFilter
