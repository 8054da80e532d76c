/-
Which operator the scan of a fragment finds.  At the first position outside literals where spellings
of operators stand, the scan takes the longest of them, because the table has each spelling behind
the longer ones that start with it; `findOperator_leftmostLongest` says so for every fragment.  The
positions inside a literal are those where the quote in front of it has not been closed, so a literal
that is left open hides everything behind it.
-/
import Mathlib.Data.List.TakeWhile
import RecordFilter.Proofs.Bytewise.Clause

namespace RecordFilter
namespace Bytewise

open Text
open Operator (Located Spelling spellings)

/-! ## Spellings in front of bytes -/

/-- A spelling stands between bytes, of which the second start with it, in any case.  The word LIKE
stands only where no other word touches it. -/
structure Stands (left right : List UInt8) (s : Spelling) : Prop where
  spelled : spells (right.take s.text.length) s.text = true
  apart : s.operator = .like → left.getLast?.any isWordByte = false ∧
    (right.drop s.text.length).head?.any isWordByte = false

/-- An operator stands at a position: the bytes in front of it leave no literal open, and there is a
spelling there. -/
def OperatorAt (bytes : List UInt8) (start : Nat) : Prop :=
  Quote.after none ((bytes.take start).map char) = none ∧
    ∃ s ∈ spellings, Stands (bytes.take start) (bytes.drop start) s

/-- Of the spellings that stand at a position this is the longest. -/
structure Longest (bytes : List UInt8) (start : Nat) (s : Spelling) : Prop where
  mem : s ∈ spellings
  stands : Stands (bytes.take start) (bytes.drop start) s
  length_le : ∀ other ∈ spellings, Stands (bytes.take start) (bytes.drop start) other →
    other.text.length ≤ s.text.length

/-- What there is to find in a text: the longest spelling at the first position of an operator, if
there is such a position. -/
def LeftmostLongest (bytes : List UInt8) : Option Located → Prop
  | none => ∀ start, ¬ OperatorAt bytes start
  | some located =>
      OperatorAt bytes located.start ∧
        (∀ earlier < located.start, ¬ OperatorAt bytes earlier) ∧
        ∃ s, Longest bytes located.start s ∧ located.operator = s.operator ∧
          located.stop = located.start + s.text.length

theorem operatorAt_append {left right : List UInt8} :
    OperatorAt (left ++ right) left.length ↔
      Quote.after none (left.map char) = none ∧ ∃ s ∈ spellings, Stands left right s := by
  rw [OperatorAt, List.take_left, List.drop_left]

variable {left right : List UInt8} {s t : Spelling}

/-- The bytes of a spelling are the spelling, but for the case of letters. -/
theorem Stands.text_eq (h : Stands left right s) (hs : s ∈ spellings) :
    s.text = lower ((right.take s.text.length).map char) := by
  have hspelled := h.spelled
  rw [spells, sameLetters, beq_iff_eq, Operator.spelling_lower hs] at hspelled
  exact hspelled.symm

theorem Stands.length_le (h : Stands left right s) : s.text.length ≤ right.length := by
  have hlength := length_eq_of_sameLetters h.spelled
  rw [List.length_map, List.length_take] at hlength
  omega

/-- A spelling that stands where a longer one does is the start of that. -/
theorem Stands.isPrefix (h : Stands left right s) (hs : s ∈ spellings)
    (hother : Stands left right t) (ht : t ∈ spellings) (hle : s.text.length ≤ t.text.length) :
    s.text <+: t.text := by
  have hstart : s.text = t.text.take s.text.length := by
    rw [hother.text_eq ht, lower, ← List.map_take, ← List.map_take, List.take_take,
      Nat.min_eq_left hle]
    exact h.text_eq hs
  rw [hstart]
  exact List.take_prefix _ _

/-- The longer of two spellings comes first, where the shorter one is its start. -/
theorem pairwise_spellings :
    spellings.Pairwise fun s t => s.text <+: t.text → t.text.length ≤ s.text.length := by
  decide

theorem eq_of_text_eq : ∀ s ∈ spellings, ∀ t ∈ spellings, s.text = t.text → s = t := by
  decide

/-- The first spelling of the table that stands somewhere is the longest one there. -/
theorem length_le_of_first {front back : List Spelling} (htable : spellings = front ++ s :: back)
    (hs : Stands left right s) (hfront : ∀ other ∈ front, ¬ Stands left right other) :
    ∀ other ∈ spellings, Stands left right other → other.text.length ≤ s.text.length := by
  intro other hmem hother
  have hsmem : s ∈ spellings := by
    rw [htable]
    exact List.mem_append_right front List.mem_cons_self
  have hcases := hmem
  rw [htable, List.mem_append, List.mem_cons] at hcases
  rcases hcases with hin | rfl | hin
  · exact absurd hother (hfront other hin)
  · exact Nat.le_refl _
  · refine Nat.le_of_not_lt fun hlt => ?_
    have hpairs := pairwise_spellings
    rw [htable, List.pairwise_append, List.pairwise_cons] at hpairs
    have hle := hpairs.2.1.1 other hin (hs.isPrefix hsmem hother hmem (Nat.le_of_lt hlt))
    omega

theorem longest_unique {bytes : List UInt8} {start : Nat} (h : Longest bytes start s)
    (hother : Longest bytes start t) : s = t := by
  have hst := h.length_le t hother.mem hother.stands
  have hts := hother.length_le s h.mem h.stands
  refine eq_of_text_eq s h.mem t hother.mem ?_
  exact (h.stands.isPrefix h.mem hother.stands hother.mem hts).eq_of_length_le hst

/-- There is only one thing to find. -/
theorem leftmostLongest_unique {bytes : List UInt8} {found other : Option Located}
    (h : LeftmostLongest bytes found) (hother : LeftmostLongest bytes other) : found = other := by
  cases found with
  | none =>
      cases other with
      | none => rfl
      | some located => exact absurd hother.1 (h located.start)
  | some located =>
      cases other with
      | none => exact absurd h.1 (hother located.start)
      | some second =>
          obtain ⟨hat, hfirst, s, hs, hoperator, hstop⟩ := h
          obtain ⟨hat', hfirst', t, ht, hoperator', hstop'⟩ := hother
          have hstart : located.start = second.start := by
            refine Nat.le_antisymm (Nat.le_of_not_lt fun hlt => ?_) (Nat.le_of_not_lt fun hlt => ?_)
            · exact hfirst second.start hlt hat'
            · exact hfirst' located.start hlt hat
          rw [← hstart] at ht
          obtain rfl := longest_unique hs ht
          obtain ⟨start, stop, operator⟩ := located
          obtain ⟨start', stop', operator'⟩ := second
          simp only at hstart hoperator hoperator' hstop hstop'
          rw [hstart, hstop, hstop', hoperator, hoperator', hstart]

/-! ## The table at a position -/

instance (left right : List UInt8) (s : Spelling) : Decidable (Stands left right s) :=
  decidable_of_iff (spells (right.take s.text.length) s.text = true ∧
      (s.operator = .like → left.getLast?.any isWordByte = false ∧
        (right.drop s.text.length).head?.any isWordByte = false))
    ⟨fun h => ⟨h.1, h.2⟩, fun h => ⟨h.spelled, h.apart⟩⟩

/-- The operator of a spelling at a position. -/
def located (start : Nat) (s : Spelling) : Located :=
  { start, stop := start + s.text.length, operator := s.operator }

theorem between_take {n : Nat} (h : n ≤ right.length) :
    between (ε := Error) (left ++ right) left.length (left.length + n) = .ok (right.take n) := by
  have hbetween := between_append (ε := Error) left (right.take n) (right.drop n)
  rw [List.take_append_drop, List.length_take_of_le h] at hbetween
  exact hbetween

theorem getElem?_append_add (left right : List UInt8) (n : Nat) :
    (left ++ right)[left.length + n]? = (right.drop n).head? := by
  rw [List.getElem?_append_right (Nat.le_add_right _ _), Nat.add_sub_cancel_left, List.head?_drop]

theorem operatorAt_of_stands (h : Stands left right s) (others : List Spelling) :
    operatorAt (left ++ right) left.length (s :: others) =
      .ok (some (located left.length s)) := by
  have hlong : ¬ (left ++ right).length < left.length + s.text.length := by
    have hle := h.length_le
    rw [List.length_append]
    omega
  rw [operatorAt, if_neg hlong, between_take h.length_le, ok_bind, h.spelled]
  by_cases hlike : s.operator = .like
  · obtain ⟨hbefore, hbehind⟩ := h.apart hlike
    rw [if_pos hlike, wordBefore_append, getElem?_append_add, hbefore, hbehind]
    rfl
  · rw [if_neg hlike]
    rfl

theorem operatorAt_of_not_stands (h : ¬ Stands left right s) (others : List Spelling) :
    operatorAt (left ++ right) left.length (s :: others) =
      operatorAt (left ++ right) left.length others := by
  rw [operatorAt, List.length_append]
  by_cases hshort : right.length < s.text.length
  · rw [if_pos (by omega)]
  · rw [if_neg (by omega), between_take (Nat.le_of_not_lt hshort), ok_bind]
    cases hspelled : spells (right.take s.text.length) s.text with
    | false => rfl
    | true =>
        by_cases hlike : s.operator = .like
        · have htouched : (left.getLast?.any isWordByte ||
              (right.drop s.text.length).head?.any isWordByte) = true := by
            rw [← Bool.not_eq_false, Bool.or_eq_false_iff]
            exact fun hapart => h ⟨hspelled, fun _ => hapart⟩
          rw [if_pos hlike, wordBefore_append, getElem?_append_add]
          simp only [Except.map, ok_bind, htouched, Bool.not_true, Bool.false_eq_true, if_false,
            if_true]
        · exact absurd ⟨hspelled, fun hname => absurd hname hlike⟩ h

theorem operatorAt_eq (left right : List UInt8) (table : List Spelling) :
    operatorAt (left ++ right) left.length table =
      .ok ((table.find? fun s => Stands left right s).map (located left.length)) := by
  induction table with
  | nil => rfl
  | cons s others ih =>
      rw [List.find?_cons]
      by_cases h : Stands left right s
      · rw [operatorAt_of_stands h, decide_eq_true h]
        rfl
      · rw [operatorAt_of_not_stands h, ih, decide_eq_false h]

/-! ## Positions without an operator -/

theorem not_operatorAt_of_le {bytes : List UInt8} {start : Nat} (h : bytes.length ≤ start) :
    ¬ OperatorAt bytes start := by
  rintro ⟨_, s, hs, hstands⟩
  have hle := hstands.length_le
  rw [List.drop_eq_nil_of_le h, List.length_nil, Nat.le_zero, List.length_eq_zero_iff] at hle
  exact (proper_of_mem hs).ne_nil hle

theorem not_quote_of_mem {c : Char} (hs : s ∈ spellings) (hc : c ∈ s.text) :
    Quote.isQuote c = false := by
  have hall : (spellings.all fun s => s.text.all fun c => !Quote.isQuote c) = true := by decide
  have htext := List.all_eq_true.mp hall s hs
  exact (Bool.not_eq_true' _).mp (List.all_eq_true.mp htext c hc)

theorem lowerAscii_of_isQuote {c : Char} (h : Quote.isQuote c = true) : lowerAscii c = c := by
  simp only [Quote.isQuote, Bool.or_eq_true, beq_iff_eq] at h
  rcases h with rfl | rfl <;> decide

/-- No operator starts with a quote. -/
theorem not_operatorAt_quote {b : UInt8} (hquote : Quote.isQuote (char b) = true)
    (left right : List UInt8) : ¬ OperatorAt (left ++ b :: right) left.length := by
  rw [operatorAt_append]
  rintro ⟨_, s, hs, hstands⟩
  obtain ⟨d, word, hword⟩ := List.exists_cons_of_ne_nil (proper_of_mem hs).ne_nil
  have htext := hstands.text_eq hs
  rw [hword, List.length_cons, List.take_succ_cons, List.map_cons, lower, List.map_cons,
    lowerAscii_of_isQuote hquote] at htext
  have hd := not_quote_of_mem hs (c := d) (by rw [hword]; exact List.mem_cons_self)
  rw [(List.cons.inj htext).1, hquote] at hd
  cases hd

theorem char_injective {b d : UInt8} (h : char b = char d) : b = d := by
  have hnat := congrArg Char.toNat h
  rw [toNat_char, toNat_char] at hnat
  exact UInt8.toNat_inj.mp hnat

theorem char_not_mem_map {b : UInt8} {bytes : List UInt8} (h : b ∉ bytes) :
    char b ∉ bytes.map char := by
  rw [List.mem_map]
  rintro ⟨d, hd, hchar⟩
  exact h (char_injective hchar ▸ hd)

/-- No operator stands inside a literal: the quote in front of it has not come again. -/
theorem not_operatorAt_inside {b : UInt8} (hclosed : Quote.after none (left.map char) = none)
    (hquote : Quote.isQuote (char b) = true) {tail : List UInt8} {start : Nat}
    (hlt : left.length < start) (hmem : b ∉ tail.take (start - (left.length + 1))) :
    ¬ OperatorAt (left ++ b :: tail) start := by
  rintro ⟨hout, _⟩
  have htake : (left ++ b :: tail).take start =
      left ++ b :: tail.take (start - (left.length + 1)) := by
    obtain ⟨n, rfl⟩ := Nat.exists_eq_add_of_lt hlt
    have hn : left.length + n + 1 - (left.length + 1) = n := by omega
    rw [hn, Nat.add_assoc, List.take_length_add_append, List.take_succ_cons]
  rw [htake, List.map_append, List.map_cons, Quote.after_append, hclosed,
    Quote.after_open hquote (char_not_mem_map hmem)] at hout
  cases hout

section

variable {b : UInt8} (hclosed : Quote.after none (left.map char) = none)
  (hquote : Quote.isQuote (char b) = true)
include hclosed hquote

/-- If there is no operator in front of a literal, then there is none in front of what follows. -/
theorem passed_literal {content more : List UInt8} (hcontent : b ∉ content)
    (hpassed : ∀ earlier < left.length, ¬ OperatorAt (left ++ b :: (content ++ b :: more)) earlier) :
    ∀ earlier < (left ++ b :: (content ++ [b])).length,
      ¬ OperatorAt (left ++ b :: (content ++ b :: more)) earlier := by
  intro earlier hearlier
  rcases Nat.lt_trichotomy earlier left.length with hlt | rfl | hgt
  · exact hpassed earlier hlt
  · exact not_operatorAt_quote hquote left _
  · have hle : earlier - (left.length + 1) ≤ content.length := by
      simp only [List.length_append, List.length_cons, List.length_nil] at hearlier
      omega
    refine not_operatorAt_inside hclosed hquote hgt ?_
    rw [List.take_append_of_le_length hle]
    exact fun hmem => hcontent (List.mem_of_mem_take hmem)

/-- A literal that is left open runs to the end. -/
theorem passed_open {tail : List UInt8} (htail : b ∉ tail)
    (hpassed : ∀ earlier < left.length, ¬ OperatorAt (left ++ b :: tail) earlier) (start : Nat) :
    ¬ OperatorAt (left ++ b :: tail) start := by
  rcases Nat.lt_trichotomy start left.length with hlt | rfl | hgt
  · exact hpassed start hlt
  · exact not_operatorAt_quote hquote left tail
  · exact not_operatorAt_inside hclosed hquote hgt fun hmem => htail (List.mem_of_mem_take hmem)

theorem after_closed {content : List UInt8} (hcontent : b ∉ content) :
    Quote.after none ((left ++ b :: (content ++ [b])).map char) = none := by
  rw [List.map_append, List.map_cons, List.map_append, List.map_singleton, Quote.after_append,
    hclosed]
  exact Quote.after_literal hquote (char_not_mem_map hcontent)

end

/-! ## The scan -/

theorem bne_of_not_mem {b : UInt8} {bytes : List UInt8} (h : b ∉ bytes) :
    ∀ d ∈ bytes, (d != b) = true := by
  intro d hd
  exact bne_iff_ne.mpr fun heq => h (heq ▸ hd)

/-- The bytes up to the first quote of a kind, or up to the end. -/
theorem takeWhile_bne_append {b : UInt8} {content : List UInt8} (h : b ∉ content)
    (more : List UInt8) : (content ++ b :: more).takeWhile (· != b) = content := by
  rw [List.takeWhile_append_of_pos (bne_of_not_mem h), List.takeWhile_cons_of_neg (by simp),
    List.append_nil]

theorem takeWhile_bne_of_not_mem {b : UInt8} {bytes : List UInt8} (h : b ∉ bytes) :
    bytes.takeWhile (· != b) = bytes :=
  List.takeWhile_eq_self_iff.mpr (bne_of_not_mem h)

/-- The first spelling of the table at the first position of an operator is what there is to find. -/
theorem leftmostLongest_of_find? (hclosed : Quote.after none (left.map char) = none)
    (hpassed : ∀ earlier < left.length, ¬ OperatorAt (left ++ right) earlier)
    (hfind : spellings.find? (fun s => Stands left right s) = some s) :
    LeftmostLongest (left ++ right) (some (located left.length s)) := by
  obtain ⟨hstands, front, back, htable, hfront⟩ := List.find?_eq_some_iff_append.mp hfind
  have hs : Stands left right s := of_decide_eq_true hstands
  have hmem : s ∈ spellings := List.mem_of_find?_eq_some hfind
  have hfirst : ∀ other ∈ front, ¬ Stands left right other := fun other hother =>
    of_decide_eq_false (by simpa using hfront other hother)
  refine ⟨operatorAt_append.mpr ⟨hclosed, s, hmem, hs⟩, hpassed, s, ?_, rfl, rfl⟩
  have hlongest := length_le_of_first htable hs hfirst
  exact ⟨hmem, by rwa [located, List.take_left, List.drop_left],
    by rwa [located, List.take_left, List.drop_left]⟩

/-- From a position outside literals on, the scan finds what there is to find, if it has not passed
an operator so far. -/
theorem findFrom_leftmostLongest (left right : List UInt8)
    (hclosed : Quote.after none (left.map char) = none)
    (hpassed : ∀ earlier < left.length, ¬ OperatorAt (left ++ right) earlier) :
    ∃ found, findFrom (left ++ right) left.length = .ok found ∧
      LeftmostLongest (left ++ right) found := by
  match right with
  | [] =>
      refine ⟨none, findFrom_of_le (by simp), fun start => ?_⟩
      by_cases hlt : start < left.length
      · exact hpassed start hlt
      · exact not_operatorAt_of_le (by simpa using hlt)
  | b :: rest =>
      rw [findFrom_cons]
      by_cases hquote : Quote.isQuote (char b) = true
      · have hclose := literalClose_append b (left ++ [b]) rest
        rw [List.length_append, List.length_singleton, List.append_assoc,
          List.singleton_append] at hclose
        rw [if_pos hquote, hclose, ok_bind]
        by_cases hmem : b ∈ rest
        · obtain ⟨content, more, rfl, hcontent⟩ := List.eq_append_cons_of_mem hmem
          have hnext := findFrom_leftmostLongest (left ++ b :: (content ++ [b])) more
            (after_closed hclosed hquote hcontent)
          have hstop : (left ++ b :: (content ++ [b])).length =
              left.length + 1 + content.length + 1 := by
            simp only [List.length_append, List.length_cons, List.length_nil]
            omega
          have hbytes : left ++ b :: (content ++ [b]) ++ more =
              left ++ b :: (content ++ b :: more) := by
            simp only [List.append_assoc, List.cons_append, List.nil_append]
          rw [hbytes, hstop] at hnext
          rw [takeWhile_bne_append hcontent]
          exact hnext (hstop ▸ passed_literal hclosed hquote hcontent hpassed)
        · refine ⟨none, findFrom_of_le ?_, passed_open hclosed hquote hmem hpassed⟩
          rw [takeWhile_bne_of_not_mem hmem, List.length_append, List.length_cons]
          omega
      · rw [if_neg hquote, operatorAt_eq]
        cases hfind : spellings.find? fun s => Stands left (b :: rest) s with
        | some s => exact ⟨_, rfl, leftmostLongest_of_find? hclosed hpassed hfind⟩
        | none =>
            have hat : ¬ OperatorAt (left ++ b :: rest) left.length := by
              rw [operatorAt_append]
              rintro ⟨_, s, hs, hstands⟩
              exact List.find?_eq_none.mp hfind s hs (decide_eq_true hstands)
            have hopen : Quote.after none ((left ++ [b]).map char) = none := by
              rw [List.map_append, Quote.after_append, hclosed]
              exact Quote.step_of_not_quote (by simpa using hquote)
            have hnext := findFrom_leftmostLongest (left ++ [b]) rest hopen
            rw [List.append_assoc, List.singleton_append, List.length_append,
              List.length_singleton] at hnext
            exact hnext fun earlier hlt => (Nat.lt_succ_iff_lt_or_eq.mp hlt).elim (hpassed earlier)
              fun heq => heq ▸ hat
termination_by right.length

/-- The scan of a fragment ends with an answer: the leftmost operator outside literals, and of its
spellings the longest one; or none, which is the answer exactly if no operator stands anywhere. -/
theorem findOperator_leftmostLongest (fragment : List Char) :
    (∃ found, findOperator fragment = .ok found) ∧
      ∀ found, findOperator fragment = .ok found ↔ LeftmostLongest (encode fragment) found := by
  obtain ⟨answer, hanswer, hleftmost⟩ : ∃ answer, findOperator fragment = .ok answer ∧
      LeftmostLongest (encode fragment) answer :=
    findFrom_leftmostLongest [] (encode fragment) rfl fun _ h => absurd h (Nat.not_lt_zero _)
  refine ⟨⟨answer, hanswer⟩, fun found => ⟨fun h => ?_, fun h => ?_⟩⟩
  · rw [hanswer] at h
    cases h
    exact hleftmost
  · rw [hanswer, leftmostLongest_unique hleftmost h]

end Bytewise
end RecordFilter
