/-
Where a fragment is split.  The operator scan answers with byte offsets; `exists_split` turns them
into the three parts of the fragment, which is the form that every fact about a clause starts from.
The part in the middle is a spelling of the operator up to the case of its letters.
-/
import RecordFilter.Clause.Operator
import RecordFilter.Proofs.Text.Words
import RecordFilter.Text.Bytes

namespace RecordFilter

namespace Text

/-- A character that is one byte long in lower case is one byte long. -/
theorem utf8Size_of_lowerAscii {c : Char} (h : (lowerAscii c).utf8Size = 1) : c.utf8Size = 1 := by
  by_cases hupper : 'A' ≤ c ∧ c ≤ 'Z'
  · have hle : c.val ≤ 0x7F := UInt32.le_trans hupper.2 (by decide)
    exact Char.utf8Size_eq_one_iff.mpr hle
  · rw [lowerAscii_of_not_upper hupper] at h
    exact h

theorem byteLength_of_ascii {text : List Char} (h : ∀ c ∈ text, c.utf8Size = 1) :
    byteLength text = text.length := by
  induction text with
  | nil => rfl
  | cons c rest ih =>
      rw [byteLength_cons, h c List.mem_cons_self,
        ih fun d hd => h d (List.mem_cons_of_mem c hd), List.length_cons, Nat.add_comm]

end Text

theorem Quote.getLast?_cons_or (c : Char) (front : List Char) (before : Option Char) :
    (c :: front).getLast?.or before = front.getLast?.or (some c) := by
  rw [List.getLast?_cons]
  cases front.getLast? <;> rfl

namespace Operator

open Text

theorem spelling_ascii {s : Spelling} (h : s ∈ spellings) : ∀ c ∈ s.text, c.utf8Size = 1 := by
  have hall : (spellings.all fun s => s.text.all fun c => c.utf8Size == 1) = true := by decide
  intro c hc
  have htext := List.all_eq_true.mp hall s h
  exact beq_iff_eq.mp (List.all_eq_true.mp htext c hc)

theorem spelling_lower {s : Spelling} (h : s ∈ spellings) : lower s.text = s.text := by
  revert s
  decide

/-- A spelling that stands at the start of a text is there up to the case of its letters. -/
theorem lower_take_of_standsAt {s : Spelling} (hs : s ∈ spellings) {before : Option Char}
    {text : List Char} (h : s.standsAt before text = true) :
    lower (text.take s.text.length) = s.text := by
  rw [Spelling.standsAt] at h
  split at h
  · rw [standsAlone, sameLetters, Bool.and_eq_true, Bool.and_eq_true, beq_iff_eq] at h
    rw [h.1.1, spelling_lower hs]
  · obtain ⟨rest, rfl⟩ := List.isPrefixOf_iff_prefix.mp h
    rw [List.take_left, spelling_lower hs]

/-- A text in the case of an operator takes as many bytes as it has characters. -/
theorem byteLength_of_lower {s : Spelling} (hs : s ∈ spellings) {word : List Char}
    (h : lower word = s.text) : byteLength word = s.text.length := by
  have hlength : word.length = s.text.length := by rw [← h, lower, List.length_map]
  rw [← hlength]
  refine byteLength_of_ascii fun c hc => utf8Size_of_lowerAscii (spelling_ascii hs _ ?_)
  rw [← h, lower]
  exact List.mem_map_of_mem hc

/-- The scan stops at the first place where a spelling stands.  The text in front of it has ended every
literal that it opened. -/
theorem exists_spellingAt?_of_findFrom {offset : Nat} {before opened : Option Char}
    {text : List Char} {found : Located} (h : findFrom offset before opened text = some found) :
    ∃ front back s, text = front ++ back ∧ spellingAt? (front.getLast?.or before) back = some s ∧
      Quote.after opened front = none ∧
      (front ≠ [] → opened = none → spellingAt? before text = none) ∧
      found = { start := offset + byteLength front
                stop := offset + byteLength front + s.text.length
                operator := s.operator } := by
  induction text generalizing offset before opened with
  | nil => cases h
  | cons c rest ih =>
      rw [findFrom] at h
      split at h
      · rename_i s hs
        cases h
        cases opened with
        | none => exact ⟨[], c :: rest, s, rfl, hs, rfl, fun hne => absurd rfl hne, rfl⟩
        | some q => cases hs
      · rename_i hnone
        obtain ⟨front, back, s, rfl, hs, hafter, _, rfl⟩ := ih h
        refine ⟨c :: front, back, s, rfl, ?_, hafter, ?_, ?_⟩
        · rw [Quote.getLast?_cons_or, hs]
        · rintro _ rfl
          exact hnone
        · rw [byteLength_cons, Nat.add_assoc offset]

theorem exists_of_findFrom {offset : Nat} {before opened : Option Char} {text : List Char}
    {found : Located} (h : findFrom offset before opened text = some found) :
    ∃ front word back s, text = front ++ (word ++ back) ∧ s ∈ spellings ∧ lower word = s.text ∧
      Quote.after opened front = none ∧ found = { start := offset + byteLength front
                                                  stop := offset + byteLength front + byteLength word
                                                  operator := s.operator } := by
  obtain ⟨front, back, s, rfl, hs, hafter, _, rfl⟩ := exists_spellingAt?_of_findFrom h
  have hmem : s ∈ spellings := List.mem_of_find?_eq_some hs
  have hstands : s.standsAt (front.getLast?.or before) back = true := by
    have hsome := List.find?_some hs
    exact hsome
  have hword : lower (back.take s.text.length) = s.text := lower_take_of_standsAt hmem hstands
  refine ⟨front, back.take s.text.length, back.drop s.text.length, s, ?_, hmem, hword, hafter, ?_⟩
  · rw [List.take_append_drop]
  · rw [byteLength_of_lower hmem hword]

/-- The offsets of an operator cut the fragment into a left side, a spelling and a right side. -/
theorem exists_split {fragment : List Char} {found : Located} (h : find? fragment = some found) :
    ∃ front word back s, fragment = front ++ (word ++ back) ∧ s ∈ spellings ∧
      lower word = s.text ∧ found.operator = s.operator ∧ Quote.after none front = none ∧
      slice? fragment 0 found.start = some front ∧ sliceFrom? fragment found.stop = some back := by
  obtain ⟨front, word, back, s, hfragment, hmem, hword, hafter, rfl⟩ := exists_of_findFrom h
  refine ⟨front, word, back, s, hfragment, hmem, hword, rfl, hafter, ?_, ?_⟩
  · have hslice := slice?_append [] front (word ++ back)
    rw [byteLength_nil, List.nil_append, ← hfragment] at hslice
    exact hslice
  · have hdrop := drop?_append (front ++ word) back
    rw [byteLength_append, List.append_assoc, ← hfragment] at hdrop
    rw [sliceFrom?, Nat.zero_add]
    exact hdrop

end Operator
end RecordFilter
