/-
Regular clauses, which are the only ones that reading makes.  Their fields are names, and the field
on the left is not the word LIKE; LIKE compares a field with a pattern, and no other operator does;
and an operand that was written is neither a list nor a map.

Most of this is `wellFormed_of_read`.  That LIKE is no name on the left is a matter of the scan: the
word would have been the operator, by `not_like_of_sides?`.
-/
import RecordFilter.Proofs.Clause.NormalForm
import RecordFilter.Proofs.Condition.Leaves

namespace RecordFilter
namespace Clause

open Text

/-- A name matches `[A-Za-z_][A-Za-z0-9_]*`. -/
def MatchesName (name : List Char) : Prop :=
  ∃ c rest, name = c :: rest ∧ (isAsciiLetter c = true ∨ c = '_') ∧
    ∀ d ∈ rest, isAsciiLetter d = true ∨ isAsciiDigit d = true ∨ d = '_'

theorem isAsciiDigit_of_isAsciiLetter {c : Char} (h : isAsciiLetter c = true) :
    isAsciiDigit c = false := by
  rw [isAsciiLetter, Bool.or_eq_true, Bool.and_eq_true, Bool.and_eq_true] at h
  simp only [decide_eq_true_eq] at h
  have habove : ¬ c ≤ '9' := by
    intro hle
    rcases h with ⟨hlow, _⟩ | ⟨hlow, _⟩
    · exact absurd (Char.le_trans hlow hle) (by decide)
    · exact absurd (Char.le_trans hlow hle) (by decide)
  rw [isAsciiDigit, decide_eq_false habove, Bool.and_false]

/-- A word character is a letter, a digit or an underscore, and a digit starts no name. -/
theorem matchesName_iff {name : List Char} : MatchesName name ↔ isIdentifier name = true := by
  constructor
  · rintro ⟨c, rest, rfl, hfirst, hrest⟩
    rw [isIdentifier, List.all_cons, Bool.and_eq_true, Bool.and_eq_true, List.all_eq_true]
    refine ⟨?_, ?_, fun d hd => ?_⟩
    · rcases hfirst with hc | rfl
      · rw [isAsciiDigit_of_isAsciiLetter hc]
        rfl
      · rfl
    · rcases hfirst with hc | rfl
      · rw [isAsciiWord, hc]
        rfl
      · rfl
    · rw [isAsciiWord]
      rcases hrest d hd with h | h | rfl
      · rw [h]
        rfl
      · rw [h, Bool.or_true]
        rfl
      · rfl
  · intro h
    have hword : ∀ d ∈ name, isAsciiLetter d = true ∨ isAsciiDigit d = true ∨ d = '_' := by
      intro d hd
      have hd := List.all_eq_true.mp (isIdentifier_word h) d hd
      rw [isAsciiWord, Bool.or_eq_true, Bool.or_eq_true, beq_iff_eq, or_assoc] at hd
      exact hd
    cases name with
    | nil => cases h
    | cons c rest =>
        rw [isIdentifier, Bool.and_eq_true, Bool.not_eq_true'] at h
        refine ⟨c, rest, rfl, ?_, fun d hd => hword d (List.mem_cons_of_mem c hd)⟩
        rcases hword c List.mem_cons_self with hc | hc | hc
        · exact Or.inl hc
        · rw [h.1] at hc
          cases hc
        · exact Or.inr hc

/-- What is true of a clause that was read. -/
def Regular : Clause → Prop
  | .compare field operator operand source =>
      MatchesName field.toList ∧
        sameLetters field.toList ['l', 'i', 'k', 'e'] = false ∧
        (operator = .like ↔ ∃ p, operand = .pattern p) ∧
        ∀ v, operand = .value v → source = .written → v.isScalar = true
  | .fields left operator right =>
      MatchesName left.toList ∧ MatchesName right.toList ∧
        sameLetters left.toList ['l', 'i', 'k', 'e'] = false ∧ operator ≠ .like
  | .bare _ => True

theorem matchesName_of_regular {clause : Clause} (h : clause.Regular) :
    ∀ field ∈ clause.fieldNames, MatchesName field.toList := by
  intro field hfield
  match clause, h with
  | .compare _ _ _ _, ⟨hname, _⟩ =>
      obtain rfl := List.mem_singleton.mp hfield
      exact hname
  | .fields _ _ _, ⟨hleft, hright, _⟩ =>
      rcases List.mem_cons.mp hfield with rfl | hfield
      · exact hleft
      · obtain rfl := List.mem_singleton.mp hfield
        exact hright

theorem isScalar_of_isLiteral {v : Value} (h : v.IsLiteral) : v.isScalar = true := by
  cases v with
  | null | bool | int | float | str => rfl
  | list | map => cases h

variable {fragment : List Char} {values left : List Value} {clause : Clause}

/-- The first field of a clause that was read is not LIKE. -/
theorem not_like_of_read (h : read fragment values = .ok (clause, left)) :
    ∀ field ∈ clause.fieldNames.head?,
      sameLetters field.toList ['l', 'i', 'k', 'e'] = false := by
  intro field hfield
  rcases read_by_sides fragment values with ⟨hfind, _⟩ | ⟨front, operator, back, _, hsides, hread⟩
  · rw [read_without_operator hfind] at h
    split at h
    · cases h
    · cases h
      cases hfield
  · obtain ⟨hname, side, _, hmakes⟩ := ofSides_eq_ok_iff.mp (hread.symm.trans h)
    have hlike := not_like_of_sides? hsides hname
    rw [← @String.toList_ofList (trim isBlank front)] at hlike
    cases hmakes with
    | placeholder hmade | literal hmade =>
        obtain ⟨operand, rfl⟩ := exists_operand_of_comparison hmade
        cases hfield
        exact hlike
    | field _ =>
        cases hfield
        exact hlike

theorem regular_of_read (h : read fragment values = .ok (clause, left)) : clause.Regular := by
  have hformed := wellFormed_of_read h
  have hlike := not_like_of_read h
  match clause, hformed with
  | .compare field operator (.value v) source, ⟨hname, hoperator, hwritten⟩ =>
      refine ⟨matchesName_iff.mpr hname, hlike field rfl, iff_of_false hoperator ?_, ?_⟩
      · rintro ⟨p, hp⟩
        cases hp
      · intro v hv hsource
        cases hv
        exact isScalar_of_isLiteral (hwritten hsource)
  | .compare field operator (.pattern p) source, ⟨hname, hoperator⟩ =>
      refine ⟨matchesName_iff.mpr hname, hlike field rfl, iff_of_true hoperator ⟨p, rfl⟩, ?_⟩
      intro v hv
      cases hv
  | .fields front operator back, ⟨hfront, hback, hoperator⟩ =>
      exact ⟨matchesName_iff.mpr hfront, matchesName_iff.mpr hback, hlike front rfl, hoperator⟩
  | .bare _, _ => trivial

end Clause

/-- The leaves of a condition's tree are regular clauses. -/
theorem Condition.regular_of_parse {c : Condition} {t : Tree} (h : c.parse = .ok (some t)) :
    ∀ clause ∈ t.leaves, clause.Regular :=
  forall_leaves_of_parse (fun _ _ _ _ => Clause.regular_of_read) h

end RecordFilter
