/-
What a fragment does with the values.  A clause whose operand was bound carries the value that the
fragment took from the front, and every other clause leaves the values alone; `read_binds` says so
together with the count of placeholders that decides how many values there have to be.

The two do not always agree.  A right side that starts and ends with the same quote is taken as one
literal, whatever stands between the quotes, while the count looks for the quote that closes the
first one.  In `'a' ? 'b'` there is a placeholder for the count and none for the clause; `strays`
counts such placeholders.
-/
import RecordFilter.Clause.Reader
import RecordFilter.Proofs.Clause.Split
import RecordFilter.Proofs.Template.Placeholders

namespace RecordFilter
namespace Clause

open Text

/-- The operand of a clause was bound to a placeholder. -/
def isBound : Clause → Bool
  | .compare _ _ _ .placeholder => true
  | _ => false

/-- The operand of a clause is the value, or for LIKE the pattern that the value stands for. -/
def Carries : Clause → Value → Prop
  | .compare field .like operand _, v => ∃ p, likePattern field v = .ok p ∧ operand = .pattern p
  | .compare _ _ operand _, v => operand = .value v
  | _, _ => False

/-- The bound clauses among some clauses carry the values, one each and in order. -/
def Binds (clauses : List Clause) (values : List Value) : Prop :=
  List.Forall₂ Carries (clauses.filter isBound) values

def rightText? (fragment : List Char) : Option (List Char) :=
  let fragment := trim isBlank fragment
  (Operator.find? fragment).bind fun found =>
    (sliceFrom? fragment found.stop).map (trim isBlank)

/-- The placeholders between the literals of a right side that is taken as one literal. -/
def strays (fragment : List Char) : Nat :=
  match rightText? fragment with
  | some right => if (quoted? right).isSome then Quote.placeholders right else 0
  | none => 0

/-! ## The parts of a fragment -/

theorem read_cases {fragment : List Char} {values left : List Value} {clause : Clause}
    (h : read fragment values = .ok (clause, left)) :
    (rightText? fragment = none ∧ Quote.placeholders (trim isBlank fragment) = 0 ∧
        isBound clause = false ∧ left = values) ∨
      ∃ front word back s, trim isBlank fragment = front ++ (word ++ back) ∧
        s ∈ Operator.spellings ∧ lower word = s.text ∧
        rightText? fragment = some (trim isBlank back) ∧
        ofSides (trim isBlank fragment) front s.operator back values = .ok (clause, left) := by
  cases hfind : Operator.find? (trim isBlank fragment) with
  | none =>
      refine Or.inl ⟨by simp [rightText?, hfind], ?_⟩
      simp only [read, hfind] at h
      split at h
      · cases h
      · rename_i hnone
        cases h
        exact ⟨Nat.eq_zero_of_not_pos hnone, rfl, rfl⟩
  | some found =>
      obtain ⟨front, word, back, s, hfragment, hmem, hword, hoperator, _, hfront, hback⟩ :=
        Operator.exists_split hfind
      refine Or.inr ⟨front, word, back, s, hfragment, hmem, hword, ?_, ?_⟩
      · simp [rightText?, hfind, hback]
      · simp only [read, hfind, hfront, hback, hoperator] at h
        exact h

theorem isIdentifier_plain {text : List Char} (h : isIdentifier text = true) :
    text.all Quote.plain = true := by
  cases text with
  | nil => rfl
  | cons c rest =>
      rw [isIdentifier, Bool.and_eq_true] at h
      exact Quote.all_plain_of_class (by decide) (by decide) (by decide) h.2

theorem wordValue?_plain {text : List Char} {v : Value} (h : wordValue? text = some v) :
    text.all Quote.plain = true := by
  rw [wordValue?] at h
  -- In each case the lower case of the text is one of the three words.
  have hsame : ∀ word : List Char, sameLetters text word = true →
      (lower word).all Quote.plain = true → text.all Quote.plain = true := by
    intro word hword hplain
    rw [sameLetters, beq_iff_eq] at hword
    exact Quote.all_plain_of_lower (hword ▸ hplain)
  split at h
  · rename_i hnull
    exact hsame _ hnull (by decide)
  · split at h
    · rename_i htrue
      exact hsame _ htrue (by decide)
    · split at h
      · rename_i hfalse
        exact hsame _ hfalse (by decide)
      · cases h

theorem readNumber?_plain {text : List Char} {v : Value} (h : Value.readNumber? text = some v) :
    text.all Quote.plain = true := by
  refine Quote.all_plain_of_trim ?_
  rw [Value.readNumber?] at h
  split at h
  · cases h
  · rename_i c rest htrim
    split at h
    · rename_i hnumeric
      rw [Bool.and_eq_true] at hnumeric
      exact Quote.all_plain_of_class (by decide) (by decide) (by decide) hnumeric.2
    · cases h

/-- A right side that can be read has one placeholder if it is one, and otherwise only those that
it loses as a literal. -/
theorem placeholders_of_rightSide? {right : List Char} {side : RightSide}
    (h : rightSide? right = some side) :
    Quote.placeholders right = (if side = .placeholder then 1 else 0) +
      if (quoted? right).isSome then Quote.placeholders right else 0 := by
  have hplain : right.all Quote.plain = true → Quote.placeholders right = 0 :=
    fun hall => Quote.placeholdersFrom_of_plain hall none
  rw [rightSide?] at h
  split at h
  · rename_i hmark
    subst hmark
    cases h
    rfl
  · split at h
    · rename_i v hliteral
      cases h
      rw [literal?] at hliteral
      split at hliteral
      · rename_i content hquoted
        simp [hquoted]
      · rename_i hquoted
        split at hliteral
        · rename_i w hword
          simp [hquoted, hplain (wordValue?_plain hword)]
        · simp [hquoted, hplain (readNumber?_plain hliteral)]
    · split at h
      · rename_i hidentifier
        cases h
        simp [hplain (isIdentifier_plain hidentifier)]
      · cases h

/-- Only the right side of a comparison has placeholders. -/
theorem placeholders_of_split {front word back : List Char} {s : Operator.Spelling}
    (hmem : s ∈ Operator.spellings) (hword : lower word = s.text)
    (hidentifier : isIdentifier (trim isBlank front) = true) :
    Quote.placeholders (front ++ (word ++ back)) = Quote.placeholders (trim isBlank back) := by
  have hfront : front.all Quote.plain = true :=
    Quote.all_plain_of_trim (isIdentifier_plain hidentifier)
  have hspelling : ∀ s ∈ Operator.spellings, s.text.all Quote.plain = true := by decide
  have hplain : word.all Quote.plain = true :=
    Quote.all_plain_of_lower (hword ▸ hspelling s hmem)
  rw [Quote.placeholders_append_of_plain hfront, Quote.placeholders_append_of_plain hplain,
    Quote.placeholders_trim]

/-! ## Binding -/

/-- A comparison carries its value, and remembers where the value comes from. -/
theorem comparison_eq_ok {field : String} {operator : Operator} {v : Value} {source : Source}
    {clause : Clause} (h : comparison field operator v source = .ok clause) :
    Carries clause v ∧ isBound clause = (source == .placeholder) := by
  cases operator with
  | like =>
      rw [comparison] at h
      split at h
      · rename_i p hp
        cases h
        exact ⟨⟨p, hp, rfl⟩, by cases source <;> rfl⟩
      · cases h
  | eq | ne | lt | le | gt | ge =>
      cases h
      exact ⟨rfl, by cases source <;> rfl⟩

/-- What a right side makes of the values: a clause, and the values that it leaves. -/
inductive Makes (field : String) (operator : Operator) :
    RightSide → List Value → Clause → List Value → Prop
  | placeholder {v : Value} {left : List Value} {clause : Clause}
      (hmade : comparison field operator v .placeholder = .ok clause) :
      Makes field operator .placeholder (v :: left) clause left
  | literal {v : Value} {values : List Value} {clause : Clause}
      (hmade : comparison field operator v .written = .ok clause) :
      Makes field operator (.literal v) values clause values
  | field {name : String} {values : List Value} (hlike : operator ≠ .like) :
      Makes field operator (.field name) values (.fields field operator name) values

/-- A clause is made of an identifier and a right side. -/
theorem ofSides_eq_ok_iff {fragment front back : List Char} {operator : Operator}
    {values left : List Value} {clause : Clause} :
    ofSides fragment front operator back values = .ok (clause, left) ↔
      isIdentifier (trim isBlank front) = true ∧
        ∃ side, rightSide? (trim isBlank back) = some side ∧
          Makes (String.ofList (trim isBlank front)) operator side values clause left := by
  constructor
  · intro h
    rw [ofSides] at h
    dsimp only at h
    split at h
    · cases h
    · rename_i hidentifier
      refine ⟨by simpa using hidentifier, ?_⟩
      split at h
      · cases h
      · cases h
      · rename_i hside
        obtain ⟨made, hmade, heq⟩ := map_eq_ok_iff.mp h
        cases heq
        exact ⟨_, hside, .placeholder hmade⟩
      · rename_i hside
        obtain ⟨made, hmade, heq⟩ := map_eq_ok_iff.mp h
        cases heq
        exact ⟨_, hside, .literal hmade⟩
      · rename_i hside
        split at h
        · cases h
        · rename_i hlike
          cases h
          exact ⟨_, hside, .field hlike⟩
  · rintro ⟨hidentifier, side, hside, hmakes⟩
    rw [ofSides, hidentifier, hside]
    cases hmakes with
    | placeholder hmade => simp [hmade, Except.map]
    | literal hmade => simp [hmade, Except.map]
    | field hlike => simp [hlike]

/-- If the right side is a placeholder the clause carries the first value, and otherwise the values
stay. -/
theorem ofSides_eq_ok {fragment front back : List Char} {operator : Operator}
    {values left : List Value} {clause : Clause}
    (h : ofSides fragment front operator back values = .ok (clause, left)) :
    isIdentifier (trim isBlank front) = true ∧
      ∃ side, rightSide? (trim isBlank back) = some side ∧
        ((side = .placeholder ∧ isBound clause = true ∧ ∃ v, values = v :: left ∧ Carries clause v) ∨
          (side ≠ .placeholder ∧ isBound clause = false ∧ left = values)) := by
  obtain ⟨hidentifier, side, hside, hmakes⟩ := ofSides_eq_ok_iff.mp h
  refine ⟨hidentifier, side, hside, ?_⟩
  cases hmakes with
  | placeholder hmade =>
      obtain ⟨hcarries, hbound⟩ := comparison_eq_ok hmade
      exact Or.inl ⟨rfl, hbound, _, rfl, hcarries⟩
  | literal hmade => exact Or.inr ⟨by simp, (comparison_eq_ok hmade).2, rfl⟩
  | field hlike => exact Or.inr ⟨by simp, rfl, rfl⟩

/-- A fragment that is read takes from the front of the values what its clause carries.  It has as
many placeholders as values that it takes, and the strays besides. -/
theorem read_binds {fragment : List Char} {values left : List Value} {clause : Clause}
    (h : read fragment values = .ok (clause, left)) :
    ∃ used, values = used ++ left ∧ Binds [clause] used ∧
      Quote.placeholders fragment = used.length + strays fragment := by
  rw [← Quote.placeholders_trim]
  rcases read_cases h with ⟨hright, hcount, hbound, rfl⟩ | ⟨front, word, back, s, hfragment, hmem,
    hword, hright, hsides⟩
  · exact ⟨[], rfl, by simp [Binds, hbound], by simp [strays, hright, hcount]⟩
  · obtain ⟨hidentifier, side, hside, hcase⟩ := ofSides_eq_ok hsides
    have hcount : Quote.placeholders (trim isBlank fragment) =
        (if side = .placeholder then 1 else 0) + strays fragment := by
      rw [hfragment, placeholders_of_split hmem hword hidentifier,
        placeholders_of_rightSide? hside, strays, hright]
    rw [hcount]
    rcases hcase with ⟨rfl, hbound, v, rfl, hcarries⟩ | ⟨hne, hbound, rfl⟩
    · exact ⟨[v], rfl, by simp [Binds, hbound, hcarries], by simp⟩
    · exact ⟨[], rfl, by simp [Binds, hbound], by simp [hne]⟩

end Clause
end RecordFilter
