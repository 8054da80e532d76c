/-
What reading makes sure of about the leaves of a tree.  The fields of a clause are identifiers; LIKE
has become a pattern, and a pattern comes from nothing else; and an operand that was written is a
scalar, and finite if it is a number.
-/
import RecordFilter.Proofs.Clause.Binding
import RecordFilter.Proofs.Condition.Reading
import RecordFilter.Proofs.Grouping.Shape

namespace RecordFilter

/-- A value that a template can hold as a literal. -/
def Value.IsLiteral : Value → Prop
  | .float x => x.isFinite = true
  | .list _ | .map _ => False
  | .null | .bool _ | .int _ | .str _ => True

namespace Clause

def WellFormed : Clause → Prop
  | .compare field operator (.value v) source =>
      isIdentifier field.toList = true ∧ operator ≠ .like ∧ (source = .written → v.IsLiteral)
  | .compare field operator (.pattern _) _ =>
      isIdentifier field.toList = true ∧ operator = .like
  | .fields left operator right =>
      isIdentifier left.toList = true ∧ isIdentifier right.toList = true ∧ operator ≠ .like
  | .bare _ => True

theorem isLiteral_of_readNumber? {text : List Char} {v : Value}
    (h : Value.readNumber? text = some v) :
    v.IsLiteral := by
  rw [Value.readNumber?] at h
  split at h
  · cases h
  · split at h
    · split at h
      · cases h
        trivial
      · obtain ⟨x, _, hx⟩ := Option.bind_eq_some_iff.mp h
        rw [Value.ofFinite?] at hx
        split at hx
        · rename_i hfinite
          cases hx
          exact hfinite
        · cases hx
    · cases h

theorem isLiteral_of_literal? {text : List Char} {v : Value} (h : literal? text = some v) :
    v.IsLiteral := by
  rw [literal?] at h
  split at h
  · cases h
    trivial
  · split at h
    · rename_i w hword
      cases h
      rw [wordValue?] at hword
      split at hword
      · cases hword
        trivial
      · split at hword
        · cases hword
          trivial
        · split at hword
          · cases hword
            trivial
          · cases hword
    · exact isLiteral_of_readNumber? h

theorem rightSide?_cases {text : List Char} {side : RightSide} (h : rightSide? text = some side) :
    side = .placeholder ∨ (∃ v, side = .literal v ∧ v.IsLiteral) ∨
      ∃ name, side = .field name ∧ isIdentifier name.toList = true := by
  rw [rightSide?] at h
  split at h
  · cases h
    exact Or.inl rfl
  · split at h
    · rename_i v hv
      cases h
      exact Or.inr (Or.inl ⟨v, rfl, isLiteral_of_literal? hv⟩)
    · split at h
      · rename_i hname
        cases h
        exact Or.inr (Or.inr ⟨_, rfl, by rw [String.toList_ofList]; exact hname⟩)
      · cases h

theorem wellFormed_of_comparison {field : String} {operator : Operator} {v : Value}
    {source : Source} {clause : Clause} (hfield : isIdentifier field.toList = true)
    (hwritten : source = .written → v.IsLiteral)
    (h : comparison field operator v source = .ok clause) : clause.WellFormed := by
  cases operator with
  | like =>
      rw [comparison] at h
      split at h
      · cases h
        exact ⟨hfield, rfl⟩
      · cases h
  | eq | ne | lt | le | gt | ge =>
      cases h
      exact ⟨hfield, by decide, hwritten⟩

theorem wellFormed_of_ofSides {fragment front back : List Char} {operator : Operator}
    {values left : List Value} {clause : Clause}
    (h : ofSides fragment front operator back values = .ok (clause, left)) : clause.WellFormed := by
  obtain ⟨hidentifier, side, hside, hmakes⟩ := ofSides_eq_ok_iff.mp h
  have hfield : isIdentifier (String.ofList (Text.trim Text.isBlank front)).toList = true := by
    rw [String.toList_ofList]
    exact hidentifier
  have hcases := rightSide?_cases hside
  cases hmakes with
  | placeholder hmade => exact wellFormed_of_comparison hfield (fun h => by cases h) hmade
  | literal hmade =>
      rcases hcases with hplaceholder | ⟨v, hv, hliteral⟩ | ⟨name, hname, _⟩
      · cases hplaceholder
      · cases hv
        exact wellFormed_of_comparison hfield (fun _ => hliteral) hmade
      · cases hname
  | field hlike =>
      rcases hcases with hplaceholder | ⟨v, hv, _⟩ | ⟨name, hname, hidentifier⟩
      · cases hplaceholder
      · cases hv
      · cases hname
        exact ⟨hfield, hidentifier, hlike⟩

theorem wellFormed_of_read {fragment : List Char} {values left : List Value} {clause : Clause}
    (h : read fragment values = .ok (clause, left)) : clause.WellFormed := by
  rw [read] at h
  split at h
  · split at h
    · cases h
    · cases h
      trivial
  · split at h
    · exact wellFormed_of_ofSides h
    · cases h

end Clause

namespace Condition

open Grouping Template

theorem clausesOf_delimiter {l : Lexeme} {mark : Mark} (h : mark? l.kind = some mark)
    (marks : List Mark) : Part.clausesOf (mark :: marks) = Part.clausesOf marks := by
  cases hkind : l.kind <;> rw [hkind] at h <;> cases h <;> rfl

theorem forall_clauses_of_reads {P : Clause → Prop}
    (hP : ∀ fragment values clause left, Clause.read fragment values = .ok (clause, left) →
      P clause)
    {ls : List Lexeme} {values left : List Value} {marks : List Mark}
    (h : Reads ls values marks left) : ∀ clause ∈ Part.clausesOf marks, P clause := by
  induction h with
  | nil => exact fun clause hclause => absurd hclause List.not_mem_nil
  | delimiter hmark _ ih =>
      rw [clausesOf_delimiter hmark]
      exact ih
  | fragment hread _ ih =>
      intro clause hclause
      rcases List.mem_cons.mp hclause with rfl | hrest
      · exact hP _ _ _ _ hread
      · exact ih clause hrest

/-- What holds of every clause that a fragment is read as holds of the leaves of a condition's
tree. -/
theorem forall_leaves_of_parse {P : Clause → Prop}
    (hP : ∀ fragment values clause left, Clause.read fragment values = .ok (clause, left) →
      P clause)
    {c : Condition} {t : Tree} (h : c.parse = .ok (some t)) : ∀ clause ∈ t.leaves, P clause := by
  obtain ⟨_, _, left, parts, hreads, hcomplete, _, rfl⟩ := parse_eq_some_iff.mp h
  rw [Part.leaves_treeOf_of_complete hcomplete]
  exact forall_clauses_of_reads hP hreads

/-- The leaves of a condition's tree are well-formed clauses. -/
theorem wellFormed_of_parse {c : Condition} {t : Tree} (h : c.parse = .ok (some t)) :
    ∀ clause ∈ t.leaves, clause.WellFormed :=
  forall_leaves_of_parse (fun _ _ _ _ => Clause.wellFormed_of_read) h

theorem branches_of_parse {c : Condition} {t : Tree} (h : c.parse = .ok (some t)) :
    t.Branches 1 := by
  obtain ⟨_, _, _, parts, _, hcomplete, _, rfl⟩ := parse_eq_some_iff.mp h
  exact Part.branches_treeOf_of_complete hcomplete

end Condition
end RecordFilter
