/-
Reading undoes writing.  The template that a tree is written as is cut into the lexemes of the marks
of its level, and each clause reads back from its own text with the value that it carries.  Since a
level with a keyword between its operands stands for one tree only, `parse_written` gets the same
tree back, with no level flattened and no operand moved.
-/
import RecordFilter.Proofs.Condition.Reading
import RecordFilter.Proofs.Grouping.Written

namespace RecordFilter
namespace Condition

open Clause Grouping Template

/-- The lexemes of marks are read as those marks, with the values that the clauses carry. -/
theorem reads_of_binds {marks : List Mark} {values : List Value}
    (hprintable : ∀ clause ∈ Part.clausesOf marks, clause.Printable)
    (hbinds : Binds (Part.clausesOf marks) values) :
    Reads (marks.map Mark.lexeme) values marks [] := by
  induction marks generalizing values with
  | nil =>
      cases hbinds
      exact .nil
  | cons mark rest ih =>
      cases mark with
      | opening => exact .delimiter rfl (ih hprintable hbinds)
      | closing => exact .delimiter rfl (ih hprintable hbinds)
      | and => exact .delimiter rfl (ih hprintable hbinds)
      | or => exact .delimiter rfl (ih hprintable hbinds)
      | leaf clause =>
          have hclause : clause.Printable := hprintable clause List.mem_cons_self
          have hrest : ∀ clause ∈ Part.clausesOf rest, clause.Printable :=
            fun clause hmem => hprintable clause (List.mem_cons_of_mem _ hmem)
          have hclauses : Part.clausesOf (.leaf clause :: rest) = clause :: Part.clausesOf rest := rfl
          rw [hclauses, Binds, List.filter_cons] at hbinds
          by_cases hbound : isBound clause = true
          · rw [if_pos hbound] at hbinds
            cases hbinds with
            | cons hcarries hmore =>
                exact .fragment (read_text_of_carries hclause hbound hcarries _) (ih hrest hmore)
          · rw [if_neg hbound] at hbinds
            exact .fragment (read_text_of_fields hclause (Bool.eq_false_iff.mpr hbound) _)
              (ih hrest hbinds)

theorem placeholdersOf_lexemes {marks : List Mark}
    (hprintable : ∀ clause ∈ Part.clausesOf marks, clause.Printable) :
    placeholdersOf (marks.map Mark.lexeme) = ((Part.clausesOf marks).filter isBound).length := by
  induction marks with
  | nil => rfl
  | cons mark rest ih =>
      cases mark with
      | opening => exact (total_delimiter _ (by decide) _).trans (ih hprintable)
      | closing => exact (total_delimiter _ (by decide) _).trans (ih hprintable)
      | and => exact (total_delimiter _ (by decide) _).trans (ih hprintable)
      | or => exact (total_delimiter _ (by decide) _).trans (ih hprintable)
      | leaf clause =>
          have hclause : clause.Printable := hprintable clause List.mem_cons_self
          have hrest := ih fun clause hmem => hprintable clause (List.mem_cons_of_mem _ hmem)
          have hcount : placeholdersOf ((Mark.leaf clause :: rest).map Mark.lexeme) =
              Quote.placeholders clause.text.toList + placeholdersOf (rest.map Mark.lexeme) :=
            total_fragment Quote.placeholders _ _
          have hclauses : Part.clausesOf (.leaf clause :: rest) = clause :: Part.clausesOf rest := rfl
          rw [hcount, hrest, hclauses, List.filter_cons, placeholders_text hclause]
          by_cases hbound : isBound clause = true
          · rw [if_pos hbound, if_pos hbound, List.length_cons]
            omega
          · rw [if_neg hbound, if_neg hbound]
            omega

/-- A clause is read back from its text and the values that it carries. -/
theorem parse_text {clause : Clause} {values : List Value} (hprintable : clause.Printable)
    (hbinds : Binds [clause] values) :
    parse ⟨clause.text, values⟩ = .ok (some (.leaf clause)) := by
  have hclauses : ∀ other ∈ Part.clausesOf [Mark.leaf clause], other.Printable := by
    intro other hmem
    rwa [List.mem_singleton.mp hmem]
  obtain ⟨hlexemes, hunclosed⟩ := @cut_textOf [.leaf clause] ⟨rfl, trivial⟩ hclauses none
  have htext : textOf [.leaf clause] = clause.text.toList := List.append_nil _
  rw [htext] at hlexemes hunclosed
  have hcut : lexemes clause.text.toList = [Mark.leaf clause].map Mark.lexeme := hlexemes
  rw [parse_eq_some_iff]
  simp only [hcut]
  refine ⟨hunclosed, ?_, [], Tree.level (.leaf clause), reads_of_binds hclauses hbinds,
    Tree.complete_level trivial, Nat.zero_le _, Tree.treeOf_level trivial⟩
  rw [placeholdersOf_lexemes hclauses]
  exact List.Forall₂.length_eq hbinds

/-- A tree is read back from the template that it is written as and the values that its clauses
carry, if every composite node has several children and the nodes below the root nest within the
limit. -/
theorem parse_written {t : Tree} {values : List Value} (hbranches : t.Branches 2)
    (hheight : t.height ≤ nestingLimit + 1) (hprintable : ∀ clause ∈ t.leaves, clause.Printable)
    (hbinds : Binds t.leaves values) :
    parse ⟨String.ofList t.written, values⟩ = .ok (some t) := by
  have hcomplete := Tree.complete_level hbranches
  have htree := Tree.treeOf_level hbranches
  have hdepth := Tree.depthOf_level t
  have hclauses : Part.clausesOf (Part.marksOf t.level) = t.leaves := by
    rw [← Part.leaves_treeOf_of_complete hcomplete, htree]
  rw [← hclauses] at hprintable hbinds
  obtain ⟨hlexemes, hunclosed⟩ := cut_textOf (Tree.spaced_level t) hprintable none
  rw [Tree.textOf_level] at hlexemes hunclosed
  have hcut : lexemes t.written = (Part.marksOf t.level).map Mark.lexeme := hlexemes
  rw [parse_eq_some_iff]
  simp only [String.toList_ofList, hcut]
  refine ⟨hunclosed, ?_, [], t.level, reads_of_binds hprintable hbinds, hcomplete, by omega, htree⟩
  rw [placeholdersOf_lexemes hprintable]
  exact List.Forall₂.length_eq hbinds

/-- A disjunction inside a conjunction, with a pattern and a comparison of two fields. -/
theorem parse_written_of_nested :
    parse ⟨"a = ? AND (b like ? OR c < d)", [.bool true, .str "x%"]⟩ =
      .ok (some (.all [.leaf (.compare "a" .eq (.value (.bool true)) .placeholder),
        .any [.leaf (.compare "b" .like (.pattern (Pattern.ofLike ['x', '%'])) .placeholder),
          .leaf (.fields "c" .lt "d")]])) := by
  have hbinds : Binds [.compare "a" .eq (.value (.bool true)) .placeholder,
      .compare "b" .like (.pattern (Pattern.ofLike ['x', '%'])) .placeholder,
      .fields "c" .lt "d"] [.bool true, .str "x%"] :=
    .cons rfl (.cons ⟨_, rfl, rfl⟩ .nil)
  have hname : ∀ name ∈ ["a", "b", "c", "d"], IsName name := by
    unfold IsName
    decide
  have hprintable : ∀ clause ∈ [.compare "a" .eq (.value (.bool true)) .placeholder,
      .compare "b" .like (.pattern (Pattern.ofLike ['x', '%'])) .placeholder,
      .fields "c" .lt "d"], Printable clause := by
    intro clause hmem
    simp only [List.mem_cons, List.not_mem_nil, or_false] at hmem
    rcases hmem with rfl | rfl | rfl
    · exact hname "a" (by simp)
    · exact hname "b" (by simp)
    · exact ⟨hname "c" (by simp), hname "d" (by simp), by decide, by decide⟩
  exact parse_written (t := .all [.leaf (.compare "a" .eq (.value (.bool true)) .placeholder),
      .any [.leaf (.compare "b" .like (.pattern (Pattern.ofLike ['x', '%'])) .placeholder),
        .leaf (.fields "c" .lt "d")]])
    ⟨by decide, trivial, ⟨by decide, trivial, trivial, trivial⟩, trivial⟩ (by decide) hprintable
    hbinds

end Condition
end RecordFilter
