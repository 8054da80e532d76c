/-
Operands without a text.  What separates tokens is layout, which is ASCII, and what a fragment is
trimmed of are blanks.  So a run of blanks between delimiters is a fragment as soon as one of them
is not layout, and it is read as a clause without a text.  That clause is an operand like any other:
a joiner or a parenthesis of the expression stands beside nothing.  There is one such clause for
each fragment of blanks, and the expression has an operand without a text exactly if there is one.
-/
import RecordFilter.Proofs.Backend.Refusal
import RecordFilter.Proofs.Clause.Grammar
import RecordFilter.Proofs.Condition.Blank
import RecordFilter.Proofs.FlatFile.Clauses

namespace RecordFilter

/-! ## Fragments of blanks -/

namespace Condition

open Grouping Template Text

def blanksOf (ls : List Lexeme) : Nat :=
  total (fun text => if text.all Text.isBlank then 1 else 0) ls

/-- The number of fragments with nothing but blanks in them. -/
def blanks (c : Condition) : Nat :=
  blanksOf (lexemes c.template.toList)

theorem read_eq_textless_iff {text : List Char} {values more : List Value} {clause : Clause}
    (h : Clause.read text values = .ok (clause, more)) :
    clause = .bare "" ↔ text.all Text.isBlank = true := by
  constructor
  · rintro rfl
    obtain ⟨hkept, _⟩ := Clause.read_eq_bare_iff.mp h
    rw [← trim_eq_nil_iff, ← String.ofList_eq_empty_iff]
    exact hkept.symm
  · intro hblank
    rw [read_of_blank hblank] at h
    cases h
    rfl

/-- Fragments of blanks are read as clauses without a text, and no other fragments are. -/
theorem count_textless_of_reads {ls : List Lexeme} {values left : List Value} {marks : List Mark}
    (h : Reads ls values marks left) :
    (Part.clausesOf marks).count (.bare "") = blanksOf ls := by
  induction h with
  | nil => rfl
  | @delimiter l ls mark marks values left hmark _ ih =>
      -- A delimiter is no fragment.
      have hkind : l.kind ≠ .fragment := by
        intro hkind
        rw [hkind] at hmark
        cases hmark
      rw [clausesOf_delimiter hmark, blanksOf, total_delimiter _ hkind]
      exact ih
  | @fragment text ls clause marks values more left hclause _ ih =>
      have hclauses : Part.clausesOf (.leaf clause :: marks) = clause :: Part.clausesOf marks := rfl
      rw [hclauses, List.count_cons, ih, blanksOf, blanksOf, total_fragment, Nat.add_comm]
      congr 1
      simp only [beq_iff_eq, read_eq_textless_iff hclause]

theorem count_textless_leaves {c : Condition} {t : Tree} (h : c.parse = .ok (some t)) :
    t.leaves.count (.bare "") = c.blanks := by
  obtain ⟨_, _, left, parts, hreads, hcomplete, _, rfl⟩ := parse_eq_some_iff.mp h
  rw [Part.leaves_treeOf_of_complete hcomplete]
  exact count_textless_of_reads hreads

end Condition

/-! ## Texts of operands -/

namespace FlatFile

mutual
/-- The texts of all operands in the expression of a tree, at every level: what stands between the
joiners, and inside the parentheses of what stands there.  The first is the expression itself. -/
def operandTexts : Tree → List (List Char)
  | .leaf clause => [(clauseExpression clause).text]
  | .all children => (joined andText children).text :: operandTextsOf children
  | .any children => (joined orText children).text :: operandTextsOf children

def operandTextsOf : List Tree → List (List Char)
  | [] => []
  | t :: rest => operandTexts t ++ operandTextsOf rest
end

theorem text_clauseExpression_eq_nil_iff {clause : Clause} :
    (clauseExpression clause).text = [] ↔ clause = .bare "" := by
  cases clause with
  | compare field operator operand source =>
      cases operand <;> exact iff_of_false (List.cons_ne_nil _ _) (by simp)
  | fields left operator right => exact iff_of_false (List.cons_ne_nil _ _) (by simp)
  | bare text =>
      have hmarked : ∀ chars, markFields chars = [] ↔ chars = [] := by
        intro chars
        cases chars with
        | nil => exact iff_of_true rfl rfl
        | cons c rest =>
            rw [markFields, markFieldsFrom]
            split <;> simp
      show markFields text.toList = [] ↔ _
      rw [hmarked, Clause.bare.injEq, String.toList_eq_nil_iff]

/-- A text with parentheses is none. -/
theorem text_operandExpression_ne_nil {t : Tree} (h : ∀ text ∈ operandTexts t, text ≠ []) :
    (operandExpression t).text ≠ [] := by
  cases t with
  | leaf clause => exact h _ (List.mem_singleton_self _)
  | all children => exact List.cons_ne_nil _ _
  | any children => exact List.cons_ne_nil _ _

theorem text_joined_ne_nil {joiner : List Char} {ts : List Tree} (hne : 1 ≤ ts.length)
    (h : ∀ text ∈ operandTextsOf ts, text ≠ []) : (joined joiner ts).text ≠ [] := by
  cases ts with
  | nil => cases hne
  | cons t rest =>
      rw [joined, text_append]
      exact List.append_ne_nil_of_left_ne_nil
        (text_operandExpression_ne_nil fun text htext => h text (List.mem_append_left _ htext)) _

mutual
/-- With an operand in every node, all operands have a text exactly if all clauses have one. -/
theorem operandTexts_ne_nil_iff {t : Tree} (hbranches : t.Branches 1) :
    (∀ text ∈ operandTexts t, text ≠ []) ↔ Clause.bare "" ∉ t.leaves := by
  match t with
  | .leaf clause =>
      rw [operandTexts, List.forall_mem_singleton, Ne, text_clauseExpression_eq_nil_iff,
        Tree.leaves, List.mem_singleton, eq_comm]
  | .all children =>
      rw [operandTexts, List.forall_mem_cons, Tree.leaves,
        ← operandTextsOf_ne_nil_iff hbranches.2]
      exact and_iff_right_of_imp (text_joined_ne_nil hbranches.1)
  | .any children =>
      rw [operandTexts, List.forall_mem_cons, Tree.leaves,
        ← operandTextsOf_ne_nil_iff hbranches.2]
      exact and_iff_right_of_imp (text_joined_ne_nil hbranches.1)

theorem operandTextsOf_ne_nil_iff {ts : List Tree} (hbranches : Tree.BranchesOf 1 ts) :
    (∀ text ∈ operandTextsOf ts, text ≠ []) ↔ Clause.bare "" ∉ Tree.leavesOf ts := by
  match ts with
  | [] => exact iff_of_true (fun _ htext => absurd htext List.not_mem_nil) List.not_mem_nil
  | t :: rest =>
      rw [operandTextsOf, List.forall_mem_append, Tree.leavesOf, List.mem_append, not_or,
        operandTexts_ne_nil_iff hbranches.1, operandTextsOf_ne_nil_iff hbranches.2]
end

end FlatFile

namespace Condition

/-- The tree of a condition has a clause without a text for each fragment of blanks.  If there is
such a fragment, the expression for flat files has an operand without a text, and otherwise it has
none. -/
theorem no_empty_operand_iff {c : Condition} {t : Tree} (h : c.parse = .ok (some t)) :
    t.leaves.count (.bare "") = c.blanks ∧
      (Clause.bare "" ∉ t.leaves ↔ c.blanks = 0) ∧
      (∀ schema, Storage.filterFor { backend := .flatFile, schema } c =
        .ok (some (.expression (String.ofList (FlatFile.treeExpression t).text)
          (FlatFile.treeExpression t).values))) ∧
      ((∀ text ∈ FlatFile.operandTexts t, text ≠ []) ↔ c.blanks = 0) := by
  have hcount := count_textless_leaves h
  have hnone : Clause.bare "" ∉ t.leaves ↔ c.blanks = 0 := by
    rw [← hcount, List.count_eq_zero]
  refine ⟨hcount, hnone, fun schema => ?_, ?_⟩
  · rw [Storage.filterFor_of_tree h]
    rfl
  · rw [FlatFile.operandTexts_ne_nil_iff (branches_of_parse h), hnone]

/-- Layout around a fragment makes no fragment of its own. -/
theorem no_empty_operand_of_layout :
    ∃ t, parse ⟨"a = ? AND\t(\n b OR active )", [.int 1]⟩ = .ok (some t) ∧
      Clause.bare "" ∉ t.leaves ∧ ∀ text ∈ FlatFile.operandTexts t, text ≠ [] := by
  have hparse : parse ⟨"a = ? AND\t(\n b OR active )", [.int 1]⟩ =
      .ok (some (.all [.leaf (.compare "a" .eq (.value (.int 1)) .placeholder),
        .any [.leaf (.bare "b"), .leaf (.bare "active")]])) := rfl
  obtain ⟨_, hleaves, _, htexts⟩ := no_empty_operand_iff hparse
  exact ⟨_, hparse, hleaves.mpr rfl, htexts.mpr rfl⟩

/-- A vertical tab is a blank, but no layout. -/
theorem empty_operand_of_verticalTab :
    ¬ ∀ (c : Condition) (t : Tree), c.parse = .ok (some t) → Clause.bare "" ∉ t.leaves := by
  intro h
  have hparse : parse ⟨"a = ? AND (\x0b)", [.int 1]⟩ =
      .ok (some (.all [.leaf (.compare "a" .eq (.value (.int 1)) .placeholder),
        .leaf (.bare "")])) := rfl
  exact h _ _ hparse (by decide)

end Condition
end RecordFilter
