/-
Which values the leaves of a tree carry.  Reading hands the values from fragment to fragment, so a
run of fragments takes an initial part of them, one for each clause that was bound.  Whether that
part is all of them is decided by another scan, which counts the placeholders of the template
beforehand: the values that are left over in the end are the strays of the fragments.
-/
import RecordFilter.Proofs.Clause.Binding
import RecordFilter.Proofs.Condition.Leaves

namespace RecordFilter
namespace Condition

open Clause Grouping Template

def straysOf (ls : List Lexeme) : Nat :=
  total Clause.strays ls

/-- The placeholders of a condition that are counted and never read, because each stands between
two literals which are taken as one. -/
def strays (c : Condition) : Nat :=
  straysOf (lexemes c.template.toList)

/-- The bound clauses of two runs are those of the first and then those of the second. -/
theorem binds_append {left right : List Clause} {used more : List Value} (hleft : Binds left used)
    (hright : Binds right more) : Binds (left ++ right) (used ++ more) := by
  rw [Binds, List.filter_append]
  exact List.rel_append hleft hright

theorem length_of_binds {clauses : List Clause} {values : List Value}
    (h : Binds clauses values) : values.length = (clauses.filter isBound).length :=
  (List.Forall₂.length_eq h).symm

/-- Lexemes take from the front of the values what their clauses carry, and their fragments have a
placeholder for each value that is taken and for each stray. -/
theorem reads_binds {ls : List Lexeme} {values left : List Value} {marks : List Mark}
    (h : Reads ls values marks left) :
    ∃ used, values = used ++ left ∧ Binds (Part.clausesOf marks) used ∧
      placeholdersOf ls = used.length + straysOf ls := by
  induction h with
  | nil => exact ⟨[], rfl, List.Forall₂.nil, rfl⟩
  | @delimiter l ls mark marks values left hmark _ ih =>
      obtain ⟨used, hvalues, hbinds, hcount⟩ := ih
      have hkind := ne_fragment_of_mark? hmark
      refine ⟨used, hvalues, clausesOf_delimiter hmark marks ▸ hbinds, ?_⟩
      rw [placeholdersOf, straysOf, total_delimiter _ hkind, total_delimiter _ hkind]
      exact hcount
  | @fragment text ls clause marks values more left hclause _ ih =>
      obtain ⟨rest, hmore, hbinds, hcount⟩ := ih
      obtain ⟨used, hvalues, hfirst, hplaceholders⟩ := read_binds hclause
      refine ⟨used ++ rest, by rw [hvalues, hmore, List.append_assoc],
        binds_append hfirst hbinds, ?_⟩
      rw [placeholdersOf, straysOf] at hcount
      rw [placeholdersOf, straysOf, total_fragment, total_fragment, List.length_append, hcount,
        hplaceholders]
      omega

/-- The bound leaves of a tree carry an initial part of the values. -/
theorem exists_binds_of_parse {c : Condition} {t : Tree} (h : c.parse = .ok (some t)) :
    ∃ used dropped, c.values = used ++ dropped ∧ Binds t.leaves used := by
  obtain ⟨_, _, left, parts, hreads, hcomplete, _, rfl⟩ := parse_eq_some_iff.mp h
  obtain ⟨used, hvalues, hbinds, _⟩ := reads_binds hreads
  rw [← Part.leaves_treeOf_of_complete hcomplete] at hbinds
  exact ⟨used, left, hvalues, hbinds⟩

/-- The bound leaves of a tree carry an initial part of the values, in order.  The values behind
it are as many as the strays, so the leaves carry all values exactly if there are none. -/
theorem binds_leaves_iff {c : Condition} {t : Tree} (h : c.parse = .ok (some t)) :
    (∃ used dropped, c.values = used ++ dropped ∧ Binds t.leaves used ∧
        dropped.length = c.strays) ∧
      (Binds t.leaves c.values ↔ c.strays = 0) := by
  obtain ⟨_, hcount, left, parts, hreads, hcomplete, _, rfl⟩ := parse_eq_some_iff.mp h
  obtain ⟨used, hvalues, hbinds, hplaceholders⟩ := reads_binds hreads
  rw [← Part.leaves_treeOf_of_complete hcomplete] at hbinds
  have hleft : left.length = c.strays := by
    have hlength : c.values.length = used.length + left.length := by
      rw [hvalues, List.length_append]
    rw [strays]
    omega
  refine ⟨⟨used, left, hvalues, hbinds, hleft⟩, ?_, ?_⟩
  · intro hall
    have hused := length_of_binds hbinds
    have hlength := length_of_binds hall
    rw [hvalues, List.length_append] at hlength
    omega
  · intro hnone
    have hnil : left = [] := List.eq_nil_of_length_eq_zero (by omega)
    rw [hvalues, hnil, List.append_nil]
    exact hbinds

/-- A value for each of the two placeholders, one of them for LIKE. -/
theorem binds_leaves_of_like :
    ∃ t, parse ⟨"a = 'it?' AND (b = ? OR c LIKE ?)", [.bool true, .str "x%"]⟩ = .ok (some t) ∧
      Binds t.leaves [.bool true, .str "x%"] := by
  have hparse : parse ⟨"a = 'it?' AND (b = ? OR c LIKE ?)", [.bool true, .str "x%"]⟩ =
      .ok (some (.all [.leaf (.compare "a" .eq (.value (.str "it?")) .written),
        .any [.leaf (.compare "b" .eq (.value (.bool true)) .placeholder),
          .leaf (.compare "c" .like (.pattern (Pattern.ofLike ['x', '%'])) .placeholder)]])) := rfl
  exact ⟨_, hparse, (binds_leaves_iff hparse).2.mpr rfl⟩

/-- Two literals that are taken as one hide a placeholder: the first value goes to the second
placeholder, and the second value goes nowhere. -/
theorem not_binds_of_two_literals :
    ¬ ∀ (c : Condition) (t : Tree), c.parse = .ok (some t) → Binds t.leaves c.values := by
  intro hall
  have hparse : parse ⟨"x = 'a' ? 'b' AND y = ?", [.bool true, .bool false]⟩ =
      .ok (some (.all [.leaf (.compare "x" .eq (.value (.str "a' ? 'b")) .written),
        .leaf (.compare "y" .eq (.value (.bool true)) .placeholder)])) := rfl
  have hbinds := length_of_binds (hall _ _ hparse)
  revert hbinds
  decide

end Condition
end RecordFilter
