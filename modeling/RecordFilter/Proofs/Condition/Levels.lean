/-
Which conditions have a tree, and which tree.  Once the fragments of a template are resolved, only
its parentheses and keywords are left to decide.  `parse_iff_levels` says that a tree is found
exactly if the parentheses are balanced and nest within the limit, every level has an operand, and
every level with several operands has a keyword.  The tree is then the one that `Part.treeOf`
defines level by level.
-/
import RecordFilter.Proofs.Condition.Reading
import RecordFilter.Proofs.Grouping.Shape

namespace RecordFilter
namespace Condition

open Grouping

theorem length_clausesOf (marks : List Mark) :
    (Part.clausesOf marks).length = (marks.map Mark.kind).count .fragment := by
  induction marks with
  | nil => rfl
  | cons mark rest ih =>
      rw [Part.clausesOf] at ih
      cases mark <;>
        simp [Part.clausesOf, List.filterMap_cons, Mark.clause?, Mark.kind, ih]

theorem map_kind_of_resolve {template : List Char} {toks : List Token} {values : List Value}
    {items : List Item} (htokens : Template.tokens template = .ok toks)
    (hitems : resolve template toks values = .ok items) :
    (items.map Item.mark).map Mark.kind = toks.map Token.kind := by
  have hspell := Template.spells_of_tokens htokens
  obtain ⟨left, hreads⟩ := reads_of_resolve hspell hitems
  rw [map_kind_of_reads hreads, Template.map_kind_of_spells hspell]

/-- A condition with tokens, a value for each placeholder and fragments that can be resolved has a
tree exactly if its levels are complete.  The tree is theirs: it has the clauses as leaves in the
order of the template, no conjunction or disjunction without a child, and on no path more of them
than one for each level that the limit allows. -/
theorem parse_iff_levels {c : Condition} {toks : List Token} {items : List Item}
    (htokens : Template.tokens c.template.toList = .ok toks) (hne : toks ≠ [])
    (hcount : countPlaceholders c.template.toList toks = .ok c.values.length)
    (hitems : resolve c.template.toList toks c.values = .ok items) :
    ((∃ t, c.parse = .ok (some t)) ↔
      Balanced (toks.map Token.kind) ∧ NestsWithin nestingLimit (toks.map Token.kind) ∧
        ∃ parts, Part.marksOf parts = items.map Item.mark ∧ Part.Complete parts) ∧
    ∀ t, c.parse = .ok (some t) →
      (∀ parts, Part.marksOf parts = items.map Item.mark → t = Part.treeOf parts) ∧
        t.leaves = Part.clausesOf (items.map Item.mark) ∧
        t.leafCount = (toks.map Token.kind).count .fragment ∧
        t.Branches 1 ∧ t.height ≤ nestingLimit + 1 := by
  have hkinds := map_kind_of_resolve htokens hitems
  have hparse : ∀ t, c.parse = .ok (some t) ↔ (group c.template items).tree = .ok t := by
    intro t
    rw [parse_of_resolve htokens hne hcount hitems, map_eq_ok_iff]
    simp
  have hof : ∀ parts, Part.marksOf parts = items.map Item.mark →
      Part.kindsOf parts = toks.map Token.kind := by
    intro parts hparts
    rw [Part.kindsOf, hparts, hkinds]
  refine ⟨⟨?_, ?_⟩, ?_⟩
  · rintro ⟨t, ht⟩
    obtain ⟨parts, hparts, hcomplete, hdepth, _⟩ := tree_group_eq_ok_iff.mp ((hparse t).mp ht)
    have hbalanced := Part.balanced_kindsOf parts
    have hwithin := Part.nestsWithin_kindsOf.mpr hdepth
    rw [hof parts hparts] at hbalanced hwithin
    exact ⟨hbalanced, hwithin, parts, hparts, hcomplete⟩
  · rintro ⟨_, hwithin, parts, hparts, hcomplete⟩
    rw [← hof parts hparts] at hwithin
    have hdepth := Part.nestsWithin_kindsOf.mp hwithin
    exact ⟨Part.treeOf parts,
      (hparse _).mpr ((tree_group_of_marksOf hparts).mpr ⟨hcomplete, hdepth, rfl⟩)⟩
  · intro t ht
    have hgroup := (hparse t).mp ht
    obtain ⟨parts, hparts, hcomplete, hdepth, rfl⟩ := tree_group_eq_ok_iff.mp hgroup
    have hleaves := Part.leaves_treeOf_of_complete hcomplete
    have hheight := Part.height_treeOf_of_complete hcomplete
    refine ⟨fun others hothers => ?_, by rw [hleaves, hparts], ?_,
      Part.branches_treeOf_of_complete hcomplete, by omega⟩
    · exact ((tree_group_of_marksOf hothers).mp hgroup).2.2.symm
    · rw [← Tree.length_leaves, hleaves, length_clausesOf, hparts, hkinds]

/-- Two levels, the inner one a disjunction. -/
theorem parse_iff_levels_of_nested :
    ∃ t, parse ⟨"(a = ? OR b < c) AND d = ?", [.bool true, .null]⟩ = .ok (some t) ∧
      t.leafCount = 3 ∧ t.Branches 1 ∧ t.height ≤ nestingLimit + 1 := by
  have htokens : Template.tokens "(a = ? OR b < c) AND d = ?".toList =
      .ok [⟨.openParen, 0, 1⟩, ⟨.fragment, 1, 6⟩, ⟨.or, 7, 9⟩, ⟨.fragment, 10, 15⟩,
        ⟨.closeParen, 15, 16⟩, ⟨.and, 17, 20⟩, ⟨.fragment, 21, 26⟩] := rfl
  have hitems : resolve "(a = ? OR b < c) AND d = ?".toList
      [⟨.openParen, 0, 1⟩, ⟨.fragment, 1, 6⟩, ⟨.or, 7, 9⟩, ⟨.fragment, 10, 15⟩,
        ⟨.closeParen, 15, 16⟩, ⟨.and, 17, 20⟩, ⟨.fragment, 21, 26⟩] [.bool true, .null] =
      .ok [.opening 0, .leaf (.compare "a" .eq (.value (.bool true)) .placeholder), .or,
        .leaf (.fields "b" .lt "c"), .closing 15, .and,
        .leaf (.compare "d" .eq (.value .null) .placeholder)] := rfl
  have hparse : parse ⟨"(a = ? OR b < c) AND d = ?", [.bool true, .null]⟩ = .ok (some (.all
      [.any [.leaf (.compare "a" .eq (.value (.bool true)) .placeholder),
          .leaf (.fields "b" .lt "c")],
        .leaf (.compare "d" .eq (.value .null) .placeholder)])) := rfl
  obtain ⟨_, htree⟩ := parse_iff_levels (c := ⟨"(a = ? OR b < c) AND d = ?", [.bool true, .null]⟩)
    htokens (by simp) rfl hitems
  obtain ⟨_, _, hcount, hbranches, hheight⟩ := htree _ hparse
  exact ⟨_, hparse, hcount, hbranches, hheight⟩

end Condition
end RecordFilter
