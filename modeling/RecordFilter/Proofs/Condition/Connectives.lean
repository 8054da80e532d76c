/-
How connectives may stand in a condition.  In the grammar of conditions operands and keywords take
turns at every level.  A condition that keeps to it is read, by `parse_of_alternates`, but so are
others: a level with several operands needs one keyword somewhere, and not one between any two of
its operands.  `alternates_iff_linked` says which of the conditions that are read keep to the
grammar.  They are those whose tokens all fit the ones next to them.
-/
import RecordFilter.Proofs.Condition.Levels
import RecordFilter.Proofs.Grouping.Alternation

namespace RecordFilter
namespace Condition

open Grouping Template

variable {c : Condition}

/-- The levels of a condition that has a tree. -/
theorem exists_levels_of_parse {t : Tree} (h : c.parse = .ok (some t)) :
    ∃ toks items parts, tokens c.template.toList = .ok toks ∧
      resolve c.template.toList toks c.values = .ok items ∧
      Part.marksOf parts = items.map Item.mark ∧ Part.Complete parts ∧ Part.treeOf parts = t := by
  obtain ⟨toks, items, htokens, hne, hcount, hitems⟩ := items?_of_parse h
  rw [parse_of_resolve htokens hne hcount hitems, map_eq_ok_iff] at h
  obtain ⟨tree, htree, hsome⟩ := h
  cases hsome
  obtain ⟨parts, hparts, hcomplete, _, htreeOf⟩ := tree_group_eq_ok_iff.mp htree
  exact ⟨toks, items, parts, htokens, hitems, hparts, hcomplete, htreeOf⟩

section Levels

variable {toks : List Token} {items : List Item} {parts : List Part}
  (htokens : tokens c.template.toList = .ok toks)
  (hitems : resolve c.template.toList toks c.values = .ok items)
  (hparts : Part.marksOf parts = items.map Item.mark)

include htokens hitems hparts

theorem kindsOf_of_resolve : Part.kindsOf parts = toks.map Token.kind := by
  rw [Part.kindsOf, hparts, map_kind_of_resolve htokens hitems]

/-- A condition whose levels alternate is read, as the tree of its levels. -/
theorem parse_of_alternates
    (hcount : countPlaceholders c.template.toList toks = .ok c.values.length)
    (halternates : Part.EveryLevel Part.Alternates parts)
    (hdepth : Part.depthOf parts ≤ nestingLimit) : c.parse = .ok (some (Part.treeOf parts)) := by
  have hcomplete : Part.Complete parts :=
    halternates.complete fun _ => Part.proper_of_alternates
  have hne : toks ≠ [] := by
    rintro rfl
    -- Without tokens there are no parts, and so there is no operand.
    cases hitems
    cases parts with
    | nil => exact hcomplete.1.1 rfl
    | cons part rest => cases part <;> cases hparts
  rw [parse_of_resolve htokens hne hcount hitems,
    (tree_group_of_marksOf hparts).mpr ⟨hcomplete, hdepth, rfl⟩]
  rfl

end Levels

/-- The levels of a condition that is read are complete.  Operands and keywords take turns at each
of them exactly if every token fits the ones next to it. -/
theorem alternates_iff_linked {t : Tree} (h : c.parse = .ok (some t)) :
    ∃ toks items parts, tokens c.template.toList = .ok toks ∧
      resolve c.template.toList toks c.values = .ok items ∧
      Part.marksOf parts = items.map Item.mark ∧ Part.Complete parts ∧ Part.treeOf parts = t ∧
      (Part.EveryLevel Part.Alternates parts ↔ Linked (toks.map Token.kind)) := by
  obtain ⟨toks, items, parts, htokens, hitems, hparts, hcomplete, htree⟩ :=
    exists_levels_of_parse h
  have hkinds := kindsOf_of_resolve htokens hitems hparts
  exact ⟨toks, items, parts, htokens, hitems, hparts, hcomplete, htree,
    hkinds ▸ Part.everyLevel_alternates_iff_linked⟩

/-- A disjunction in parentheses behind a keyword. -/
theorem alternates_of_group_behind_keyword :
    ∃ parts, Part.treeOf parts = .all
        [.leaf (.compare "a" .eq (.value (.bool true)) .placeholder),
          .any [.leaf (.fields "b" .lt "c"),
            .leaf (.compare "d" .eq (.value .null) .placeholder)]] ∧
      Part.EveryLevel Part.Alternates parts := by
  have hparse : parse ⟨"a = ? AND (b < c OR d = ?)", [.bool true, .null]⟩ = .ok (some (.all
      [.leaf (.compare "a" .eq (.value (.bool true)) .placeholder),
        .any [.leaf (.fields "b" .lt "c"),
          .leaf (.compare "d" .eq (.value .null) .placeholder)]])) := rfl
  have htokens : Template.tokens "a = ? AND (b < c OR d = ?)".toList =
      .ok [⟨.fragment, 0, 5⟩, ⟨.and, 6, 9⟩, ⟨.openParen, 10, 11⟩, ⟨.fragment, 11, 16⟩,
        ⟨.or, 17, 19⟩, ⟨.fragment, 20, 25⟩, ⟨.closeParen, 25, 26⟩] := rfl
  obtain ⟨toks, _, parts, htoks, _, _, _, htree, hiff⟩ := alternates_iff_linked hparse
  cases htoks.symm.trans htokens
  exact ⟨parts, htree, hiff.mpr (by decide)⟩

/-- Two operands that meet are read if there is a keyword elsewhere at their level. -/
theorem not_alternates_of_missing_keyword :
    ¬ ∀ (c : Condition) (t : Tree), c.parse = .ok (some t) →
      ∀ toks items parts, tokens c.template.toList = .ok toks →
        resolve c.template.toList toks c.values = .ok items →
        Part.marksOf parts = items.map Item.mark → Part.EveryLevel Part.Alternates parts := by
  intro hall
  have hparse : parse ⟨"(a = ?) (b = ?) AND c = ?", [.bool true, .bool false, .null]⟩ =
      .ok (some (.all [.leaf (.compare "a" .eq (.value (.bool true)) .placeholder),
        .leaf (.compare "b" .eq (.value (.bool false)) .placeholder),
        .leaf (.compare "c" .eq (.value .null) .placeholder)])) := rfl
  have htokens : Template.tokens "(a = ?) (b = ?) AND c = ?".toList =
      .ok [⟨.openParen, 0, 1⟩, ⟨.fragment, 1, 6⟩, ⟨.closeParen, 6, 7⟩, ⟨.openParen, 8, 9⟩,
        ⟨.fragment, 9, 14⟩, ⟨.closeParen, 14, 15⟩, ⟨.and, 16, 19⟩, ⟨.fragment, 20, 25⟩] := rfl
  obtain ⟨toks, items, parts, htoks, hitems, hparts, _, _⟩ := exists_levels_of_parse hparse
  have hlevels := hall _ _ hparse toks items parts htoks hitems hparts
  have hlinked := Part.everyLevel_alternates_iff_linked.mp hlevels
  rw [kindsOf_of_resolve htoks hitems hparts] at hlinked
  cases htoks.symm.trans htokens
  exact absurd hlinked (by decide)

end Condition
end RecordFilter
