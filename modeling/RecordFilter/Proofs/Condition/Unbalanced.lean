/-
Conditions whose parentheses are not balanced.  They have no tree and no other result, whatever their
fragments and values are.  There are other errors that they can be refused with, since the literals,
the placeholders and the fragments are looked at first, and a level can be empty or too deep in front
of the place where the balance is lost.

If the parentheses are the reason, the offset is the one of the parenthesis without a partner:
`unbalanced_located`.  The items keep the offsets of their tokens, by `stands_of_resolve`, and from there
it is a matter of grouping.
-/
import RecordFilter.Proofs.Condition.Connectives
import RecordFilter.Proofs.Condition.Counting
import RecordFilter.Proofs.Grouping.Unpaired

namespace RecordFilter
namespace Condition

open Grouping Template

/-- The items of a template are its tokens, in the same places. -/
theorem stands_of_resolve {template : List Char} {toks : List Token} {values : List Value}
    {items : List Item} (h : resolve template toks values = .ok items) :
    List.Forall₂ Stands toks items := by
  induction toks generalizing values items with
  | nil =>
      cases h
      exact .nil
  | cons token rest ih =>
      cases hkind : token.kind with
      | fragment =>
          simp only [resolve, hkind] at h
          split at h
          · cases h
          · split at h
            · cases h
            · obtain ⟨more, hmore, rfl⟩ := map_eq_ok_iff.mp h
              exact .cons hkind (ih hmore)
      | openParen =>
          simp only [resolve, hkind] at h
          obtain ⟨more, hmore, rfl⟩ := map_eq_ok_iff.mp h
          exact .cons ⟨hkind, rfl⟩ (ih hmore)
      | closeParen =>
          simp only [resolve, hkind] at h
          obtain ⟨more, hmore, rfl⟩ := map_eq_ok_iff.mp h
          exact .cons ⟨hkind, rfl⟩ (ih hmore)
      | and =>
          simp only [resolve, hkind] at h
          obtain ⟨more, hmore, rfl⟩ := map_eq_ok_iff.mp h
          exact .cons hkind (ih hmore)
      | or =>
          simp only [resolve, hkind] at h
          obtain ⟨more, hmore, rfl⟩ := map_eq_ok_iff.mp h
          exact .cons hkind (ih hmore)

variable {c : Condition} {toks : List Token}

/-- The parentheses of a condition that has a result are balanced. -/
theorem balanced_of_parse {outcome : Option Tree} (htokens : tokens c.template.toList = .ok toks)
    (h : c.parse = .ok outcome) : Balanced (toks.map Token.kind) := by
  cases outcome with
  | none =>
      have hnil := tokens_eq_ok_nil_iff.mpr (parse_eq_none_iff.mp h)
      rw [htokens, Except.ok.injEq] at hnil
      rw [hnil]
      exact balanced_nil
  | some t =>
      obtain ⟨toks', items, parts, htokens', hitems, hparts, _⟩ := exists_levels_of_parse h
      obtain rfl : toks = toks' := Except.ok.inj (htokens.symm.trans htokens')
      rw [← kindsOf_of_resolve htokens hitems hparts]
      exact Part.balanced_kindsOf parts

/-- A parenthesis without a partner is reported by grouping: the checks in front of it have been
passed. -/
theorem exists_items_of_unbalanced {position : Nat}
    (htokens : tokens c.template.toList = .ok toks)
    (h : c.parse = .error (.unbalancedParens position)) :
    ∃ items, resolve c.template.toList toks c.values = .ok items ∧
      (group c.template items).tree = .error (.unbalancedParens position) := by
  have hne : toks ≠ [] := by
    rintro rfl
    rw [parse_eq_none_iff.mpr (tokens_eq_ok_nil_iff.mp htokens)] at h
    cases h
  have hcount := countPlaceholders_of_tokens htokens
  by_cases hsame : Quote.placeholders c.template.toList = c.values.length
  · rw [hsame] at hcount
    cases hitems : resolve c.template.toList toks c.values with
    | error e =>
        rw [parse_of_unresolved htokens hne hcount hitems] at h
        cases h
        obtain ⟨text, left, hread⟩ := error_of_resolve (spells_of_tokens htokens) hitems
        rcases Clause.error_of_read hread with he | ⟨_, _, _, _, _, he⟩
        · cases he
        · cases he
    | ok items =>
        rw [parse_of_resolve htokens hne hcount hitems, map_eq_error_iff] at h
        exact ⟨items, rfl, h⟩
  · rw [parse_of_mismatch htokens hne hcount hsame] at h
    cases h

/-- Parentheses that are not balanced are always noticed, and if they are what the condition is refused
for, the parenthesis that has no partner is named by its offset. -/
theorem unbalanced_located (htokens : tokens c.template.toList = .ok toks) :
    (¬ Balanced (toks.map Token.kind) → ∀ outcome, c.parse ≠ .ok outcome) ∧
      ∀ position, c.parse = .error (.unbalancedParens position) → Unpaired toks position := by
  refine ⟨fun hunbalanced outcome h => hunbalanced (balanced_of_parse htokens h), ?_⟩
  intro position h
  obtain ⟨items, hitems, hgroup⟩ := exists_items_of_unbalanced htokens h
  have hnone : StillOpen [] (([] : List Frame).map Frame.position) := .none balanced_nil
  exact unpaired_of_run (stands_of_resolve hitems) hnone hgroup

/-- Two groups are open at the end, and the inner one is named. -/
theorem unbalanced_located_of_open_groups :
    (∀ outcome, parse ⟨"(a = ?) OR (b < c AND (d", [.null]⟩ ≠ .ok outcome) ∧
      ∃ toks, tokens "(a = ?) OR (b < c AND (d".toList = .ok toks ∧ Unpaired toks 22 := by
  have htokens : tokens "(a = ?) OR (b < c AND (d".toList =
      .ok [⟨.openParen, 0, 1⟩, ⟨.fragment, 1, 6⟩, ⟨.closeParen, 6, 7⟩, ⟨.or, 8, 10⟩,
        ⟨.openParen, 11, 12⟩, ⟨.fragment, 12, 17⟩, ⟨.and, 18, 21⟩, ⟨.openParen, 22, 23⟩,
        ⟨.fragment, 23, 24⟩] := rfl
  obtain ⟨hnever, hposition⟩ :=
    unbalanced_located (c := ⟨"(a = ?) OR (b < c AND (d", [.null]⟩) htokens
  exact ⟨hnever (by decide), _, htokens, hposition 22 rfl⟩

end Condition
end RecordFilter
