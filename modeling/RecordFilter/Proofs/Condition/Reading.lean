/-
Reading a condition, without offsets.  The lexemes of the template and the bound values decide
which marks the condition has, by `Reads`, and the marks decide its tree.  `parse_eq_some_iff` puts
the passes of `Condition.read` together: a condition has a tree exactly if no literal is left open,
its fragments have as many placeholders as there are values, all of them can be read, and the marks
are those of complete parts that nest within the limit.
-/
import RecordFilter.Condition.Basic
import RecordFilter.Proofs.Grouping.Run
import RecordFilter.Proofs.Template.Lexeme

namespace RecordFilter
namespace Condition

open Grouping Template

/-- The mark of a delimiter.  A fragment has to be read first. -/
def mark? : TokenKind → Option Mark
  | .openParen => some .opening
  | .closeParen => some .closing
  | .and => some .and
  | .or => some .or
  | .fragment => none

theorem mark?_eq_none_iff {kind : TokenKind} : mark? kind = none ↔ kind = .fragment := by
  cases kind <;> simp [mark?]

theorem ne_fragment_of_mark? {kind : TokenKind} {mark : Mark} (h : mark? kind = some mark) :
    kind ≠ .fragment := by
  intro hfragment
  rw [mark?_eq_none_iff.mpr hfragment] at h
  cases h

/-- Lexemes are read from left to right.  A delimiter is its mark; a fragment takes what it needs
from the front of the values.  The values at the end of the relation are the ones left over. -/
inductive Reads : List Lexeme → List Value → List Mark → List Value → Prop where
  | nil {values : List Value} : Reads [] values [] values
  | delimiter {l : Lexeme} {ls : List Lexeme} {mark : Mark} {marks : List Mark}
      {values left : List Value} (hmark : mark? l.kind = some mark)
      (hrest : Reads ls values marks left) : Reads (l :: ls) values (mark :: marks) left
  | fragment {text : List Char} {ls : List Lexeme} {clause : Clause} {marks : List Mark}
      {values more left : List Value} (hclause : Clause.read text values = .ok (clause, more))
      (hrest : Reads ls more marks left) :
      Reads ({ kind := .fragment, text } :: ls) values (.leaf clause :: marks) left

/-- The number of placeholders in the fragments among some lexemes. -/
def placeholdersOf (ls : List Lexeme) : Nat :=
  total Quote.placeholders ls

/-! ## Tokens and lexemes -/

variable {template : List Char} {toks : List Token} {ls : List Lexeme}

theorem countPlaceholders_eq (hspell : List.Forall₂ (Spells template) toks ls) :
    countPlaceholders template toks = .ok (placeholdersOf ls) := by
  induction hspell with
  | nil => rfl
  | @cons token l rest ls hspell _ ih =>
      obtain ⟨kind, text⟩ := l
      obtain ⟨hkind, htext⟩ := hspell
      rw [countPlaceholders]
      cases kind with
      | fragment => simp [hkind, htext, ih, placeholdersOf, total]
      | openParen => simp [hkind, ih, placeholdersOf, total]
      | closeParen => simp [hkind, ih, placeholdersOf, total]
      | and => simp [hkind, ih, placeholdersOf, total]
      | or => simp [hkind, ih, placeholdersOf, total]

theorem resolve_delimiter {token : Token} {mark : Mark} (hmark : mark? token.kind = some mark)
    (template : List Char) (rest : List Token) :
    ∃ item : Item, item.mark = mark ∧ ∀ values, resolve template (token :: rest) values =
      (resolve template rest values).map (item :: ·) := by
  cases hkind : token.kind with
  | openParen =>
      rw [hkind] at hmark
      cases hmark
      exact ⟨.opening token.start, rfl, fun values => by simp only [resolve, hkind]⟩
  | closeParen =>
      rw [hkind] at hmark
      cases hmark
      exact ⟨.closing token.start, rfl, fun values => by simp only [resolve, hkind]⟩
  | and =>
      rw [hkind] at hmark
      cases hmark
      exact ⟨.and, rfl, fun values => by simp only [resolve, hkind]⟩
  | or =>
      rw [hkind] at hmark
      cases hmark
      exact ⟨.or, rfl, fun values => by simp only [resolve, hkind]⟩
  | fragment =>
      rw [hkind] at hmark
      cases hmark

theorem resolve_fragment {token : Token} {text : List Char} (hkind : token.kind = .fragment)
    (htext : tokenText template token = .ok text) (rest : List Token) (values : List Value) :
    resolve template (token :: rest) values =
      match Clause.read text values with
      | .error e => .error e
      | .ok (clause, more) => (resolve template rest more).map (.leaf clause :: ·) := by
  cases hread : Clause.read text values with
  | error e => simp only [resolve, hkind, htext, hread]
  | ok pair => simp only [resolve, hkind, htext, hread]

theorem reads_of_resolve (hspell : List.Forall₂ (Spells template) toks ls) {values : List Value}
    {items : List Item} (h : resolve template toks values = .ok items) :
    ∃ left, Reads ls values (items.map Item.mark) left := by
  induction hspell generalizing values items with
  | nil =>
      cases h
      exact ⟨values, .nil⟩
  | @cons token l rest ls hspell _ ih =>
      obtain ⟨hkind, htext⟩ := hspell
      cases hmark : mark? l.kind with
      | some mark =>
          obtain ⟨item, rfl, hresolve⟩ :=
            resolve_delimiter (hkind ▸ hmark) template rest
          rw [hresolve, map_eq_ok_iff] at h
          obtain ⟨more, hmore, rfl⟩ := h
          obtain ⟨left, hleft⟩ := ih hmore
          exact ⟨left, .delimiter hmark hleft⟩
      | none =>
          obtain ⟨kind, text⟩ := l
          obtain rfl : kind = .fragment := mark?_eq_none_iff.mp hmark
          rw [resolve_fragment hkind htext] at h
          split at h
          · cases h
          · rename_i clause more hclause
            rw [map_eq_ok_iff] at h
            obtain ⟨items, hitems, rfl⟩ := h
            obtain ⟨left, hleft⟩ := ih hitems
            exact ⟨left, .fragment hclause hleft⟩

theorem resolve_of_reads (hspell : List.Forall₂ (Spells template) toks ls)
    {values left : List Value} {marks : List Mark} (h : Reads ls values marks left) :
    ∃ items, resolve template toks values = .ok items ∧ items.map Item.mark = marks := by
  induction h generalizing toks with
  | nil =>
      cases hspell
      exact ⟨[], rfl, rfl⟩
  | delimiter hmark _ ih =>
      cases hspell with
      | @cons token _ rest _ hspell hmore =>
          obtain ⟨items, hitems, hmarks⟩ := ih hmore
          obtain ⟨item, hitem, hresolve⟩ :=
            resolve_delimiter (hspell.1 ▸ hmark) template rest
          exact ⟨item :: items, by rw [hresolve, hitems]; rfl,
            by rw [List.map_cons, hitem, hmarks]⟩
  | fragment hclause _ ih =>
      cases hspell with
      | @cons token _ rest _ hspell hmore =>
          obtain ⟨items, hitems, hmarks⟩ := ih hmore
          refine ⟨.leaf _ :: items, ?_, by rw [List.map_cons, hmarks]; rfl⟩
          simp only [resolve_fragment hspell.1 hspell.2, hclause, hitems]
          rfl

theorem map_kind_of_reads {values left : List Value} {marks : List Mark}
    (h : Reads ls values marks left) : marks.map Mark.kind = ls.map Lexeme.kind := by
  induction h with
  | nil => rfl
  | @delimiter l _ mark _ _ _ hmark _ ih =>
      have hkind : mark.kind = l.kind := by
        cases hk : l.kind <;> rw [hk] at hmark <;> cases hmark <;> rfl
      rw [List.map_cons, List.map_cons, ih, hkind]
  | fragment _ _ ih => rw [List.map_cons, List.map_cons, ih]; rfl

/-! ## The tree of a condition -/

section

variable {c : Condition}

/-- Behind the count the items are what resolving gives. -/
theorem items?_of_counted (htokens : Template.tokens c.template.toList = .ok toks) (hne : toks ≠ [])
    (hcount : countPlaceholders c.template.toList toks = .ok c.values.length) :
    c.items? = (resolve c.template.toList toks c.values).map some := by
  rw [items?]
  cases toks with
  | nil => exact absurd rfl hne
  | cons token rest => simp only [htokens, hcount, ne_eq, not_true_eq_false, if_false]

/-- A condition whose tokens are resolved has the tree that its items are grouped to. -/
theorem parse_of_resolve {items : List Item}
    (htokens : Template.tokens c.template.toList = .ok toks) (hne : toks ≠ [])
    (hcount : countPlaceholders c.template.toList toks = .ok c.values.length)
    (hitems : resolve c.template.toList toks c.values = .ok items) :
    c.parse = (group c.template items).tree.map some := by
  rw [parse, read, items?_of_counted htokens hne hcount, hitems]
  rfl

theorem parse_of_unresolved {e : Error}
    (htokens : Template.tokens c.template.toList = .ok toks) (hne : toks ≠ [])
    (hcount : countPlaceholders c.template.toList toks = .ok c.values.length)
    (hitems : resolve c.template.toList toks c.values = .error e) : c.parse = .error e := by
  rw [parse, read, items?_of_counted htokens hne hcount, hitems]
  rfl

end

/-- Placeholders are counted against the values before any fragment is resolved. -/
theorem parse_of_mismatch {c : Condition} {toks : List Token} {placeholders : Nat}
    (htokens : Template.tokens c.template.toList = .ok toks) (hne : toks ≠ [])
    (hcount : countPlaceholders c.template.toList toks = .ok placeholders)
    (hmismatch : placeholders ≠ c.values.length) :
    c.parse = .error (.placeholderMismatch placeholders c.values.length) := by
  have herror : c.items? = .error (.placeholderMismatch placeholders c.values.length) := by
    rw [items?]
    cases toks with
    | nil => exact absurd rfl hne
    | cons token rest => simp only [htokens, hcount, ne_eq, hmismatch, not_false_eq_true, if_true]
  rw [parse, read, herror]
  rfl

theorem items?_of_parse {c : Condition} {t : Tree} (h : c.parse = .ok (some t)) :
    ∃ toks items, Template.tokens c.template.toList = .ok toks ∧ toks ≠ [] ∧
      countPlaceholders c.template.toList toks = .ok c.values.length ∧
      resolve c.template.toList toks c.values = .ok items := by
  cases htokens : Template.tokens c.template.toList with
  | error e => simp [parse, read, items?, htokens, Reading.fail] at h
  | ok toks =>
      cases toks with
      | nil => simp [parse, read, items?, htokens] at h
      | cons token rest =>
          cases hcount : countPlaceholders c.template.toList (token :: rest) with
          | error e => simp [parse, read, items?, htokens, hcount, Reading.fail] at h
          | ok placeholders =>
              by_cases hlength : placeholders = c.values.length
              · cases hitems : resolve c.template.toList (token :: rest) c.values with
                | error e =>
                    simp [parse, read, items?, htokens, hcount, hlength, hitems, Except.map,
                      Reading.fail] at h
                | ok items =>
                    exact ⟨token :: rest, items, rfl, by simp, by rw [hcount, hlength], hitems⟩
              · simp [parse, read, items?, htokens, hcount, hlength, Reading.fail] at h

theorem parse_eq_some_iff {c : Condition} {t : Tree} :
    c.parse = .ok (some t) ↔
      (cut c.template.toList).unclosed = none ∧
        placeholdersOf (lexemes c.template.toList) = c.values.length ∧
        ∃ left parts, Reads (lexemes c.template.toList) c.values (Part.marksOf parts) left ∧
          Part.Complete parts ∧ Part.depthOf parts ≤ nestingLimit ∧ Part.treeOf parts = t := by
  constructor
  · intro h
    obtain ⟨toks, items, htokens, hne, hcount, hitems⟩ := items?_of_parse h
    have hspell := spells_of_tokens htokens
    obtain ⟨left, hreads⟩ := reads_of_resolve hspell hitems
    rw [parse_of_resolve htokens hne hcount hitems, map_eq_ok_iff] at h
    obtain ⟨tree, htree, hsome⟩ := h
    cases hsome
    obtain ⟨parts, hparts, hcomplete, hdepth, htreeOf⟩ := tree_group_eq_ok_iff.mp htree
    rw [countPlaceholders_eq hspell] at hcount
    exact ⟨unclosed_eq_none_of_tokens htokens, Except.ok.inj hcount, left, parts,
      hparts ▸ hreads, hcomplete, hdepth, htreeOf⟩
  · rintro ⟨hclosed, hcount, left, parts, hreads, hcomplete, hdepth, htree⟩
    obtain ⟨toks, htokens, hspell⟩ := tokens_spell hclosed
    obtain ⟨items, hitems, hmarks⟩ := resolve_of_reads hspell hreads
    have hne : toks ≠ [] := by
      rintro rfl
      -- Without tokens there are no items, no parts and so no operand.
      cases hitems
      cases parts with
      | nil => exact hcomplete.1.1 rfl
      | cons part rest => cases part <;> cases hmarks
    rw [parse_of_resolve htokens hne (by rw [countPlaceholders_eq hspell, hcount]) hitems,
      (tree_group_of_marksOf hmarks.symm).mpr ⟨hcomplete, hdepth, htree⟩]
    rfl

end Condition
end RecordFilter
