/-
Templates written in another way.  What a condition is read as depends on its template through the
lexemes alone.  So a template that is laid out anew, with one space between any two of its tokens, is
read as before: `joined_tokens_read`.  A template in one more pair of parentheses has two lexemes more,
and its level is the only operand of the level around it: `enclosed_parse_iff`.  The parentheses make a
difference only where they are one pair too many for the limit.
-/
import RecordFilter.Proofs.Condition.Blank
import RecordFilter.Proofs.Template.Layout

namespace RecordFilter

namespace Template

open Text

/-! ## Lexemes in another layout -/

/-- The texts with one space between any two of them. -/
def joined (texts : List (List Char)) : List Char :=
  [' '].intercalate texts

theorem LaidOut.joined {ls : List Lexeme} {template : List Char} (h : LaidOut ls template) :
    LaidOut ls (joined (ls.map Lexeme.text)) := by
  induction h with
  | nil => exact .nil rfl
  | @cons lay rest l ls _ hl _ hdelimited _ ih =>
      cases ls with
      | nil =>
          have hlast : LaidOut [l] ([] ++ (l.text ++ [])) :=
            .cons rfl hl (parted_of_head rfl) hdelimited (.nil rfl)
          rw [List.nil_append, List.append_nil] at hlast
          rw [Template.joined, List.map_singleton, List.intercalate_singleton]
          exact hlast
      | cons next ls =>
          have hblank : [' '].all isLayout = true := rfl
          have hmore : LaidOut (l :: next :: ls)
              ([] ++ (l.text ++ ([' '] ++ Template.joined ((next :: ls).map Lexeme.text)))) :=
            .cons rfl hl (parted_of_head rfl) hdelimited (ih.behind_layout hblank)
          rw [List.nil_append, ← List.append_assoc] at hmore
          rw [Template.joined, List.map_cons, List.map_cons, List.intercalate_cons_cons]
          exact hmore

def closeParen : Lexeme :=
  { kind := .closeParen, text := [')'] }

def openParen : Lexeme :=
  { kind := .openParen, text := ['('] }

theorem LaidOut.closed {ls : List Lexeme} {template : List Char} (h : LaidOut ls template) :
    LaidOut (ls ++ [closeParen]) (template ++ [')']) := by
  induction h with
  | nil hlay =>
      exact .cons hlay (.delimiter .closing) (parted_of_head rfl) (fun h => (by cases h)) (.nil rfl)
  | @cons lay rest l ls hlay hl hparted hdelimited _ ih =>
      have hbehind : Parted l.text (rest ++ [')']) := by
        cases rest with
        | nil => exact parted_of_head rfl
        | cons c rest => exact (parted_append_right (List.cons_ne_nil c rest)).mpr hparted
      rw [List.append_assoc, List.append_assoc]
      refine .cons hlay hl hbehind (fun hfragment next hnext => ?_) ih
      cases ls with
      | nil =>
          cases hnext
          exact TokenKind.noConfusion
      | cons first ls => exact hdelimited hfragment next hnext

/-- Parentheses around a text stand for themselves, whatever the text starts and ends with. -/
theorem LaidOut.enclosed {ls : List Lexeme} {template : List Char} (h : LaidOut ls template) :
    LaidOut (openParen :: (ls ++ [closeParen])) ('(' :: (template ++ [')'])) :=
  have hnothing : ([] : List Char).all isLayout = true := rfl
  .cons hnothing (.delimiter .opening) (parted_of_last rfl) (fun h => (by cases h)) h.closed

theorem mapM_tokenText {template : List Char} {toks : List Token} {ls : List Lexeme}
    (hspell : List.Forall₂ (Spells template) toks ls) :
    toks.mapM (tokenText template) = .ok (ls.map Lexeme.text) := by
  induction hspell with
  | nil => rfl
  | cons hspell _ ih =>
      rw [List.mapM_cons, hspell.2, ih]
      rfl

end Template

namespace Condition

open Grouping Template

/-! ## Reading the same lexemes -/

/-- Templates with the same lexemes have the same results. -/
theorem parse_eq_ok_congr {template other : String} (hclosed : (cut template.toList).unclosed = none)
    (hother : (cut other.toList).unclosed = none)
    (hlexemes : lexemes template.toList = lexemes other.toList) (values : List Value)
    (outcome : Option Tree) :
    parse ⟨template, values⟩ = .ok outcome ↔ parse ⟨other, values⟩ = .ok outcome := by
  cases outcome with
  | none =>
      rw [parse_eq_none_iff, parse_eq_none_iff]
      dsimp only
      rw [← lexemes_eq_nil_iff, ← lexemes_eq_nil_iff, hlexemes]
  | some t =>
      rw [parse_eq_some_iff, parse_eq_some_iff]
      dsimp only
      rw [hclosed, hother, hlexemes]

/-- The layout of a template makes no difference.  With one space between any two tokens it has the
same tokens, and the condition has the same results. -/
theorem joined_tokens_read {template : String} {toks : List Token}
    (htokens : tokens template.toList = .ok toks) :
    ∃ texts, toks.mapM (tokenText template.toList) = .ok texts ∧
      (∃ others, tokens (joined texts) = .ok others ∧
        others.map Token.kind = toks.map Token.kind ∧
          others.mapM (tokenText (joined texts)) = .ok texts) ∧
        ∀ values outcome, parse ⟨template, values⟩ = .ok outcome ↔
          parse ⟨String.ofList (joined texts), values⟩ = .ok outcome := by
  have hspell := spells_of_tokens htokens
  have hclosed := unclosed_eq_none_of_tokens htokens
  obtain ⟨hlexemes, hjoined⟩ :=
    laidOut_iff_lexemes.mp (laidOut_iff_lexemes.mpr ⟨rfl, hclosed⟩).joined
  obtain ⟨others, hothers, hagain⟩ := tokens_spell hjoined
  rw [hlexemes] at hagain
  refine ⟨(lexemes template.toList).map Lexeme.text, mapM_tokenText hspell,
    ⟨others, hothers, ?_, mapM_tokenText hagain⟩, ?_⟩
  · rw [map_kind_of_spells hagain, map_kind_of_spells hspell]
  · intro values outcome
    refine parse_eq_ok_congr hclosed ?_ ?_ values outcome
    · rw [String.toList_ofList]
      exact hjoined
    · rw [String.toList_ofList]
      exact hlexemes.symm

/-- Keywords that only parentheses and a literal keep apart from their operands, and a line break. -/
theorem joined_tokens_read_of_tight :
    ∃ t, parse ⟨"( a = ? ) and b = 'x)  or' OR c<d", [.null]⟩ = .ok (some t) := by
  have htokens : tokens "(a = ?)and\n b = 'x)  or'OR\tc<d ".toList =
      .ok [⟨.openParen, 0, 1⟩, ⟨.fragment, 1, 6⟩, ⟨.closeParen, 6, 7⟩, ⟨.and, 7, 10⟩,
        ⟨.fragment, 12, 24⟩, ⟨.or, 24, 26⟩, ⟨.fragment, 27, 30⟩] := rfl
  have hparse : parse ⟨"(a = ?)and\n b = 'x)  or'OR\tc<d ", [.null]⟩ =
      .ok (some (.all [.leaf (.compare "a" .eq (.value .null) .placeholder),
        .leaf (.compare "b" .eq (.value (.str "x)  or")) .written), .leaf (.fields "c" .lt "d")])) :=
    rfl
  obtain ⟨texts, htexts, _, hread⟩ := joined_tokens_read htokens
  cases htexts
  exact ⟨_, (hread [.null] _).mp hparse⟩

/-! ## One more pair of parentheses -/

/-- The condition in parentheses. -/
def enclosed (c : Condition) : Condition :=
  { c with template := "(" ++ c.template ++ ")" }

theorem toList_enclosed (c : Condition) :
    c.enclosed.template.toList = '(' :: (c.template.toList ++ [')']) := by
  rw [enclosed, String.toList_append, String.toList_append]
  rfl

theorem lexemes_enclosed {c : Condition} (hclosed : (cut c.template.toList).unclosed = none) :
    lexemes c.enclosed.template.toList =
        openParen :: (lexemes c.template.toList ++ [closeParen]) ∧
      (cut c.enclosed.template.toList).unclosed = none := by
  rw [toList_enclosed]
  exact laidOut_iff_lexemes.mp (laidOut_iff_lexemes.mpr ⟨rfl, hclosed⟩).enclosed

theorem placeholdersOf_enclosed (ls : List Lexeme) :
    placeholdersOf (openParen :: (ls ++ [closeParen])) = placeholdersOf ls := by
  rw [placeholdersOf, total_delimiter _ TokenKind.noConfusion, total_append,
    total_delimiter _ TokenKind.noConfusion]
  rfl

theorem Reads.closed {ls : List Lexeme} {values left : List Value} {marks : List Mark}
    (h : Reads ls values marks left) :
    Reads (ls ++ [closeParen]) values (marks ++ [.closing]) left := by
  induction h with
  | nil => exact .delimiter rfl .nil
  | delimiter hmark _ ih => exact .delimiter hmark ih
  | fragment hclause _ ih => exact .fragment hclause ih

/-- A level alone in a group is complete if it is so without the group, and has the same tree. -/
theorem complete_group {parts : List Part} (h : Part.Complete parts) :
    Part.Complete [.group parts] := by
  refine ⟨⟨List.cons_ne_nil _ _, fun hmany => ?_⟩, h, trivial⟩
  have hone : (Part.operandsOf [.group parts]).length = 1 := rfl
  omega

theorem marksOf_group (parts : List Part) :
    Part.marksOf [.group parts] = .opening :: (Part.marksOf parts ++ [.closing]) :=
  List.append_nil _

theorem depthOf_group (parts : List Part) :
    Part.depthOf [.group parts] = Part.depthOf parts + 1 :=
  Nat.max_zero _

/-- Parentheses around a condition disappear, as long as there is room for one more pair. -/
theorem enclosed_parse_iff {c : Condition} {toks : List Token} {t : Tree}
    (htokens : tokens c.template.toList = .ok toks) (h : c.parse = .ok (some t)) :
    c.enclosed.parse = .ok (some t) ↔ NestsWithin (nestingLimit - 1) (toks.map Token.kind) := by
  obtain ⟨hclosed, hcount, left, parts, hreads, hcomplete, hdepth, htree⟩ := parse_eq_some_iff.mp h
  obtain ⟨hlexemes, hclosed'⟩ := lexemes_enclosed hclosed
  have hgroup : Reads (openParen :: (lexemes c.template.toList ++ [closeParen])) c.values
      (Part.marksOf [.group parts]) left := by
    rw [marksOf_group]
    exact .delimiter rfl hreads.closed
  have hkinds : Part.kindsOf parts = toks.map Token.kind := by
    rw [Part.kindsOf, map_kind_of_reads hreads, map_kind_of_spells (spells_of_tokens htokens)]
  have hroom : Part.depthOf [.group parts] ≤ nestingLimit ↔
      NestsWithin (nestingLimit - 1) (toks.map Token.kind) := by
    rw [← hkinds, Part.nestsWithin_kindsOf, depthOf_group, nestingLimit]
    omega
  rw [← hroom]
  constructor
  · intro henclosed
    obtain ⟨_, _, _, others, hothers, _, hothersDepth, _⟩ := parse_eq_some_iff.mp henclosed
    rw [hlexemes] at hothers
    have hsame : Part.kindsOf others = Part.kindsOf [.group parts] := by
      rw [Part.kindsOf, Part.kindsOf, map_kind_of_reads hothers, map_kind_of_reads hgroup]
    rw [← Part.nestsWithin_kindsOf, ← hsame]
    exact Part.nestsWithin_kindsOf.mpr hothersDepth
  · intro hdepth'
    refine parse_eq_some_iff.mpr ⟨hclosed', ?_, left, [.group parts], ?_, complete_group hcomplete,
      hdepth', htree⟩
    · rw [hlexemes, placeholdersOf_enclosed]
      exact hcount
    · rw [hlexemes]
      exact hgroup

/-- A disjunction that starts with what looks like a keyword and ends in a group. -/
theorem enclosed_parse_of_group :
    ∃ t, parse ⟨"or_a = ? OR (b = 'AND')", [.null]⟩ = .ok (some t) ∧
      parse ⟨"(or_a = ? OR (b = 'AND'))", [.null]⟩ = .ok (some t) := by
  have htokens : tokens "or_a = ? OR (b = 'AND')".toList =
      .ok [⟨.fragment, 0, 8⟩, ⟨.or, 9, 11⟩, ⟨.openParen, 12, 13⟩, ⟨.fragment, 13, 22⟩,
        ⟨.closeParen, 22, 23⟩] := rfl
  have hparse : parse ⟨"or_a = ? OR (b = 'AND')", [.null]⟩ =
      .ok (some (.any [.leaf (.compare "or_a" .eq (.value .null) .placeholder),
        .leaf (.compare "b" .eq (.value (.str "AND")) .written)])) := rfl
  exact ⟨_, hparse, (enclosed_parse_iff htokens hparse).mpr (by decide)⟩

end Condition
end RecordFilter
