/-
The check of the placeholders against the values.  Two scans see the quotes of a template.  Cutting
it into tokens looks for the end of each literal; counting placeholders walks over a text with the
open literal as its state, and is done for each fragment by itself.  `placeholdersOf_closed` says
that the counts of the fragments add up to the count of the template, because every gap of a cut
starts and ends outside of literals, and neither a delimiter nor the layout around a fragment has a
quote or a question mark in it.

Reading takes values from the front, and a fragment that takes one has a placeholder.  So with as
many values as placeholders there is a value for every fragment that asks for one, whatever stands
in front of it.
-/
import RecordFilter.Proofs.Clause.Grammar
import RecordFilter.Proofs.Condition.Binding
import RecordFilter.Proofs.Condition.Blank
import RecordFilter.Proofs.Template.Tokens

namespace RecordFilter

/-! ## Counting over a cut -/

namespace Template

open Text Condition

theorem plain_of_isLayout (c : Char) (h : isLayout c = true) : Quote.plain c = true :=
  Quote.plain_of_class (by decide) (by decide) (by decide) h

theorem Delimiter.plain {before behind : Option Char} {kind : TokenKind} {word : List Char}
    (h : Delimiter before kind word behind) : word.all Quote.plain = true := by
  have hwords : ∀ {word : List Char}, word.all isAsciiWord = true →
      word.all Quote.plain = true :=
    Quote.all_plain_of_class (by decide) (by decide) (by decide)
  cases h with
  | opening => rfl
  | closing => rfl
  | and hword _ _ => exact hwords (all_word_of_and hword)
  | or hword _ _ => exact hwords (all_word_of_or hword)

theorem placeholdersOf_gap (gap : List Char) :
    placeholdersOf (Piece.lexeme? (.gap gap)).toList = Quote.placeholders gap := by
  have htrim := Quote.placeholders_trim_of_plain plain_of_isLayout gap
  rw [Piece.lexeme?]
  split
  · rename_i hempty
    rw [List.isEmpty_iff.mp hempty] at htrim
    exact htrim
  · exact htrim

theorem placeholdersOf_append (left right : List Lexeme) :
    placeholdersOf (left ++ right) = placeholdersOf left + placeholdersOf right :=
  total_append _ left right

/-- Behind a text that leaves no literal open, the fragments of a cut have the placeholders of its
text. -/
theorem CutsTo.placeholdersOf_lexemes {left right : List Char} {cut : Cut}
    (h : CutsTo left right cut) (hleft : Quote.after none left = none)
    (hclosed : cut.unclosed = none) :
    placeholdersOf cut.lexemes = Quote.placeholders right := by
  induction h with
  | last _ _ => rw [Cut.lexemes_gap, placeholdersOf_gap]
  | opened _ _ _ _ =>
      rw [Cut.unclosed_push] at hclosed
      cases hclosed
  | @delimiter left gap word rest kind cut _ hdelimits _ ih =>
      rw [Cut.unclosed_push, Cut.unclosed_pushDelimiter] at hclosed
      -- The gap starts outside of literals, since the text in front does, and ends outside of them.
      have hgap : Quote.after none gap = none := by
        have hafter := hdelimits.unquoted
        rw [Quote.after_append, hleft] at hafter
        exact hafter
      rw [Cut.lexemes_gap_delimiter, placeholdersOf_append, placeholdersOf_gap, placeholdersOf,
        total_delimiter _ hdelimits.delimiter.kind_ne_fragment]
      show Quote.placeholders gap + placeholdersOf cut.lexemes = _
      rw [ih hdelimits.after_eq_none hclosed, Quote.placeholders_append hgap,
        Quote.placeholders_append_of_plain hdelimits.delimiter.plain]

/-- The fragments of a template without an open literal have its placeholders. -/
theorem placeholdersOf_closed {template : List Char} (h : (cut template).unclosed = none) :
    placeholdersOf (lexemes template) = Quote.placeholders template :=
  (cutsTo_cutFrom [] template rfl).placeholdersOf_lexemes rfl h

end Template

/-! ## Fragments that take a value -/

namespace Clause

open Text

/-- Reading the fragment takes a value: it compares a field with a placeholder. -/
def TakesValue (fragment : List Char) : Prop :=
  ∃ front operator back, sides? fragment = some (front, operator, back) ∧
    isIdentifier (trim isBlank front) = true ∧ trim isBlank back = ['?']

variable {fragment : List Char}

theorem ofSides_append {front back : List Char} {operator : Operator} {values : List Value}
    (h : isIdentifier (trim isBlank front) = true → trim isBlank back = ['?'] → values ≠ [])
    (extra : List Value) :
    ofSides fragment front operator back (values ++ extra) =
      (ofSides fragment front operator back values).map fun made =>
        (made.1, made.2 ++ extra) := by
  rw [ofSides, ofSides]
  dsimp only
  cases hname : isIdentifier (trim isBlank front) with
  | false => rfl
  | true =>
      simp only [Bool.not_true, Bool.false_eq_true, if_false]
      cases hside : rightSide? (trim isBlank back) with
      | none => rfl
      | some side =>
          cases side with
          | placeholder =>
              cases values with
              | nil => exact absurd rfl (h hname (rightSide?_eq_placeholder_iff.mp hside))
              | cons v rest =>
                  dsimp only [List.cons_append]
                  cases comparison (String.ofList (trim isBlank front)) operator v .placeholder with
                  | error e => rfl
                  | ok clause => rfl
          | literal v =>
              dsimp only
              cases comparison (String.ofList (trim isBlank front)) operator v .written with
              | error e => rfl
              | ok clause => rfl
          | field name =>
              dsimp only
              split
              · rfl
              · rfl

/-- Values behind those that a fragment takes are left over, and make no difference. -/
theorem read_append {values : List Value} (h : TakesValue fragment → values ≠ [])
    (extra : List Value) :
    read fragment (values ++ extra) =
      (read fragment values).map fun made => (made.1, made.2 ++ extra) := by
  rcases read_by_sides fragment values with ⟨hfind, _⟩ | ⟨front, operator, back, _, hsides, _⟩
  · rw [read_without_operator hfind, read_without_operator hfind]
    split
    · rfl
    · rfl
  · rw [read_of_sides hsides, read_of_sides hsides]
    exact ofSides_append (fun hname hmark => h ⟨front, operator, back, hsides, hname, hmark⟩) extra

/-- Without a value the fragment is malformed.  `ne_nil_of_reaches` rules this out for a condition
that has as many values as placeholders. -/
theorem read_nil_of_takesValue (h : TakesValue fragment) :
    read fragment [] = .error (.malformedClause (String.ofList (trim isBlank fragment))) := by
  obtain ⟨front, operator, back, hsides, hname, hmark⟩ := h
  rw [read_of_sides hsides, ofSides, hname, hmark]
  rfl

/-- A fragment that takes a value has one placeholder. -/
theorem placeholders_of_takesValue (h : TakesValue fragment) : Quote.placeholders fragment = 1 := by
  obtain ⟨front, operator, back, hsides, hname, hmark⟩ := h
  obtain ⟨found, hfind, _, hfront, hback⟩ := exists_found_of_sides? hsides
  obtain ⟨front', word, back', s, hfragment, hmem, hword, _, _, hslice, hsliceFrom⟩ :=
    Operator.exists_split hfind
  cases hfront.symm.trans hslice
  cases hback.symm.trans hsliceFrom
  rw [← Quote.placeholders_trim, hfragment, placeholders_of_split hmem hword hname, hmark]
  rfl

end Clause

namespace Condition

open Text Template Grouping Clause

/-! ## Errors behind the check -/

variable {template : List Char} {toks : List Token} {ls : List Lexeme}

/-- Resolving fails only where a fragment cannot be read. -/
theorem error_of_resolve (hspell : List.Forall₂ (Spells template) toks ls) {values : List Value}
    {e : Error} (h : resolve template toks values = .error e) :
    ∃ text left, Clause.read text left = .error e := by
  induction hspell generalizing values with
  | nil => cases h
  | @cons token l rest ls hspell _ ih =>
      cases hmark : mark? token.kind with
      | some mark =>
          obtain ⟨item, _, hresolve⟩ := resolve_delimiter hmark template rest
          rw [hresolve, map_eq_error_iff] at h
          exact ih h
      | none =>
          rw [resolve_fragment (mark?_eq_none_iff.mp hmark) hspell.2] at h
          split at h
          · rename_i e' hread
            cases h
            exact ⟨_, _, hread⟩
          · rw [map_eq_error_iff] at h
            exact ih h

/-- If the placeholders are as many as the values, no other check reports that they are not. -/
theorem parse_ne_mismatch {c : Condition} {toks : List Token}
    (htokens : Template.tokens c.template.toList = .ok toks) (hne : toks ≠ [])
    (hcount : countPlaceholders c.template.toList toks = .ok c.values.length)
    (placeholders values : Nat) :
    c.parse ≠ .error (.placeholderMismatch placeholders values) := by
  intro h
  cases hitems : resolve c.template.toList toks c.values with
  | error e =>
      rw [parse_of_unresolved htokens hne hcount hitems] at h
      cases h
      obtain ⟨text, left, hread⟩ := error_of_resolve (spells_of_tokens htokens) hitems
      rcases error_of_read hread with he | ⟨_, _, _, _, _, he⟩
      · cases he
      · cases he
  | ok items =>
      rw [parse_of_resolve htokens hne hcount hitems, map_eq_error_iff] at h
      cases refuses_of_run h

/-! ## The check -/

theorem countPlaceholders_of_tokens (h : Template.tokens template = .ok toks) :
    countPlaceholders template toks = .ok (Quote.placeholders template) := by
  rw [countPlaceholders_eq (spells_of_tokens h),
    placeholdersOf_closed (unclosed_eq_none_of_tokens h)]

theorem parse_eq_mismatch_iff {c : Condition} {placeholders values : Nat} :
    c.parse = .error (.placeholderMismatch placeholders values) ↔
      (∃ toks, Template.tokens c.template.toList = .ok toks ∧ toks ≠ []) ∧
        placeholders = Quote.placeholders c.template.toList ∧ values = c.values.length ∧
          placeholders ≠ values := by
  constructor
  · intro h
    cases htokens : Template.tokens c.template.toList with
    | error e =>
        -- The tokens can only fail at an open literal.
        have hopen : Quote.after none c.template.toList ≠ none := by
          intro hclosed
          rw [(tokens_of_closed hclosed).1] at htokens
          cases htokens
        obtain ⟨left, q, tail, _, herror⟩ := tokens_of_open hopen
        have hitems : c.items? = .error (.unterminatedString (byteLength left)) := by
          rw [items?, herror]
        rw [parse, Condition.read, hitems] at h
        cases h
    | ok toks =>
        have hne : toks ≠ [] := by
          rintro rfl
          rw [parse_eq_none_iff.mpr (tokens_eq_ok_nil_iff.mp htokens)] at h
          cases h
        have hcount := countPlaceholders_of_tokens htokens
        by_cases hsame : Quote.placeholders c.template.toList = c.values.length
        · exact absurd h (parse_ne_mismatch htokens hne (hsame ▸ hcount) placeholders values)
        · rw [parse_of_mismatch htokens hne hcount hsame] at h
          cases h
          exact ⟨⟨toks, rfl, hne⟩, rfl, rfl, hsame⟩
  · rintro ⟨⟨toks, htokens, hne⟩, rfl, rfl, hmismatch⟩
    exact parse_of_mismatch htokens hne (countPlaceholders_of_tokens htokens) hmismatch

/-! ## A value for every placeholder -/

/-- Reading the fragments in order comes to this one with these values left. -/
def Reaches (c : Condition) (text : List Char) (left : List Value) : Prop :=
  ∃ front behind marks,
    lexemes c.template.toList = front ++ { kind := .fragment, text } :: behind ∧
      Reads front c.values marks left

/-- The fragments in front have a placeholder for each value that they take, so the values that are
left are enough for the fragments behind. -/
theorem placeholdersOf_le_of_reads {front behind : List Lexeme} {values left : List Value}
    {marks : List Mark} (hreads : Reads front values marks left)
    (hcount : placeholdersOf (front ++ behind) ≤ values.length) :
    placeholdersOf behind ≤ left.length := by
  obtain ⟨used, hvalues, _, hfront⟩ := reads_binds hreads
  rw [placeholdersOf_append, hvalues, List.length_append] at hcount
  omega

theorem ne_nil_of_reaches {c : Condition}
    (hcount : placeholdersOf (lexemes c.template.toList) = c.values.length) {text : List Char}
    {left : List Value} (hreaches : c.Reaches text left) (htakes : TakesValue text) :
    left ≠ [] := by
  obtain ⟨front, behind, marks, hlexemes, hreads⟩ := hreaches
  have hbehind := placeholdersOf_le_of_reads hreads (hlexemes ▸ hcount.le)
  rw [placeholdersOf, total_fragment, placeholders_of_takesValue htakes] at hbehind
  exact List.length_pos_iff.mp (by omega)

/-- With a value for each placeholder, more values make no difference to the items. -/
theorem resolve_append (hspell : List.Forall₂ (Spells template) toks ls) {values : List Value}
    (hcount : placeholdersOf ls ≤ values.length) (extra : List Value) :
    resolve template toks (values ++ extra) = resolve template toks values := by
  induction hspell generalizing values with
  | nil => rfl
  | @cons token l rest ls hspell _ ih =>
      obtain ⟨hkind, htext⟩ := hspell
      cases hmark : mark? token.kind with
      | some mark =>
          have hdelimiter : l.kind ≠ .fragment := hkind ▸ ne_fragment_of_mark? hmark
          rw [placeholdersOf, total_delimiter _ hdelimiter] at hcount
          obtain ⟨item, _, hresolve⟩ := resolve_delimiter hmark template rest
          rw [hresolve, hresolve, ih hcount]
      | none =>
          have hfragment := mark?_eq_none_iff.mp hmark
          have hvalues : TakesValue l.text → values ≠ [] := by
            intro htakes
            rw [placeholdersOf, total, ← hkind, if_pos hfragment,
              placeholders_of_takesValue htakes] at hcount
            exact List.length_pos_iff.mp (by omega)
          rw [resolve_fragment hfragment htext, resolve_fragment hfragment htext,
            read_append hvalues extra]
          cases hread : Clause.read l.text values with
          | error e => rfl
          | ok made =>
              obtain ⟨clause, more⟩ := made
              have hmore : placeholdersOf ls ≤ more.length := by
                obtain ⟨used, rfl, _, hused⟩ := read_binds hread
                rw [placeholdersOf, total, ← hkind, if_pos hfragment, hused,
                  List.length_append] at hcount
                rw [placeholdersOf]
                omega
              show (resolve template rest (more ++ extra)).map _ = _
              rw [ih hmore]

/-- The check of the placeholders comes first and is exact: a template with tokens is refused
exactly if the placeholders in it are not as many as the values, with these two numbers, whatever
else is wrong with it.  The placeholders of the fragments are those of the template.  If there are
as many values, every fragment that takes a value finds one, and more values would make no
difference. -/
theorem placeholder_check_exact (c : Condition) :
    (∀ placeholders values, c.parse = .error (.placeholderMismatch placeholders values) ↔
      (∃ toks, Template.tokens c.template.toList = .ok toks ∧ toks ≠ []) ∧
        placeholders = Quote.placeholders c.template.toList ∧ values = c.values.length ∧
          placeholders ≠ values) ∧
      ∀ toks, Template.tokens c.template.toList = .ok toks →
        countPlaceholders c.template.toList toks = .ok (Quote.placeholders c.template.toList) ∧
          (Quote.placeholders c.template.toList = c.values.length →
            (∀ text left, c.Reaches text left → TakesValue text → left ≠ []) ∧
              ∀ extra, resolve c.template.toList toks (c.values ++ extra) =
                resolve c.template.toList toks c.values) := by
  refine ⟨fun _ _ => parse_eq_mismatch_iff, ?_⟩
  intro toks htokens
  refine ⟨countPlaceholders_of_tokens htokens, ?_⟩
  intro hsame
  have hcount : placeholdersOf (lexemes c.template.toList) = c.values.length := by
    rw [placeholdersOf_closed (unclosed_eq_none_of_tokens htokens), hsame]
  exact ⟨fun _ _ => ne_nil_of_reaches hcount,
    resolve_append (spells_of_tokens htokens) hcount.le⟩

/-- A malformed clause and an open parenthesis are not found before the missing value is, and the
question mark in the literal is not counted. -/
theorem placeholder_check_of_missing_value :
    parse ⟨"a = ? AND (b 'c?' = ?", [.null]⟩ = .error (.placeholderMismatch 2 1) :=
  ((placeholder_check_exact ⟨"a = ? AND (b 'c?' = ?", [.null]⟩).1 2 1).mpr
    ⟨⟨_, rfl, by decide⟩, rfl, rfl, by decide⟩

end Condition
end RecordFilter
