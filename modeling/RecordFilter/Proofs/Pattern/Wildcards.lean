/-
What LIKE means.  A percent sign at either end of the bound text stands for any text, and every
other character of it stands for itself: `Like.symbols` and `Like.Matches` say so without needles and
regular expressions.  The reader goes another way.  It takes the wildcards off and keeps them as an
anchor, escapes what is left, and marks the ends of the regular expression that the anchor ties down.

`matchesText_iff` says that a pattern matches what its needle and its anchor stand for, and
`symbols_ofLike` that these are what the bound text stands for.  The one text for which they differ is
a single percent sign, at both ends of the text at once: the pattern has a wildcard for each end.
-/
import RecordFilter.Evaluation
import RecordFilter.Proofs.Condition.Printing
import RecordFilter.Proofs.Pattern.Delimited

namespace RecordFilter

/-! ## Wildcards -/

namespace Like

/-- What a character of a text with wildcards stands for. -/
inductive Symbol where
  | anyText
  | character (c : Char)
deriving DecidableEq, Repr

/-- The symbols of a text in which a percent sign is a wildcard at the end only. -/
def closing : List Char → List Symbol
  | [] => []
  | ['%'] => [.anyText]
  | c :: rest => .character c :: closing rest

/-- The symbols of a text: a percent sign is a wildcard at either end and nowhere else. -/
def symbols : List Char → List Symbol
  | '%' :: rest => .anyText :: closing rest
  | text => closing text

/-- A text matches symbols if it is put together from what they stand for, in order. -/
inductive Matches : List Symbol → List Char → Prop where
  | nil : Matches [] []
  | anyText {rest : List Symbol} {back : List Char} (front : List Char)
      (hback : Matches rest back) : Matches (.anyText :: rest) (front ++ back)
  | character {c : Char} {rest : List Symbol} {back : List Char} (hback : Matches rest back) :
      Matches (.character c :: rest) (c :: back)

theorem matches_nil_iff {text : List Char} : Matches [] text ↔ text = [] := by
  constructor
  · intro h
    cases h
    rfl
  · intro h
    rw [h]
    exact .nil

theorem matches_anyText_iff {rest : List Symbol} {text : List Char} :
    Matches (.anyText :: rest) text ↔ ∃ front back, text = front ++ back ∧ Matches rest back := by
  constructor
  · intro h
    cases h with
    | @anyText _ back front hback => exact ⟨front, back, rfl, hback⟩
  · intro h
    obtain ⟨front, back, htext, hback⟩ := h
    rw [htext]
    exact .anyText front hback

theorem matches_anyText_last (text : List Char) : Matches [.anyText] text :=
  matches_anyText_iff.mpr ⟨text, [], (List.append_nil text).symm, .nil⟩

/-- Characters match the text that they are. -/
theorem matches_characters_iff {needle : List Char} {rest : List Symbol} {text : List Char} :
    Matches (needle.map .character ++ rest) text ↔
      ∃ back, text = needle ++ back ∧ Matches rest back := by
  induction needle generalizing text with
  | nil => simp
  | cons c needle ih =>
      rw [List.map_cons, List.cons_append]
      constructor
      · intro h
        cases h with
        | character hback =>
            obtain ⟨back, htext, hrest⟩ := ih.mp hback
            exact ⟨back, by rw [htext, List.cons_append], hrest⟩
      · intro h
        obtain ⟨back, htext, hrest⟩ := h
        rw [htext, List.cons_append]
        exact .character (ih.mpr ⟨back, rfl, hrest⟩)

theorem matches_needle_iff {needle text : List Char} :
    Matches (needle.map .character) text ↔ text = needle := by
  have h := @matches_characters_iff needle [] text
  simpa [matches_nil_iff] using h

theorem closing_append_percent (needle : List Char) :
    closing (needle ++ ['%']) = needle.map .character ++ [.anyText] := by
  induction needle with
  | nil => rfl
  | cons c rest ih =>
      rw [List.cons_append, closing, ih]
      · rfl
      · intro _ hnil
        simp at hnil

theorem closing_of_last_ne {text : List Char} (h : text.getLast? ≠ some '%') :
    closing text = text.map .character := by
  induction text with
  | nil => rfl
  | cons c rest ih =>
      have hrest : rest.getLast? ≠ some '%' := by
        cases rest with
        | nil => simp
        | cons d rest => rwa [List.getLast?_cons_cons] at h
      rw [closing, ih hrest, List.map_cons]
      · intro hc hnil
        rw [hc, hnil] at h
        exact h rfl

theorem symbols_of_head_ne {text : List Char} (h : text.head? ≠ some '%') :
    symbols text = closing text := by
  rw [symbols]
  intro rest htext
  rw [htext] at h
  exact h rfl

/-- Unless the first character is all there is, it is not the last one. -/
theorem getLast?_cons_of_ne {c : Char} {rest : List Char} (h : c :: rest ≠ [c]) :
    (c :: rest).getLast? = rest.getLast? := by
  cases rest with
  | nil => exact absurd rfl h
  | cons d rest => exact List.getLast?_cons_cons

end Like

/-! ## Patterns -/

namespace Regex

theorem occursIn_iff {needle text : List Char} :
    occursIn needle text = true ↔ ∃ front back, text = front ++ (needle ++ back) := by
  induction text with
  | nil => simp [occursIn]
  | cons c rest ih =>
      rw [occursIn, Bool.or_eq_true, ih, List.isPrefixOf_iff_prefix]
      constructor
      · intro h
        rcases h with ⟨back, hback⟩ | ⟨front, back, hrest⟩
        · exact ⟨[], back, hback.symm⟩
        · exact ⟨c :: front, back, by rw [hrest, List.cons_append]⟩
      · intro h
        obtain ⟨front, back, htext⟩ := h
        cases front with
        | nil => exact Or.inl ⟨back, htext.symm⟩
        | cons d front =>
            rw [List.cons_append] at htext
            cases htext
            exact Or.inr ⟨front, back, rfl⟩

end Regex

namespace Pattern

open Like

/-- What the needle and the anchor of a pattern stand for. -/
def symbols (p : Pattern) : List Symbol :=
  let needle := p.needle.toList.map Symbol.character
  match p.anchor with
  | .contains => .anyText :: (needle ++ [.anyText])
  | .startsWith => needle ++ [.anyText]
  | .endsWith => .anyText :: needle
  | .exact => needle

theorem matchesText_literal_iff (r : Regex.Literal) (text : List Char) :
    r.matchesText text = true ↔ Matches r.pattern.symbols text := by
  obtain ⟨atStart, needle, atEnd⟩ := r
  cases atStart with
  | true =>
      cases atEnd with
      | true =>
          simp only [Regex.Literal.matchesText, Regex.Literal.pattern, symbols, String.toList_ofList,
            matches_needle_iff, beq_iff_eq]
          exact eq_comm
      | false =>
          simp only [Regex.Literal.matchesText, Regex.Literal.pattern, symbols, String.toList_ofList,
            matches_characters_iff, matches_anyText_last, and_true, List.isPrefixOf_iff_prefix]
          exact exists_congr fun back => eq_comm
  | false =>
      cases atEnd with
      | true =>
          simp only [Regex.Literal.matchesText, Regex.Literal.pattern, symbols, String.toList_ofList,
            matches_anyText_iff, matches_needle_iff, List.isSuffixOf_iff_suffix]
          simp [List.IsSuffix, eq_comm]
      | false =>
          have hneedle : ∀ back, Matches (needle.map .character ++ [.anyText]) back ↔
              ∃ behind, back = needle ++ behind := by
            simp only [matches_characters_iff, matches_anyText_last, and_true, implies_true]
          simp only [Regex.Literal.matchesText, Regex.Literal.pattern, symbols, String.toList_ofList,
            matches_anyText_iff, hneedle, Regex.occursIn_iff]
          constructor
          · intro h
            obtain ⟨front, back, htext⟩ := h
            exact ⟨front, _, htext, back, rfl⟩
          · intro h
            obtain ⟨front, _, htext, back, hback⟩ := h
            exact ⟨front, back, by rw [htext, hback]⟩

/-- A pattern matches what its needle and its anchor stand for. -/
theorem matchesText_iff (p : Pattern) (text : List Char) :
    p.matchesText text = true ↔ Matches p.symbols text := by
  obtain ⟨r, hread, hpattern⟩ := Option.map_eq_some_iff.mp (read?_regexSource p)
  rw [matchesText, hread, Option.any_some, matchesText_literal_iff, hpattern]

/-- The needle and the anchor of a bound text stand for what the text stands for. -/
theorem symbols_ofLike {text : List Char} (h : text ≠ ['%']) :
    (ofLike text).symbols = Like.symbols text := by
  rw [ofLike, if_neg h]
  split
  · rename_i hfirst hlast
    obtain ⟨rest, rfl⟩ := List.head?_eq_some_iff.mp (beq_iff_eq.mp hfirst)
    have hrest : rest.getLast? = some '%' := by
      rw [getLast?_cons_of_ne h] at hlast
      exact beq_iff_eq.mp hlast
    obtain ⟨needle, rfl⟩ := List.getLast?_eq_some_iff.mp hrest
    show _ = Symbol.anyText :: closing (needle ++ ['%'])
    rw [closing_append_percent]
    simp [symbols]
  · rename_i hfirst hlast
    obtain ⟨needle, rfl⟩ := List.getLast?_eq_some_iff.mp (beq_iff_eq.mp hlast)
    rw [symbols_of_head_ne (beq_eq_false_iff_ne.mp hfirst), closing_append_percent]
    simp [symbols]
  · rename_i hfirst hlast
    obtain ⟨rest, rfl⟩ := List.head?_eq_some_iff.mp (beq_iff_eq.mp hfirst)
    have hrest : rest.getLast? ≠ some '%' := by
      rw [getLast?_cons_of_ne h] at hlast
      exact beq_eq_false_iff_ne.mp hlast
    show _ = Symbol.anyText :: closing rest
    rw [closing_of_last_ne hrest]
    simp [symbols]
  · rename_i hfirst hlast
    rw [symbols_of_head_ne (beq_eq_false_iff_ne.mp hfirst),
      closing_of_last_ne (beq_eq_false_iff_ne.mp hlast)]
    simp [symbols]

/-- A pattern matches a text exactly if the text matches what the pattern was made of. -/
theorem matchesText_ofLike_iff (bound text : List Char) :
    (ofLike bound).matchesText text = true ↔ Matches (Like.symbols bound) text := by
  rw [matchesText_iff]
  by_cases hsingle : bound = ['%']
  · subst hsingle
    have htwo : Matches [.anyText, .anyText] text :=
      matches_anyText_iff.mpr ⟨text, [], (List.append_nil text).symm, matches_anyText_last []⟩
    exact iff_of_true htwo (matches_anyText_last text)
  · rw [symbols_ofLike hsingle]

end Pattern

/-! ## Conditions -/

namespace Condition

theorem parse_like {name : String} (hname : Clause.IsName name) (bound : String) :
    parse ⟨name ++ " like ?", [.str bound]⟩ = .ok (some (.leaf
      (.compare name .like (.pattern (Pattern.ofLike bound.toList)) .placeholder))) := by
  have hparse := @parse_text
    (.compare name .like (.pattern (Pattern.ofLike bound.toList)) .placeholder) [.str bound] hname
    (.cons ⟨_, rfl, rfl⟩ .nil)
  simp only [Clause.text, Operator.symbol, String.append_assoc] at hparse
  exact hparse

/-- A field compared by LIKE with a bound text, for a record that has a text in the field. -/
theorem holds_like_iff {name : String} (hname : Clause.IsName name) (bound stored : String)
    {ρ : Type} [Record ρ] {record : ρ}
    (hfield : Record.field? record name = some (.str stored)) :
    ∃ t, parse ⟨name ++ " like ?", [.str bound]⟩ = .ok (some t) ∧
      (t.holds record = true ↔ Like.Matches (Like.symbols bound.toList) stored.toList) := by
  refine ⟨_, parse_like hname bound, ?_⟩
  rw [Tree.holds, Clause.holds, hfield]
  exact Pattern.matchesText_ofLike_iff bound.toList stored.toList

/-- Three percent signs: two wildcards, with a character between them. -/
theorem holds_like_of_percents :
    ∃ t, parse ⟨"note like ?", [.str "%%%"]⟩ = .ok (some t) ∧
      t.holds ({ members := [("note", .string "5% off\n")] } : JsonRecord) = true := by
  have hname : Clause.IsName "note" := by
    unfold Clause.IsName
    decide
  obtain ⟨t, hparse, hholds⟩ := @holds_like_iff "note" hname "%%%" "5% off\n" JsonRecord _
    { members := [("note", .string "5% off\n")] } rfl
  refine ⟨t, hparse, hholds.mpr ?_⟩
  exact .anyText ['5'] (.character (Like.matches_anyText_last [' ', 'o', 'f', 'f', '\n']))

end Condition
end RecordFilter
