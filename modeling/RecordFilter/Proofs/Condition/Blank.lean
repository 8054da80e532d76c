/-
Conditions with a blank template.  Two notions of blank meet here.  What separates tokens is layout,
which is ASCII; a template is called blank if there is nothing in it but blanks, and a fragment is
trimmed of blanks as well.  So a blank template has either no token, if all of it is layout, or else
one, a fragment without a text.

`parse_eq_none_iff` says that reading takes only the first kind for a condition that wants every
record.  A template of the second kind is `Hollow`, and reads as a clause that holds for no record.
-/
import RecordFilter.Evaluation
import RecordFilter.Proofs.Condition.Reading
import RecordFilter.Proofs.Template.Cutting
import RecordFilter.Proofs.Template.Placeholders

namespace RecordFilter

namespace Template

open Text

/-! ## Tokens of a blank template -/

theorem cutFrom_of_blank {text : List Char} (h : text.all isBlank = true) (before : Option Char) :
    cutFrom 0 before none text = (cut []).push text := by
  induction text generalizing before with
  | nil => rfl
  | cons c rest ih =>
      rw [List.all_cons, Bool.and_eq_true] at h
      have hquote : Quote.isQuote c = false := isQuote_of_class (by decide) (by decide) h.1
      have hparen : paren? c = none := paren?_of_class (by decide) (by decide) h.1
      have hkeyword : keyword? before (c :: rest) = none :=
        keyword?_of_apart (apart_cons (isAsciiWord_of_isBlank h.1) rest)
      rw [cutFrom_char hquote hparen hkeyword, ih h.2]
      rfl

theorem unclosed_cut_of_blank {text : List Char} (h : text.all isBlank = true) :
    (cut text).unclosed = none := by
  rw [cut, cutFrom_of_blank h, Cut.unclosed_push]
  rfl

/-- A blank template is one gap. -/
theorem lexemes_of_blank {text : List Char} (h : text.all isBlank = true) :
    lexemes text = (Piece.lexeme? (.gap text)).toList := by
  rw [lexemes, cut, cutFrom_of_blank h]
  exact Cut.lexemes_gap text none

theorem all_isLayout_of_lexeme? {piece : Piece} (h : piece.lexeme? = none) :
    piece.text.all isLayout = true := by
  cases piece with
  | delimiter kind text => cases h
  | gap text =>
      rw [Piece.lexeme?] at h
      split at h
      · rename_i hempty
        exact trim_eq_nil_iff.mp (List.isEmpty_iff.mp hempty)
      · cases h

theorem all_isBlank_of_layout {text : List Char} (h : text.all isLayout = true) :
    text.all isBlank = true :=
  List.all_eq_true.mpr fun c hc => isBlank_of_isLayout (List.all_eq_true.mp h c hc)

theorem lexemes_eq_nil_iff {template : List Char} :
    lexemes template = [] ↔ template.all isLayout = true := by
  constructor
  · intro h
    rw [lexemes, Cut.lexemes, List.filterMap_eq_nil_iff] at h
    rw [← flatMap_text_cut template, List.all_flatMap, List.all_eq_true]
    exact fun piece hpiece => all_isLayout_of_lexeme? (h piece hpiece)
  · intro h
    rw [lexemes_of_blank (all_isBlank_of_layout h), Cut.lexeme?_of_layout h]
    rfl

/-- A template has no tokens exactly if there is nothing but layout in it. -/
theorem tokens_eq_ok_nil_iff {template : List Char} :
    tokens template = .ok [] ↔ template.all isLayout = true := by
  constructor
  · intro h
    have hspell := spells_of_tokens h
    cases hlexemes : lexemes template with
    | nil => exact lexemes_eq_nil_iff.mp hlexemes
    | cons l rest =>
        rw [hlexemes] at hspell
        cases hspell
  · intro h
    obtain ⟨toks, htokens, hspell⟩ := tokens_spell (unclosed_cut_of_blank (all_isBlank_of_layout h))
    rw [lexemes_eq_nil_iff.mpr h] at hspell
    cases hspell
    exact htokens

end Template

namespace Condition

open Text Template Grouping

/-! ## Reading a blank template -/

theorem items?_eq_none_iff {c : Condition} :
    c.items? = .ok none ↔ Template.tokens c.template.toList = .ok [] := by
  rw [items?]
  split
  · rename_i e htokens
    rw [htokens]
    simp
  · rename_i htokens
    rw [htokens]
    simp
  · rename_i toks hne htokens
    have hsome : Template.tokens c.template.toList ≠ .ok [] := by
      rw [htokens]
      rintro heq
      exact hne (Except.ok.inj heq)
    refine iff_of_false ?_ hsome
    split
    · simp
    · split
      · simp
      · intro h
        obtain ⟨items, _, heq⟩ := map_eq_ok_iff.mp h
        cases heq

/-- Reading finds no filter in a condition exactly if its template is layout. -/
theorem parse_eq_none_iff {c : Condition} :
    c.parse = .ok none ↔ c.template.toList.all isLayout = true := by
  rw [← tokens_eq_ok_nil_iff, ← items?_eq_none_iff, parse, read]
  split
  · rename_i e hitems
    simp [hitems, Reading.fail]
  · rename_i hitems
    simp [hitems]
  · rename_i items hitems
    refine iff_of_false ?_ (by simp [hitems])
    intro h
    obtain ⟨t, _, heq⟩ := map_eq_ok_iff.mp h
    cases heq

/-- The template is blank, but not all of it is layout. -/
def Hollow (c : Condition) : Prop :=
  c.isBlank = true ∧ c.template.toList.all isLayout = false

theorem read_of_blank {text : List Char} (h : text.all Text.isBlank = true) (values : List Value) :
    Clause.read text values = .ok (.bare "", values) := by
  rw [Clause.read, trim_eq_nil_iff.mpr h]
  rfl

theorem lexemes_of_hollow {c : Condition} (h : c.Hollow) :
    ∃ text, lexemes c.template.toList = [{ kind := .fragment, text }] ∧
      text.all Text.isBlank = true := by
  obtain ⟨hblank, hlayout⟩ := h
  refine ⟨trim isLayout c.template.toList, ?_, ?_⟩
  · have hne : trim isLayout c.template.toList ≠ [] := by
      intro hempty
      rw [trim_eq_nil_iff.mp hempty] at hlayout
      cases hlayout
    rw [lexemes_of_blank hblank, Cut.lexeme?_of_trim hne]
    rfl
  · rw [List.all_eq_true]
    exact fun d hd => List.all_eq_true.mp hblank d (mem_of_mem_trim hd)

theorem placeholdersOf_of_hollow {c : Condition} (h : c.Hollow) :
    placeholdersOf (lexemes c.template.toList) = 0 := by
  obtain ⟨text, hlexemes, hblank⟩ := lexemes_of_hollow h
  rw [hlexemes, placeholdersOf, total_fragment]
  exact Quote.placeholdersFrom_of_plain (Quote.all_plain_of_blank hblank) none

/-- A hollow condition has a tree, a clause without a text. -/
theorem parse_of_hollow {c : Condition} (h : c.Hollow) (hvalues : c.values = []) :
    c.parse = .ok (some (.leaf (.bare ""))) := by
  obtain ⟨text, hlexemes, hblank⟩ := lexemes_of_hollow h
  have hreads : Reads (lexemes c.template.toList) c.values
      (Part.marksOf [.leaf (.bare "")]) [] := by
    rw [hlexemes, hvalues]
    exact .fragment (read_of_blank hblank []) .nil
  have hcomplete : Part.Complete [.leaf (.bare "")] :=
    ⟨⟨List.cons_ne_nil _ _, fun htwo => absurd htwo (by decide)⟩, trivial, trivial⟩
  have hcount : placeholdersOf (lexemes c.template.toList) = c.values.length := by
    rw [placeholdersOf_of_hollow h, hvalues]
    rfl
  exact parse_eq_some_iff.mpr
    ⟨unclosed_cut_of_blank h.1, hcount, [], _, hreads, hcomplete, Nat.zero_le _, rfl⟩

/-- Bound values have no placeholder in a hollow condition. -/
theorem parse_of_hollow_of_ne {c : Condition} (h : c.Hollow) (hvalues : c.values ≠ []) :
    c.parse = .error (.placeholderMismatch 0 c.values.length) := by
  obtain ⟨toks, htokens, hspell⟩ := tokens_spell (unclosed_cut_of_blank h.1)
  have hne : toks ≠ [] := by
    rintro rfl
    have hlayout := h.2
    rw [tokens_eq_ok_nil_iff.mp htokens] at hlayout
    cases hlayout
  have hcount := countPlaceholders_eq hspell
  rw [placeholdersOf_of_hollow h] at hcount
  exact parse_of_mismatch htokens hne hcount
    (Ne.symm fun hzero => hvalues (List.length_eq_zero_iff.mp hzero))

/-- No field has the empty name, so a clause without a text holds for no record. -/
theorem holds_of_hollow {c : Condition} {t : Tree} (h : c.Hollow) (hparse : c.parse = .ok (some t))
    {ρ : Type} [Record ρ] (record : ρ) : t.holds record = false := by
  by_cases hvalues : c.values = []
  · rw [parse_of_hollow h hvalues] at hparse
    cases hparse
    rfl
  · rw [parse_of_hollow_of_ne h hvalues] at hparse
    cases hparse

end Condition
end RecordFilter
