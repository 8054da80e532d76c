/-
Texts without placeholders.  Counting placeholders walks over a text with the open literal as its
state.  A plain character, which is neither a quote nor a question mark, changes neither the count
nor the state, and so trimming blanks off a text does not change its count.
-/
import RecordFilter.Template.Quote
import RecordFilter.Proofs.Template.Lexeme
import RecordFilter.Proofs.Text.Words

namespace RecordFilter
namespace Quote

open Text

/-- Neither a quote nor a placeholder. -/
def plain (c : Char) : Bool :=
  !isQuote c && c != '?'

/-- A class of characters is plain if the three others are not in it. -/
theorem plain_of_class {p : Char → Bool} (hsingle : p '\'' = false) (hdouble : p '"' = false)
    (hmark : p '?' = false) {c : Char} (h : p c = true) : plain c = true := by
  simp [plain, isQuote, ne_of_class hsingle h, ne_of_class hdouble h, ne_of_class hmark h]

theorem all_plain_of_class {p : Char → Bool} (hsingle : p '\'' = false) (hdouble : p '"' = false)
    (hmark : p '?' = false) {text : List Char} (h : text.all p = true) :
    text.all plain = true := by
  rw [List.all_eq_true] at h ⊢
  exact fun c hc => plain_of_class hsingle hdouble hmark (h c hc)

/-- A text whose lower case is plain is plain, since quotes and question marks are no letters. -/
theorem all_plain_of_lower {text : List Char} (h : (lower text).all plain = true) :
    text.all plain = true := by
  rw [lower, List.all_map] at h
  exact all_plain_of_class (by decide) (by decide) (by decide) h

theorem step_of_plain {c : Char} (h : plain c = true) : step none c = none := by
  have hquote : isQuote c = false := by
    rw [plain, Bool.and_eq_true, Bool.not_eq_true'] at h
    exact h.1
  rw [step, hquote]
  rfl

theorem after_of_plain {text : List Char} (h : text.all plain = true) : after none text = none := by
  induction text with
  | nil => rfl
  | cons c rest ih =>
      rw [List.all_cons, Bool.and_eq_true] at h
      rw [after_cons, step_of_plain h.1, ih h.2]

/-- Plain characters hold no placeholder, whatever literal they stand in. -/
theorem placeholdersFrom_of_plain {text : List Char} (h : text.all plain = true)
    (opened : Option Char) : placeholdersFrom opened text = 0 := by
  induction text generalizing opened with
  | nil => rfl
  | cons c rest ih =>
      rw [List.all_cons, Bool.and_eq_true] at h
      have hne : (c == '?') = false := by
        have hc := h.1
        rw [plain, Bool.and_eq_true] at hc
        exact Bool.not_eq_true' _ ▸ hc.2
      rw [placeholdersFrom, ih h.2, hne, Bool.and_false]
      rfl

/-- Behind a text that leaves no literal open, counting starts again. -/
theorem placeholders_append {left : List Char} (h : after none left = none) (right : List Char) :
    placeholders (left ++ right) = placeholders left + placeholders right := by
  rw [placeholders, placeholdersFrom_append, h, placeholders, placeholders]

theorem placeholders_append_of_plain {front : List Char} (h : front.all plain = true)
    (rest : List Char) : placeholders (front ++ rest) = placeholders rest := by
  rw [placeholders_append (after_of_plain h), placeholders, placeholdersFrom_of_plain h,
    Nat.zero_add]

theorem all_plain_of_blank {text : List Char} (h : text.all isBlank = true) :
    text.all plain = true :=
  all_plain_of_class (by decide) (by decide) (by decide) h

theorem placeholders_trim_of_plain {skip : Char → Bool} (hskip : ∀ c, skip c = true → plain c = true)
    (text : List Char) : placeholders (trim skip text) = placeholders text := by
  have hplain : ∀ {part : List Char}, part.all skip = true → part.all plain = true := by
    intro part hpart
    exact List.all_eq_true.mpr fun c hc => hskip c (List.all_eq_true.mp hpart c hc)
  obtain ⟨tail, htext, htail⟩ := exists_trim_append skip text
  have hfront : (text.takeWhile skip).all plain = true := hplain List.all_takeWhile
  conv_rhs => rw [htext]
  rw [placeholders_append_of_plain hfront, placeholders, placeholders, placeholdersFrom_append,
    placeholdersFrom_of_plain (hplain htail), Nat.add_zero]

theorem placeholders_trim (text : List Char) :
    placeholders (trim isBlank text) = placeholders text :=
  placeholders_trim_of_plain (fun _ => plain_of_class (by decide) (by decide) (by decide)) text

/-- A text is plain if what is left of it without the blanks around it is. -/
theorem all_plain_of_trim {text : List Char} (h : (trim isBlank text).all plain = true) :
    text.all plain = true := by
  obtain ⟨tail, htext, htail⟩ := exists_trim_append isBlank text
  have hfront : (text.takeWhile isBlank).all plain = true :=
    all_plain_of_blank List.all_takeWhile
  rw [htext, List.all_append, List.all_append, hfront, h, all_plain_of_blank htail]
  rfl

end Quote
end RecordFilter
