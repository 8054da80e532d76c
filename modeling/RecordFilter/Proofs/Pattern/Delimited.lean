/-
A pattern is read back from the regular expression that stands for it, also when that stands between
slashes.  Two escapes lie over each other there: the needle is escaped for the regular expression,
and the slashes of the result for the delimiter.  A slash means nothing in a regular expression, so
the inner escape never writes one behind a backslash, and from the left the two can be told apart.
-/
import RecordFilter.Pattern.Regex

namespace RecordFilter

namespace Regex

/-! ## Regular expressions -/

/-- The pattern that a literal regular expression stands for. -/
def Literal.pattern (r : Literal) : Pattern :=
  { needle := String.ofList r.needle
    anchor :=
      match r.atStart, r.atEnd with
      | true, true => .exact
      | true, false => .startsWith
      | false, true => .endsWith
      | false, false => .contains }

theorem readNeedle?_escape_append (needle tail : List Char) :
    readNeedle? (escape needle ++ tail) =
      (readNeedle? tail).map fun found => (needle ++ found.1, found.2) := by
  induction needle with
  | nil => simp [escape]
  | cons c rest ih =>
      rw [escape]
      split
      · rename_i hmeta
        rw [List.cons_append, List.cons_append, readNeedle?, if_pos hmeta, ih, Option.map_map]
        rfl
      · rename_i hplain
        rw [List.cons_append, readNeedle?, if_neg hplain, ih, Option.map_map]
        · rfl
        · rintro rfl
          exact absurd rfl hplain
        · rintro _ _ rfl
          exact absurd rfl hplain

/-- Only the mark for the start of the text starts with one. -/
theorem read?_escape_append (needle : List Char) {tail : List Char}
    (htail : tail.head? ≠ some '^') :
    read? (escape needle ++ tail) = (readNeedle? (escape needle ++ tail)).map fun found =>
      { atStart := false, needle := found.1, atEnd := found.2 } := by
  have hhead : (escape needle ++ tail).head? ≠ some '^' := by
    cases needle with
    | nil => exact htail
    | cons c rest =>
        rw [escape]
        split
        · simp
        · rename_i hplain
          simp only [List.cons_append, List.head?_cons, ne_eq, Option.some.injEq]
          rintro rfl
          exact absurd rfl hplain
  unfold read?
  split
  rename_i atStart rest heq
  split at heq
  · rename_i hstart
    rw [hstart] at hhead
    exact absurd rfl hhead
  · cases heq
    rfl

end Regex

namespace Pattern

open Regex

theorem read?_regexSource (p : Pattern) : (read? p.regexSource).map Literal.pattern = some p := by
  obtain ⟨needle, anchor⟩ := p
  cases anchor with
  | contains =>
      have hread := @read?_escape_append needle.toList [] (by simp)
      rw [List.append_nil] at hread
      rw [regexSource, hread, ← List.append_nil (escape _), readNeedle?_escape_append]
      simp [readNeedle?, Literal.pattern]
  | startsWith =>
      rw [regexSource, read?, ← List.append_nil (escape _), readNeedle?_escape_append]
      simp [readNeedle?, Literal.pattern]
  | endsWith =>
      rw [regexSource, read?_escape_append _ (by simp), readNeedle?_escape_append]
      simp [readNeedle?, Literal.pattern]
  | exact =>
      rw [regexSource, List.cons_append, read?, readNeedle?_escape_append]
      simp [readNeedle?, Literal.pattern]

/-! ## Delimiters -/

/-- The text up to a slash at the end, with the backslashes taken away that escape a slash.  A slash
in between that is not escaped would end the text early. -/
def undelimited? : List Char → Option (List Char)
  | [] => none
  | ['/'] => some []
  | '\\' :: c :: rest =>
      (undelimited? rest).map fun text => if c = '/' then c :: text else '\\' :: c :: text
  | c :: rest => if c = '/' then none else (undelimited? rest).map (c :: ·)

/-- The pattern whose regular expression stands between slashes. -/
def ofDelimited? : List Char → Option Pattern
  | '/' :: text =>
      (undelimited? text).bind fun source => (read? source).map Literal.pattern
  | _ => none

theorem escapeSlashes_append (left right : List Char) :
    escapeSlashes (left ++ right) = escapeSlashes left ++ escapeSlashes right := by
  induction left with
  | nil => rfl
  | cons c rest ih =>
      rw [List.cons_append, escapeSlashes, escapeSlashes, ih]
      split <;> rfl

theorem undelimited?_cons {c : Char} (hslash : c ≠ '/') (hbackslash : c ≠ '\\') (rest : List Char) :
    undelimited? (c :: rest) = (undelimited? rest).map (c :: ·) := by
  rw [undelimited?, if_neg hslash]
  · exact fun h _ => hslash h
  · exact fun _ _ h _ => hbackslash h

theorem undelimited?_escape_append (needle rest : List Char) :
    undelimited? (escapeSlashes (escape needle) ++ rest) =
      (undelimited? rest).map (escape needle ++ ·) := by
  induction needle with
  | nil => simp [escape, escapeSlashes]
  | cons c needle ih =>
      rw [escape]
      split
      · rename_i hmeta
        have hslash : c ≠ '/' := by
          rintro rfl
          cases hmeta
        rw [escapeSlashes, if_neg (by decide), escapeSlashes, if_neg hslash, List.cons_append,
          List.cons_append, undelimited?, ih, Option.map_map]
        simp only [if_neg hslash]
        rfl
      · rename_i hplain
        have hbackslash : c ≠ '\\' := by
          rintro rfl
          exact absurd rfl hplain
        rw [escapeSlashes]
        split
        · rename_i hslash
          subst hslash
          rw [List.cons_append, List.cons_append, undelimited?, ih, Option.map_map]
          rfl
        · rename_i hslash
          rw [List.cons_append, undelimited?_cons hslash hbackslash, ih, Option.map_map]
          rfl

theorem undelimited?_regexSource (p : Pattern) :
    undelimited? (escapeSlashes p.regexSource ++ ['/']) = some p.regexSource := by
  obtain ⟨needle, anchor⟩ := p
  have hnil : undelimited? ['/'] = some [] := by rw [undelimited?]
  have hend : undelimited? ['$', '/'] = some ['$'] := by
    rw [undelimited?_cons (by decide) (by decide), hnil]
    rfl
  have hstart : ∀ text, undelimited? ('^' :: text) = (undelimited? text).map ('^' :: ·) :=
    undelimited?_cons (by decide) (by decide)
  cases anchor with
  | contains =>
      rw [regexSource, undelimited?_escape_append, hnil, Option.map_some, List.append_nil]
  | startsWith =>
      rw [regexSource, escapeSlashes, if_neg (by decide), List.cons_append, hstart,
        undelimited?_escape_append, hnil, Option.map_some, Option.map_some, List.append_nil]
  | endsWith =>
      rw [regexSource, escapeSlashes_append, List.append_assoc, undelimited?_escape_append]
      show (undelimited? ['$', '/']).map _ = _
      rw [hend]
      rfl
  | exact =>
      rw [regexSource, List.cons_append, escapeSlashes, if_neg (by decide), escapeSlashes_append,
        List.cons_append, hstart, List.append_assoc, undelimited?_escape_append]
      show ((undelimited? ['$', '/']).map _).map _ = _
      rw [hend]
      rfl

/-- A pattern is read back from its regular expression between slashes. -/
theorem ofDelimited?_delimited (p : Pattern) : ofDelimited? p.delimited = some p := by
  rw [delimited, List.cons_append, ofDelimited?, undelimited?_regexSource, Option.bind_some,
    read?_regexSource]

end Pattern
end RecordFilter
