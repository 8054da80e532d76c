/-
Patterns between slashes, read once from the left.  Two escapes were written one after the other, but
whoever looks for the closing slash knows one rule only: a backslash makes the character behind it
literal.  `glyphs?` reads by that rule.  What it finds in the delimited form of a pattern is what
`Pattern.glyphs` says: the mark for the start of the text if the anchor asks for it, the characters of
the needle, literal wherever they would mean something, and the mark for the end.

`delimited_unambiguous` draws from this that the form ends where its last slash stands, that nothing in it
means anything but the marks at its ends, and that the pattern can be told from it.
-/
import RecordFilter.Proofs.Pattern.Delimited

namespace RecordFilter
namespace Pattern

open Regex

/-! ## Reading -/

/-- A character of a text: literal if a backslash in front of it makes it so, and otherwise whatever
it means there. -/
structure Glyph where
  literal : Bool
  char : Char
deriving DecidableEq, Repr

/-- A character without a backslash in front of it. -/
def Glyph.bare (c : Char) : Glyph :=
  { literal := false, char := c }

/-- Reads a text from the left.  A backslash at its end makes nothing literal. -/
def glyphs? : List Char → Option (List Glyph)
  | [] => some []
  | '\\' :: c :: rest => (glyphs? rest).map ({ literal := true, char := c } :: ·)
  | c :: rest => if c = '\\' then none else (glyphs? rest).map (.bare c :: ·)

/-- The pattern that the characters between slashes stand for. -/
def ofGlyphs (body : List Glyph) : Pattern :=
  Literal.pattern
    { atStart := body.contains (.bare '^')
      needle := (body.filter fun g => g ≠ .bare '^' ∧ g ≠ .bare '$').map Glyph.char
      atEnd := body.contains (.bare '$') }

theorem glyphs?_bare {c : Char} (h : c ≠ '\\') (rest : List Char) :
    glyphs? (c :: rest) = (glyphs? rest).map (.bare c :: ·) := by
  rw [glyphs?, if_neg h]
  intro _ _ hc
  exact absurd hc h

/-! ## Writing -/

/-- A character that does not stand for itself between slashes. -/
def isSpecial (c : Char) : Bool :=
  isMeta c || c == '/'

/-- A character of a needle, as it is written between slashes. -/
def Glyph.ofChar (c : Char) : Glyph :=
  { literal := isSpecial c, char := c }

def opening : Anchor → List Glyph
  | .startsWith | .exact => [.bare '^']
  | .contains | .endsWith => []

def ending : Anchor → List Glyph
  | .endsWith | .exact => [.bare '$']
  | .contains | .startsWith => []

/-- What stands between the slashes of a pattern. -/
def glyphs (p : Pattern) : List Glyph :=
  opening p.anchor ++ (p.needle.toList.map .ofChar ++ ending p.anchor)

theorem escapeSlashes_escape_cons (c : Char) (needle : List Char) :
    escapeSlashes (escape (c :: needle)) =
      if isSpecial c then '\\' :: c :: escapeSlashes (escape needle)
      else c :: escapeSlashes (escape needle) := by
  rw [escape, isSpecial]
  by_cases hmeta : isMeta c = true
  · have hslash : c ≠ '/' := by
      intro hc
      rw [hc] at hmeta
      cases hmeta
    rw [if_pos hmeta, hmeta, escapeSlashes, if_neg (by decide), escapeSlashes, if_neg hslash]
    rfl
  · rw [if_neg hmeta, Bool.eq_false_iff.mpr hmeta, escapeSlashes, Bool.false_or]
    simp only [beq_iff_eq]

/-- The needle, escaped twice, is read as it is written. -/
theorem glyphs?_escape_append (needle rest : List Char) :
    glyphs? (escapeSlashes (escape needle) ++ rest) =
      (glyphs? rest).map (needle.map .ofChar ++ ·) := by
  induction needle with
  | nil => simp [escape, escapeSlashes]
  | cons c needle ih =>
      rw [escapeSlashes_escape_cons, List.map_cons, Glyph.ofChar]
      by_cases hspecial : isSpecial c = true
      · rw [if_pos hspecial, List.cons_append, List.cons_append, glyphs?, ih, Option.map_map,
          hspecial]
        rfl
      · have hbackslash : c ≠ '\\' := by
          intro hc
          rw [hc] at hspecial
          exact hspecial rfl
        rw [if_neg hspecial, List.cons_append, glyphs?_bare hbackslash, ih, Option.map_map,
          Bool.eq_false_iff.mpr hspecial]
        rfl

theorem escapeSlashes_regexSource (p : Pattern) :
    escapeSlashes p.regexSource =
      (opening p.anchor).map Glyph.char ++
        (escapeSlashes (escape p.needle.toList) ++ (ending p.anchor).map Glyph.char) := by
  obtain ⟨needle, anchor⟩ := p
  cases anchor with
  | contains => simp [regexSource, opening, ending]
  | startsWith => simp [regexSource, opening, ending, escapeSlashes, Glyph.bare]
  | endsWith => simp [regexSource, opening, ending, escapeSlashes_append, escapeSlashes, Glyph.bare]
  | exact => simp [regexSource, opening, ending, escapeSlashes_append, escapeSlashes, Glyph.bare]

theorem glyphs?_delimited_tail (p : Pattern) :
    ∃ text, p.delimited = '/' :: text ∧ glyphs? text = some (p.glyphs ++ [.bare '/']) := by
  refine ⟨escapeSlashes p.regexSource ++ ['/'], rfl, ?_⟩
  have hslash : glyphs? ['/'] = some [.bare '/'] := rfl
  have hdollar : glyphs? ['$', '/'] = some [.bare '$', .bare '/'] := rfl
  have hcaret : ∀ rest, glyphs? ('^' :: rest) = (glyphs? rest).map (.bare '^' :: ·) :=
    glyphs?_bare (by decide)
  obtain ⟨needle, anchor⟩ := p
  rw [escapeSlashes_regexSource, List.append_assoc, List.append_assoc]
  cases anchor with
  | contains =>
      show glyphs? (escapeSlashes (escape needle.toList) ++ ['/']) = _
      rw [glyphs?_escape_append, hslash]
      simp [glyphs, opening, ending]
  | startsWith =>
      show glyphs? ('^' :: (escapeSlashes (escape needle.toList) ++ ['/'])) = _
      rw [hcaret, glyphs?_escape_append, hslash]
      simp [glyphs, opening, ending]
  | endsWith =>
      show glyphs? (escapeSlashes (escape needle.toList) ++ ['$', '/']) = _
      rw [glyphs?_escape_append, hdollar]
      simp [glyphs, opening, ending]
  | exact =>
      show glyphs? ('^' :: (escapeSlashes (escape needle.toList) ++ ['$', '/'])) = _
      rw [hcaret, glyphs?_escape_append, hdollar]
      simp [glyphs, opening, ending]

/-! ## Marks -/

theorem ofChar_ne_bare {d : Char} (h : isSpecial d = true) (c : Char) :
    Glyph.ofChar c ≠ .bare d := by
  intro hc
  rw [Glyph.ofChar, Glyph.bare, Glyph.mk.injEq] at hc
  rw [hc.2, h] at hc
  cases hc.1

theorem bare_not_mem_needle {d : Char} (h : isSpecial d = true) (needle : List Char) :
    Glyph.bare d ∉ needle.map .ofChar := by
  intro hmem
  obtain ⟨c, _, hc⟩ := List.mem_map.mp hmem
  exact ofChar_ne_bare h c hc

theorem eq_of_mem_opening {anchor : Anchor} {g : Glyph} (h : g ∈ opening anchor) :
    g = .bare '^' := by
  cases anchor with
  | contains | endsWith => cases h
  | startsWith | exact => exact List.mem_singleton.mp h

theorem eq_of_mem_ending {anchor : Anchor} {g : Glyph} (h : g ∈ ending anchor) :
    g = .bare '$' := by
  cases anchor with
  | contains | startsWith => cases h
  | endsWith | exact => exact List.mem_singleton.mp h

theorem length_opening_le (anchor : Anchor) : (opening anchor).length ≤ 1 := by
  cases anchor <;> simp [opening]

theorem length_ending_le (anchor : Anchor) : (ending anchor).length ≤ 1 := by
  cases anchor <;> simp [ending]

/-- What is not literal between the slashes means something at one of the two ends only. -/
theorem mem_glyphs_cases {p : Pattern} {g : Glyph} (h : g ∈ p.glyphs) :
    g = .bare '^' ∨ g = .bare '$' ∨ ∃ c, g = Glyph.ofChar c := by
  rw [glyphs, List.mem_append, List.mem_append] at h
  rcases h with h | h | h
  · exact Or.inl (eq_of_mem_opening h)
  · obtain ⟨c, _, hc⟩ := List.mem_map.mp h
    exact Or.inr (Or.inr ⟨c, hc.symm⟩)
  · exact Or.inr (Or.inl (eq_of_mem_ending h))

theorem caret_first {p : Pattern} {i : Nat} (h : p.glyphs[i]? = some (.bare '^')) : i = 0 := by
  have hlength := length_opening_le p.anchor
  by_cases hi : i < (opening p.anchor).length
  · omega
  · rw [glyphs, List.getElem?_append_right (Nat.le_of_not_lt hi)] at h
    rcases List.mem_append.mp (List.mem_of_getElem? h) with hmem | hmem
    · exact absurd hmem (bare_not_mem_needle rfl _)
    · exact absurd (eq_of_mem_ending hmem) (by decide)

theorem dollar_last {p : Pattern} {i : Nat} (h : p.glyphs[i]? = some (.bare '$')) :
    i + 1 = p.glyphs.length := by
  have hlength := length_ending_le p.anchor
  obtain ⟨hlt, _⟩ := List.getElem?_eq_some_iff.mp h
  rw [glyphs, ← List.append_assoc] at h hlt ⊢
  by_cases hi : i < (opening p.anchor ++ p.needle.toList.map Glyph.ofChar).length
  · rw [List.getElem?_append_left hi] at h
    rcases List.mem_append.mp (List.mem_of_getElem? h) with hmem | hmem
    · exact absurd (eq_of_mem_opening hmem) (by decide)
    · exact absurd hmem (bare_not_mem_needle rfl _)
  · rw [List.length_append] at hlt ⊢
    omega

theorem filter_glyphs (p : Pattern) :
    (p.glyphs.filter fun g => g ≠ .bare '^' ∧ g ≠ .bare '$') = p.needle.toList.map .ofChar := by
  have hopening : ((opening p.anchor).filter fun g => g ≠ .bare '^' ∧ g ≠ .bare '$') = [] :=
    List.filter_eq_nil_iff.mpr fun g hmem => by simp [eq_of_mem_opening hmem]
  have hending : ((ending p.anchor).filter fun g => g ≠ .bare '^' ∧ g ≠ .bare '$') = [] :=
    List.filter_eq_nil_iff.mpr fun g hmem => by simp [eq_of_mem_ending hmem]
  have hneedle : ((p.needle.toList.map Glyph.ofChar).filter
      fun g => g ≠ .bare '^' ∧ g ≠ .bare '$') = p.needle.toList.map .ofChar := by
    refine List.filter_eq_self.mpr fun g hmem => ?_
    obtain ⟨c, _, hc⟩ := List.mem_map.mp hmem
    rw [← hc]
    exact decide_eq_true ⟨ofChar_ne_bare rfl c, ofChar_ne_bare rfl c⟩
  rw [glyphs, List.filter_append, List.filter_append, hopening, hending, hneedle, List.nil_append,
    List.append_nil]

/-- The pattern is told from what stands between the slashes. -/
theorem ofGlyphs_glyphs (p : Pattern) : ofGlyphs p.glyphs = p := by
  have hcaret : Glyph.bare '^' ∉ p.needle.toList.map .ofChar := bare_not_mem_needle rfl _
  have hdollar : Glyph.bare '$' ∉ p.needle.toList.map .ofChar := bare_not_mem_needle rfl _
  have hchars : (p.needle.toList.map Glyph.ofChar).map Glyph.char = p.needle.toList := by
    simp [Glyph.ofChar, Function.comp_def]
  rw [ofGlyphs, filter_glyphs, hchars]
  obtain ⟨needle, anchor⟩ := p
  have hne : Glyph.bare '^' ≠ .bare '$' := by decide
  cases anchor <;>
    simp [Literal.pattern, glyphs, opening, ending, hcaret, hdollar, hne, hne.symm]

/-- The form of a pattern between slashes, read from its first slash on.  The first slash that is
not literal is the last character; between the two nothing means anything but a mark for the start of
the text, which comes first, and one for its end, which comes last; and what is read there is the
pattern, so no other one has this form. -/
theorem delimited_unambiguous (p : Pattern) :
    ∃ text body, p.delimited = '/' :: text ∧ glyphs? text = some (body ++ [.bare '/']) ∧
      .bare '/' ∉ body ∧
      (∀ i, body[i]? = some (.bare '^') → i = 0) ∧
      (∀ i, body[i]? = some (.bare '$') → i + 1 = body.length) ∧
      (∀ g ∈ body, isMeta g.char = true → g.literal = true ∨ g = .bare '^' ∨ g = .bare '$') ∧
      ofGlyphs body = p ∧ ∀ q : Pattern, q.delimited = p.delimited → q = p := by
  obtain ⟨text, hdelimited, htext⟩ := glyphs?_delimited_tail p
  refine ⟨text, p.glyphs, hdelimited, htext, ?_, fun _ => caret_first, fun _ => dollar_last, ?_,
    ofGlyphs_glyphs p, ?_⟩
  · intro hmem
    rcases mem_glyphs_cases hmem with h | h | ⟨c, h⟩
    · cases h
    · cases h
    · exact ofChar_ne_bare rfl c h.symm
  · intro g hmem hmeta
    rcases mem_glyphs_cases hmem with h | h | ⟨c, h⟩
    · exact Or.inr (Or.inl h)
    · exact Or.inr (Or.inr h)
    · subst h
      have hspecial : isSpecial c = true := Bool.or_eq_true_iff.mpr (Or.inl hmeta)
      exact Or.inl hspecial
  · intro q hq
    obtain ⟨other, hother, hread⟩ := glyphs?_delimited_tail q
    rw [hother, hdelimited, List.cons.injEq] at hq
    rw [hq.2, htext, Option.some.injEq] at hread
    rw [← ofGlyphs_glyphs q, ← List.append_cancel_right hread, ofGlyphs_glyphs]

end Pattern
end RecordFilter
