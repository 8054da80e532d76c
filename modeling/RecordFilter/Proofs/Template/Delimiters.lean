/-
Where the delimiters of a template stand.  A delimiter is said of three parts of a template, the
text in front of it, its own text and the text behind it: no literal is open behind the text in
front, and the middle part is a parenthesis, or a keyword next to which there is no ASCII word
character.

`cutsTo_cutFrom` describes a cut by its first gap.  The text behind some front part, which leaves no
literal open, is a gap up to its end, or up to the quote of a literal that has no end, or up to the
first delimiter, behind which the rest is cut.  Whatever walks over the pieces of a template from
the left needs these three cases and nothing else.
-/
import RecordFilter.Proofs.Template.Cutting
import RecordFilter.Template.Quote

namespace RecordFilter

namespace Quote

/-! ## Literals -/

theorem step_of_not_quote {c : Char} (h : isQuote c = false) : step none c = none := by
  simp only [step, h, Bool.false_eq_true, if_false]

theorem step_of_quote {c : Char} (h : isQuote c = true) : step none c = some c := by
  simp only [step, h, if_true]

theorem step_of_ne {q c : Char} (h : c ≠ q) : step (some q) c = some q := by
  simp only [step, h, if_false]

theorem step_self (q : Char) : step (some q) q = none := by
  simp only [step, if_true]

/-- A literal stays open over a text without its quote. -/
theorem after_of_not_mem {q : Char} {text : List Char} (h : q ∉ text) :
    after (some q) text = some q := by
  induction text with
  | nil => rfl
  | cons c rest ih =>
      have hne : c ≠ q := fun heq => h (heq ▸ List.mem_cons_self)
      have hrest : q ∉ rest := fun hmem => h (List.mem_cons_of_mem c hmem)
      rw [after_cons, step_of_ne hne, ih hrest]

/-- A literal ends at the next quote of its kind. -/
theorem after_literal {q : Char} (hq : isQuote q = true) {content : List Char}
    (h : q ∉ content) : after none (q :: (content ++ [q])) = none := by
  rw [after_cons, step_of_quote hq, after_append, after_of_not_mem h, after_cons, step_self,
    after_nil]

theorem after_open {q : Char} (hq : isQuote q = true) {content : List Char} (h : q ∉ content) :
    after none (q :: content) = some q := by
  rw [after_cons, step_of_quote hq, after_of_not_mem h]

end Quote

namespace Template

open Text

/-! ## Delimiters -/

/-- A text is a delimiter between the characters next to it. -/
inductive Delimiter (before : Option Char) : TokenKind → List Char → Option Char → Prop where
  | opening {behind : Option Char} : Delimiter before .openParen ['('] behind
  | closing {behind : Option Char} : Delimiter before .closeParen [')'] behind
  | and {word : List Char} {behind : Option Char}
      (hword : sameLetters word ['a', 'n', 'd'] = true) (hbefore : isAsciiWordAt before = false)
      (hbehind : isAsciiWordAt behind = false) : Delimiter before .and word behind
  | or {word : List Char} {behind : Option Char}
      (hword : sameLetters word ['o', 'r'] = true) (hbefore : isAsciiWordAt before = false)
      (hbehind : isAsciiWordAt behind = false) : Delimiter before .or word behind

/-- A template of these three parts has a delimiter in the middle. -/
structure Delimits (kind : TokenKind) (left word right : List Char) : Prop where
  unquoted : Quote.after none left = none
  delimiter : Delimiter left.getLast? kind word right.head?

/-- The delimiter at the start of a text, and how many characters it has. -/
def delimiterAt? (before : Option Char) : List Char → Option (TokenKind × Nat)
  | [] => none
  | c :: rest =>
      match paren? c with
      | some kind => some (kind, 1)
      | none => (keyword? before (c :: rest)).map fun (kind, more) => (kind, more + 1)

/-- The letters of a word that is written in any case. -/
theorem exists_cons_of_sameLetters {name word : List Char} {c : Char}
    (h : sameLetters name (c :: word) = true) :
    ∃ d rest, name = d :: rest ∧ lowerAscii d = lowerAscii c ∧ rest.length = word.length := by
  have hlength := length_eq_of_sameLetters h
  cases name with
  | nil => cases hlength
  | cons d rest =>
      simp only [sameLetters, lower, List.map_cons, beq_iff_eq, List.cons.injEq] at h
      exact ⟨d, rest, rfl, h.1, Nat.succ.inj hlength⟩

theorem all_word_of_and {word : List Char} (h : sameLetters word ['a', 'n', 'd'] = true) :
    word.all isAsciiWord = true :=
  all_word_of_sameLetters h (by decide)

theorem all_word_of_or {word : List Char} (h : sameLetters word ['o', 'r'] = true) :
    word.all isAsciiWord = true :=
  all_word_of_sameLetters h (by decide)

theorem delimiterAt?_word {before : Option Char} {c : Char} {rest : List Char}
    (hc : isAsciiWord c = true) :
    delimiterAt? before (c :: rest) =
      (keyword? before (c :: rest)).map fun found => (found.1, found.2 + 1) := by
  rw [delimiterAt?, paren?_of_isAsciiWord hc]

/-- What stands at the start of a text decides which delimiter it starts with. -/
theorem Delimiter.delimiterAt? {before : Option Char} {kind : TokenKind} {word behind : List Char}
    (h : Delimiter before kind word behind.head?) :
    Template.delimiterAt? before (word ++ behind) = some (kind, word.length) := by
  cases h with
  | opening => rfl
  | closing => rfl
  | and hword hbefore hbehind =>
      have hlength := length_eq_of_sameLetters hword
      have halone : standsAlone ['a', 'n', 'd'] before (word ++ behind) = true :=
        standsAlone_iff.mpr ⟨word, behind, rfl, hword, hbefore, hbehind⟩
      have hall := all_word_of_and hword
      obtain ⟨c, rest, rfl, _, _⟩ := exists_cons_of_sameLetters hword
      rw [List.all_cons, Bool.and_eq_true] at hall
      rw [hlength, List.cons_append, delimiterAt?_word hall.1]
      rw [List.cons_append] at halone
      rw [keyword?, if_pos halone]
      rfl
  | or hword hbefore hbehind =>
      have hlength := length_eq_of_sameLetters hword
      have halone : standsAlone ['o', 'r'] before (word ++ behind) = true :=
        standsAlone_iff.mpr ⟨word, behind, rfl, hword, hbefore, hbehind⟩
      have hall := all_word_of_or hword
      obtain ⟨c, rest, rfl, hc, _⟩ := exists_cons_of_sameLetters hword
      rw [List.all_cons, Bool.and_eq_true] at hall
      -- The two keywords start with different letters.
      have hnot : ¬ standsAlone ['a', 'n', 'd'] before (c :: (rest ++ behind)) = true := by
        intro hand
        obtain ⟨name, behind', htext, hname, _, _⟩ := standsAlone_iff.mp hand
        obtain ⟨d, tail, rfl, hd, _⟩ := exists_cons_of_sameLetters hname
        obtain rfl : c = d := (List.cons.inj htext).1
        rw [hc] at hd
        exact absurd hd (by decide)
      rw [hlength, List.cons_append, delimiterAt?_word hall.1]
      rw [List.cons_append] at halone
      rw [keyword?, if_neg hnot, if_pos halone]
      rfl

theorem Delimiter.unique {before : Option Char} {kind kind' : TokenKind}
    {word word' behind behind' : List Char} (h : Delimiter before kind word behind.head?)
    (h' : Delimiter before kind' word' behind'.head?)
    (htext : word ++ behind = word' ++ behind') :
    kind = kind' ∧ word = word' ∧ behind = behind' := by
  have hat := h.delimiterAt?
  rw [htext, h'.delimiterAt?, Option.some.injEq, Prod.mk.injEq] at hat
  exact ⟨hat.1.symm, List.append_inj htext hat.2.symm⟩

theorem Delimiter.ne_nil {before behind : Option Char} {kind : TokenKind} {word : List Char}
    (h : Delimiter before kind word behind) : word ≠ [] := by
  cases h with
  | opening => exact List.cons_ne_nil _ _
  | closing => exact List.cons_ne_nil _ _
  | and hword _ _ =>
      obtain ⟨c, rest, rfl, _, _⟩ := exists_cons_of_sameLetters hword
      exact List.cons_ne_nil c rest
  | or hword _ _ =>
      obtain ⟨c, rest, rfl, _, _⟩ := exists_cons_of_sameLetters hword
      exact List.cons_ne_nil c rest

/-- A delimiter is one character long or a word. -/
theorem Delimiter.kind_ne_fragment {before behind : Option Char} {kind : TokenKind}
    {word : List Char} (h : Delimiter before kind word behind) : kind ≠ .fragment := by
  cases h <;> exact TokenKind.noConfusion

theorem Delimiter.length_or_word {before behind : Option Char} {kind : TokenKind}
    {word : List Char} (h : Delimiter before kind word behind) :
    word.length = 1 ∨ word.all isAsciiWord = true := by
  cases h with
  | opening => exact Or.inl rfl
  | closing => exact Or.inl rfl
  | and hword _ _ => exact Or.inr (all_word_of_and hword)
  | or hword _ _ => exact Or.inr (all_word_of_or hword)

/-- There is no quote in a delimiter, so behind it no literal is open. -/
theorem Delimiter.after_eq_none {before behind : Option Char} {kind : TokenKind} {word : List Char}
    (h : Delimiter before kind word behind) : Quote.after none word = none := by
  have hwords : ∀ {word : List Char}, word.all isAsciiWord = true →
      Quote.after none word = none := by
    intro word hall
    induction word with
    | nil => rfl
    | cons c rest ih =>
        rw [List.all_cons, Bool.and_eq_true] at hall
        rw [Quote.after_cons, Quote.step_of_not_quote (isQuote_of_isAsciiWord hall.1), ih hall.2]
  cases h with
  | opening => rfl
  | closing => rfl
  | and hword _ _ => exact hwords (all_word_of_and hword)
  | or hword _ _ => exact hwords (all_word_of_or hword)

theorem Delimits.after_eq_none {kind : TokenKind} {left word right : List Char}
    (h : Delimits kind left word right) : Quote.after none (left ++ word) = none := by
  rw [Quote.after_append, h.unquoted, h.delimiter.after_eq_none]

/-! ## Texts without delimiters -/

/-- No delimiter starts behind this text in front of that one. -/
def NoneAt (left right : List Char) : Prop :=
  ∀ kind word behind, right = word ++ behind → ¬ Delimits kind left word behind

/-- No delimiter starts in the middle part. -/
def Undelimited (left gap right : List Char) : Prop :=
  ∀ front back, gap = front ++ back → back ≠ [] → NoneAt (left ++ front) (back ++ right)

theorem undelimited_nil (left right : List Char) : Undelimited left [] right := by
  intro front back hgap hback
  exact absurd (List.append_eq_nil_iff.mp hgap.symm).2 hback

theorem undelimited_append {left gap gap' right : List Char}
    (h : Undelimited left gap (gap' ++ right))
    (h' : Undelimited (left ++ gap) gap' right) : Undelimited left (gap ++ gap') right := by
  intro front back hgap hback
  rcases List.append_eq_append_iff.mp hgap with ⟨middle, hfront, hmiddle⟩ | ⟨middle, hfront, hmiddle⟩
  · have hnone := h' middle back hmiddle hback
    rw [List.append_assoc, ← hfront] at hnone
    exact hnone
  · cases middle with
    | nil =>
        have hnone := h' [] gap' rfl (by rw [← List.nil_append gap', ← hmiddle]; exact hback)
        rw [List.append_nil, hfront, List.append_nil] at hnone
        rw [hmiddle]
        exact hnone
    | cons c middle =>
        have hnone := h front (c :: middle) hfront (List.cons_ne_nil c middle)
        rw [hmiddle, List.append_assoc]
        exact hnone

theorem undelimited_singleton {left right : List Char} {c : Char} (h : NoneAt left (c :: right)) :
    Undelimited left [c] right := by
  intro front back hgap hback
  cases front with
  | nil =>
      obtain rfl : [c] = back := hgap
      rw [List.append_nil]
      exact h
  | cons d front =>
      have hnil : [] = front ++ back := (List.cons.inj hgap).2
      exact absurd (List.append_eq_nil_iff.mp hnil.symm).2 hback

theorem Undelimited.of_append {left gap gap' right : List Char}
    (h : Undelimited left (gap ++ gap') right) :
    Undelimited left gap (gap' ++ right) ∧ Undelimited (left ++ gap) gap' right := by
  constructor
  · intro front back hgap hback
    have hnone := h front (back ++ gap') (by rw [hgap, List.append_assoc])
      (List.append_ne_nil_of_left_ne_nil hback gap')
    rw [List.append_assoc] at hnone
    exact hnone
  · intro front back hgap hback
    have hnone := h (gap ++ front) back (by rw [hgap, List.append_assoc]) hback
    rw [← List.append_assoc] at hnone
    exact hnone

theorem noneAt_of_delimiterAt? {left right : List Char}
    (h : delimiterAt? left.getLast? right = none) : NoneAt left right := by
  rintro kind word behind rfl hdelimits
  rw [hdelimits.delimiter.delimiterAt?] at h
  cases h

theorem noneAt_of_quoted {left : List Char} {q : Char} (h : Quote.after none left = some q)
    (right : List Char) : NoneAt left right := by
  rintro kind word behind rfl hdelimits
  rw [hdelimits.unquoted] at h
  cases h

theorem delimiterAt?_of_quote {before : Option Char} {c : Char} (hc : Quote.isQuote c = true)
    (rest : List Char) : delimiterAt? before (c :: rest) = none := by
  have hword : isAsciiWord c = false := by
    refine Bool.eq_false_iff.mpr fun hword => ?_
    rw [isQuote_of_isAsciiWord hword] at hc
    cases hc
  rw [delimiterAt?, paren?_of_isQuote hc]
  simp only [keyword?_of_apart (apart_cons hword rest), Option.map_none]

/-- Inside a delimiter there is no other one. -/
theorem Delimits.noneAt_inside {kind : TokenKind} {left front back right : List Char}
    (h : Delimits kind left (front ++ back) right) (hfront : front ≠ []) (hback : back ≠ []) :
    NoneAt (left ++ front) (back ++ right) := by
  apply noneAt_of_delimiterAt?
  have hall : (front ++ back).all isAsciiWord = true := by
    rcases h.delimiter.length_or_word with hone | hall
    · have hpos := List.length_pos_iff.mpr hfront
      have hpos' := List.length_pos_iff.mpr hback
      rw [List.length_append] at hone
      omega
    · exact hall
  rw [List.all_append, Bool.and_eq_true] at hall
  have hbefore : isAsciiWordAt (left ++ front).getLast? = true := by
    rw [List.getLast?_append_of_ne_nil left hfront, List.getLast?_eq_some_getLast hfront]
    exact List.all_eq_true.mp hall.1 _ (List.getLast_mem hfront)
  cases back with
  | nil => exact absurd rfl hback
  | cons c back =>
      rw [List.all_cons, Bool.and_eq_true] at hall
      rw [List.cons_append, delimiterAt?_word hall.2.1, keyword?_of_wordBefore hbefore]
      rfl

/-! ## Cutting over literals and keywords -/

theorem cutFrom_in_literal {q c : Char} (hne : c ≠ q) (before : Option Char)
    (tail rest : List Char) :
    cutFrom 0 before (some (q, tail)) (c :: rest) =
      (cutFrom 0 (some c) (some (q, tail)) rest).pushChar c := by
  rw [cutFrom, if_neg hne]

/-- Behind the end of a literal the text is cut as if the literal stood in front of it. -/
theorem cutFrom_literal {q : Char} {content : List Char} (h : q ∉ content) (before : Option Char)
    (tail rest : List Char) :
    cutFrom 0 before (some (q, tail)) (content ++ q :: rest) =
      (cutFrom 0 (some q) none rest).push (content ++ [q]) := by
  induction content generalizing before with
  | nil =>
      rw [List.nil_append, cutFrom, if_pos rfl]
      rfl
  | cons c content ih =>
      have hne : c ≠ q := fun heq => h (heq ▸ List.mem_cons_self)
      rw [List.cons_append, cutFrom_in_literal hne, ih fun hmem => h (List.mem_cons_of_mem c hmem)]
      rfl

theorem cutFrom_open {q : Char} {text : List Char} (h : q ∉ text) (before : Option Char)
    (tail : List Char) :
    cutFrom 0 before (some (q, tail)) text =
      Cut.push text { pieces := [], unclosed := some tail } := by
  induction text generalizing before with
  | nil => rfl
  | cons c rest ih =>
      have hne : c ≠ q := fun heq => h (heq ▸ List.mem_cons_self)
      rw [cutFrom_in_literal hne, ih fun hmem => h (List.mem_cons_of_mem c hmem)]
      rfl

/-- The letters that belong to a keyword already are passed over. -/
theorem cutFrom_taken (front text rest : List Char) (hfront : front ≠ []) :
    cutFrom text.length front.getLast? none (text ++ rest) =
      cutFrom 0 (front ++ text).getLast? none rest := by
  induction text generalizing front with
  | nil => rw [List.append_nil]; rfl
  | cons c text ih =>
      have hnext := ih (front ++ [c])
        (List.append_ne_nil_of_right_ne_nil front (List.cons_ne_nil c []))
      rw [List.getLast?_append_of_ne_nil front (List.cons_ne_nil c []), List.append_assoc] at hnext
      rw [List.length_cons, List.cons_append, cutFrom]
      exact hnext

/-! ## The first gap of a cut -/

/-- A text behind another one is cut like this: it has no delimiter, or a literal in it is left
open, or a delimiter follows its first gap, and the text behind the delimiter is cut in turn. -/
inductive CutsTo : List Char → List Char → Cut → Prop where
  | last {left gap : List Char} (hclosed : Quote.after none (left ++ gap) = none)
      (hgap : Undelimited left gap []) :
      CutsTo left gap (Cut.push gap { pieces := [], unclosed := none })
  | opened {left gap tail : List Char} {q : Char} (hclosed : Quote.after none (left ++ gap) = none)
      (hquote : Quote.isQuote q = true) (htail : q ∉ tail)
      (hgap : Undelimited left gap (q :: tail)) :
      CutsTo left (gap ++ q :: tail)
        (Cut.push (gap ++ q :: tail) { pieces := [], unclosed := some (q :: tail) })
  | delimiter {left gap word rest : List Char} {kind : TokenKind} {cut : Cut}
      (hgap : Undelimited left gap (word ++ rest)) (hdelimits : Delimits kind (left ++ gap) word rest)
      (hrest : CutsTo (left ++ gap ++ word) rest cut) :
      CutsTo left (gap ++ (word ++ rest)) ((cut.pushDelimiter kind word).push gap)

/-- A text without delimiters in front belongs to the first gap. -/
theorem CutsTo.push {left front right : List Char} {cut : Cut} (h : CutsTo (left ++ front) right cut)
    (hfront : Undelimited left front right) : CutsTo left (front ++ right) (cut.push front) := by
  cases h with
  | last hclosed hgap =>
      rw [← Cut.push_append]
      refine .last (by rw [← List.append_assoc]; exact hclosed) (undelimited_append ?_ hgap)
      rw [List.append_nil]
      exact hfront
  | opened hclosed hquote htail hgap =>
      rw [← Cut.push_append, ← List.append_assoc]
      exact .opened (by rw [← List.append_assoc]; exact hclosed) hquote htail
        (undelimited_append hfront hgap)
  | delimiter hgap hdelimits hrest =>
      rw [← Cut.push_append, ← List.append_assoc]
      rw [List.append_assoc left front] at hdelimits hrest
      exact .delimiter (undelimited_append hfront hgap) hdelimits hrest

theorem CutsTo.delimiter_first {kind : TokenKind} {left word rest : List Char} {cut : Cut}
    (hdelimits : Delimits kind left word rest) (hrest : CutsTo (left ++ word) rest cut) :
    CutsTo left (word ++ rest) (cut.pushDelimiter kind word) := by
  have hdelimits' : Delimits kind (left ++ []) word rest := by
    rw [List.append_nil]
    exact hdelimits
  have hrest' : CutsTo (left ++ [] ++ word) rest cut := by
    rw [List.append_nil]
    exact hrest
  exact CutsTo.delimiter (undelimited_nil left (word ++ rest)) hdelimits' hrest'

/-- No delimiter starts in a literal. -/
theorem undelimited_literal {left content rest : List Char} {q : Char}
    (hleft : Quote.after none left = none) (hq : Quote.isQuote q = true) (hcontent : q ∉ content) :
    Undelimited left (q :: (content ++ [q])) rest := by
  intro front back hliteral hback
  cases front with
  | nil =>
      obtain rfl : q :: (content ++ [q]) = back := hliteral
      rw [List.append_nil, List.cons_append]
      exact noneAt_of_delimiterAt? (delimiterAt?_of_quote hq _)
  | cons d front =>
      obtain ⟨rfl, htail⟩ := List.cons.inj hliteral
      -- What stands in front of the last quote has no quote of the kind in it.
      have hfront : q ∉ front := by
        intro hmem
        have hlast : front ++ back = content ++ [q] := htail.symm
        obtain ⟨init, hinit⟩ : ∃ init, back = init ++ [q] := by
          obtain ⟨init, c, rfl⟩ : ∃ init c, back = init ++ [c] :=
            ⟨_, _, (List.dropLast_concat_getLast hback).symm⟩
          rw [← List.append_assoc] at hlast
          obtain ⟨_, hc⟩ := List.append_inj' hlast rfl
          exact ⟨init, by rw [hc]⟩
        rw [hinit, ← List.append_assoc] at hlast
        obtain ⟨hcontent', _⟩ := List.append_inj' hlast rfl
        exact hcontent (hcontent' ▸ List.mem_append_left init hmem)
      refine noneAt_of_quoted (q := q) ?_ _
      rw [Quote.after_append, hleft, Quote.after_open hq hfront]

theorem delimits_of_paren {left rest : List Char} {c : Char} {kind : TokenKind}
    (hleft : Quote.after none left = none) (h : paren? c = some kind) :
    Delimits kind left [c] rest := by
  refine ⟨hleft, ?_⟩
  rw [paren?] at h
  split at h
  · rename_i hc
    cases h
    rw [hc]
    exact .opening
  · split at h
    · rename_i hc
      cases h
      rw [hc]
      exact .closing
    · cases h

theorem exists_keyword {left text : List Char} {kind : TokenKind} {more : Nat}
    (hleft : Quote.after none left = none) (h : keyword? left.getLast? text = some (kind, more)) :
    ∃ word rest, text = word ++ rest ∧ word.length = more + 1 ∧ Delimits kind left word rest := by
  rw [keyword?] at h
  split at h
  · rename_i halone
    cases h
    obtain ⟨word, rest, rfl, hword, hbefore, hbehind⟩ := standsAlone_iff.mp halone
    exact ⟨word, rest, rfl, length_eq_of_sameLetters hword, hleft, .and hword hbefore hbehind⟩
  · split at h
    · rename_i halone
      cases h
      obtain ⟨word, rest, rfl, hword, hbefore, hbehind⟩ := standsAlone_iff.mp halone
      exact ⟨word, rest, rfl, length_eq_of_sameLetters hword, hleft, .or hword hbefore hbehind⟩
    · cases h

section

variable {left rest : List Char}

/-- A literal that ends belongs to the first gap. -/
theorem cutsTo_literal {content : List Char} {q : Char} (hleft : Quote.after none left = none)
    (hquote : Quote.isQuote q = true) (hcontent : q ∉ content)
    (hnext : CutsTo (left ++ q :: (content ++ [q])) rest
      (cutFrom 0 (left ++ q :: (content ++ [q])).getLast? none rest)) :
    CutsTo left (q :: (content ++ q :: rest))
      (cutFrom 0 left.getLast? none (q :: (content ++ q :: rest))) := by
  have hlast : (left ++ q :: (content ++ [q])).getLast? = some q := by
    rw [← List.cons_append, ← List.append_assoc, List.getLast?_concat]
  have htext : q :: (content ++ q :: rest) = q :: (content ++ [q]) ++ rest := by
    rw [List.cons_append, List.append_assoc, List.singleton_append]
  rw [hlast] at hnext
  rw [cutFrom, if_pos hquote, cutFrom_literal hcontent, htext]
  exact hnext.push (undelimited_literal hleft hquote hcontent)

theorem cutsTo_open {tail : List Char} {q : Char} (hleft : Quote.after none left = none)
    (hquote : Quote.isQuote q = true) (htail : q ∉ tail) :
    CutsTo left (q :: tail) (cutFrom 0 left.getLast? none (q :: tail)) := by
  rw [cutFrom, if_pos hquote, cutFrom_open htail]
  exact @CutsTo.opened left [] tail q (by rw [List.append_nil]; exact hleft) hquote htail
    (undelimited_nil left _)

theorem cutsTo_paren {c : Char} {kind : TokenKind} (hleft : Quote.after none left = none)
    (hparen : paren? c = some kind)
    (hnext : CutsTo (left ++ [c]) rest (cutFrom 0 (left ++ [c]).getLast? none rest)) :
    CutsTo left (c :: rest) (cutFrom 0 left.getLast? none (c :: rest)) := by
  have hquote : Quote.isQuote c = false := by
    refine Bool.eq_false_iff.mpr fun hquote => ?_
    rw [paren?_of_isQuote hquote] at hparen
    cases hparen
  rw [List.getLast?_concat] at hnext
  rw [cutFrom, hquote, hparen]
  exact .delimiter_first (delimits_of_paren hleft hparen) hnext

/-- The letters of a keyword are passed over together. -/
theorem cutsTo_keyword {c : Char} {word : List Char} {kind : TokenKind}
    (hquote : Quote.isQuote c = false) (hparen : paren? c = none)
    (hkeyword : keyword? left.getLast? (c :: (word ++ rest)) = some (kind, word.length))
    (hdelimits : Delimits kind left (c :: word) rest)
    (hnext : CutsTo (left ++ c :: word) rest (cutFrom 0 (left ++ c :: word).getLast? none rest)) :
    CutsTo left (c :: (word ++ rest)) (cutFrom 0 left.getLast? none (c :: (word ++ rest))) := by
  have htaken := cutFrom_taken (left ++ [c]) word rest
    (List.append_ne_nil_of_right_ne_nil left (List.cons_ne_nil c []))
  rw [List.getLast?_concat, List.append_assoc, List.singleton_append] at htaken
  rw [cutFrom, hquote, hparen, hkeyword]
  simp only [Bool.false_eq_true, if_false, List.take_left]
  rw [htaken]
  exact .delimiter_first hdelimits hnext

/-- Any other character belongs to the first gap. -/
theorem cutsTo_char {c : Char} (hquote : Quote.isQuote c = false) (hparen : paren? c = none)
    (hkeyword : keyword? left.getLast? (c :: rest) = none)
    (hnext : CutsTo (left ++ [c]) rest (cutFrom 0 (left ++ [c]).getLast? none rest)) :
    CutsTo left (c :: rest) (cutFrom 0 left.getLast? none (c :: rest)) := by
  have hnone : NoneAt left (c :: rest) := by
    apply noneAt_of_delimiterAt?
    rw [delimiterAt?, hparen]
    simp only [hkeyword, Option.map_none]
  rw [List.getLast?_concat] at hnext
  rw [cutFrom, hquote, hparen, hkeyword]
  exact hnext.push (undelimited_singleton hnone)

end

/-- Behind a text that leaves no literal open, every text is cut at its first delimiter. -/
theorem cutsTo_cutFrom (left right : List Char) (hleft : Quote.after none left = none) :
    CutsTo left right (cutFrom 0 left.getLast? none right) := by
  match right with
  | [] => exact .last (by rw [List.append_nil]; exact hleft) (undelimited_nil left [])
  | c :: rest =>
      by_cases hquote : Quote.isQuote c = true
      · by_cases hmem : c ∈ rest
        · obtain ⟨content, behind, hsplit, hcontent⟩ := List.eq_append_cons_of_mem hmem
          have hshorter : behind.length < rest.length := by
            rw [hsplit, List.length_append, List.length_cons]
            omega
          have hclosed : Quote.after none (left ++ c :: (content ++ [c])) = none := by
            rw [Quote.after_append, hleft, Quote.after_literal hquote hcontent]
          rw [hsplit]
          exact cutsTo_literal hleft hquote hcontent (cutsTo_cutFrom _ behind hclosed)
        · exact cutsTo_open hleft hquote hmem
      · rw [Bool.not_eq_true] at hquote
        cases hparen : paren? c with
        | some kind =>
            have hdelimits := @delimits_of_paren left rest _ _ hleft hparen
            exact cutsTo_paren hleft hparen (cutsTo_cutFrom _ rest hdelimits.after_eq_none)
        | none =>
            cases hkeyword : keyword? left.getLast? (c :: rest) with
            | some found =>
                obtain ⟨kind, more⟩ := found
                obtain ⟨word, behind, htext, hlength, hdelimits⟩ := exists_keyword hleft hkeyword
                cases word with
                | nil => cases hlength
                | cons d word =>
                    obtain ⟨rfl, htail⟩ := List.cons.inj htext
                    have hrest : rest = word ++ behind := htail
                    have hshorter : behind.length < (c :: rest).length := by
                      rw [hrest, List.length_cons, List.length_append]
                      omega
                    obtain rfl : more = word.length := (Nat.succ.inj hlength).symm
                    rw [hrest] at hkeyword ⊢
                    exact cutsTo_keyword hquote hparen hkeyword hdelimits
                      (cutsTo_cutFrom _ behind hdelimits.after_eq_none)
            | none =>
                have hclosed : Quote.after none (left ++ [c]) = none := by
                  rw [Quote.after_append, hleft, Quote.after_cons, Quote.step_of_not_quote hquote,
                    Quote.after_nil]
                exact cutsTo_char hquote hparen hkeyword (cutsTo_cutFrom _ rest hclosed)
termination_by right.length
decreasing_by all_goals simp only [List.length_cons] at *; omega

end Template
end RecordFilter
