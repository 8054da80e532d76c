/-
Texts that lay lexemes out.  The lexemes of a template are what is left of it without the layout around
them, and they are told apart by what stands next to each other: a keyword ends where no word runs on,
and a fragment where a delimiter follows.  `LaidOut` says of a text that it is some lexemes one after
the other with any layout between them, where each of them would be a lexeme by itself.
`laidOut_iff_lexemes` says that these are the texts with those lexemes.  So a template can be laid out
anew without a look at how it is cut.

Whether a delimiter stands in a text depends on its own letters and on whether a word runs into it at
either side, by `delimits_iff_parted`.  This is why a fragment has no delimiter in it between any two
texts if it has none by itself, and the other way round: `delimits_within`.
-/
import RecordFilter.Proofs.Template.Delimiters

namespace RecordFilter

namespace Text

/-! ## Where a word runs on -/

/-- No word runs from the one text into the other. -/
def Parted (left right : List Char) : Prop :=
  isAsciiWordAt left.getLast? = true → isAsciiWordAt right.head? = false

section Parted

variable {left right : List Char}

theorem parted_of_head (h : isAsciiWordAt right.head? = false) : Parted left right :=
  fun _ => h

theorem parted_of_last (h : isAsciiWordAt left.getLast? = false) : Parted left right := by
  intro hword
  rw [h] at hword
  cases hword

theorem parted_append_left {part : List Char} (hne : part ≠ []) :
    Parted (left ++ part) right ↔ Parted part right := by
  rw [Parted, Parted, List.getLast?_append_of_ne_nil left hne]

theorem parted_append_right {part : List Char} (hne : part ≠ []) :
    Parted left (part ++ right) ↔ Parted left part := by
  rw [Parted, Parted, List.head?_append_of_ne_nil part hne]

theorem Parted.before_word (h : Parted left right) (hne : right ≠ [])
    (hword : right.all isAsciiWord = true) : isAsciiWordAt left.getLast? = false := by
  refine Bool.eq_false_iff.mpr fun hlast => ?_
  cases right with
  | nil => exact hne rfl
  | cons c rest =>
      have hc : isAsciiWord c = false := h hlast
      rw [List.all_cons, hc] at hword
      cases hword

theorem Parted.behind_word (h : Parted left right) (hne : left ≠ [])
    (hword : left.all isAsciiWord = true) : isAsciiWordAt right.head? = false := by
  refine h ?_
  rw [List.getLast?_eq_some_getLast hne]
  exact List.all_eq_true.mp hword _ (List.getLast_mem hne)

theorem isAsciiWord_of_isLayout {c : Char} (h : isLayout c = true) : isAsciiWord c = false :=
  isAsciiWord_of_isBlank (isBlank_of_isLayout h)

/-- With layout between two texts no word runs on. -/
theorem parted_layout_append {lay : List Char} (hlay : lay.all isLayout = true)
    (h : lay = [] → Parted left right) : Parted left (lay ++ right) := by
  cases lay with
  | nil => exact h rfl
  | cons c lay =>
      rw [List.all_cons, Bool.and_eq_true] at hlay
      exact parted_of_head (isAsciiWord_of_isLayout hlay.1)

theorem parted_append_layout {lay : List Char} (hlay : lay.all isLayout = true)
    (h : lay = [] → Parted left right) : Parted (left ++ lay) right := by
  by_cases hnil : lay = []
  · rw [hnil, List.append_nil]
    exact h hnil
  · rw [parted_append_left hnil]
    refine parted_of_last ?_
    rw [List.getLast?_eq_some_getLast hnil]
    exact isAsciiWord_of_isLayout (List.all_eq_true.mp hlay _ (List.getLast_mem hnil))

end Parted

end Text

namespace Quote

open Text

/-- A literal that is open is one that a quote has opened. -/
theorem isQuote_of_after {opened : Option Char} (hopened : ∀ q ∈ opened, isQuote q = true)
    {text : List Char} : ∀ q ∈ after opened text, isQuote q = true := by
  induction text generalizing opened with
  | nil => exact hopened
  | cons c rest ih =>
      refine ih fun q hq => ?_
      cases opened with
      | none =>
          rw [step] at hq
          split at hq
          · rename_i hquote
            cases hq
            exact hquote
          · cases hq
      | some d =>
          rw [step] at hq
          split at hq
          · cases hq
          · cases hq
            exact hopened _ rfl

theorem isQuote_of_isLayout {c : Char} (h : isLayout c = true) : isQuote c = false :=
  Template.isQuote_of_class (by decide) (by decide) h

theorem after_of_layout {lay : List Char} (h : lay.all isLayout = true) : after none lay = none := by
  induction lay with
  | nil => rfl
  | cons c rest ih =>
      rw [List.all_cons, Bool.and_eq_true] at h
      rw [after_cons, step_of_not_quote (isQuote_of_isLayout h.1), ih h.2]

/-- Layout ends no literal. -/
theorem after_eq_none_of_layout {text lay : List Char} (hlay : lay.all isLayout = true)
    (h : after none (text ++ lay) = none) : after none text = none := by
  cases hafter : after none text with
  | none => rfl
  | some q =>
      have hquote : isQuote q = true :=
        isQuote_of_after (fun _ hnone => (by cases hnone)) q hafter
      have hmem : q ∉ lay := by
        intro hmem
        rw [isQuote_of_isLayout (List.all_eq_true.mp hlay q hmem)] at hquote
        cases hquote
      rw [after_append, hafter, after_of_not_mem hmem] at h
      cases h

end Quote

namespace Template

open Text

/-! ## Delimiters by themselves -/

/-- A delimiter stands between two texts exactly if it is one by itself, no word runs into it at either
side, and no literal is open in front. -/
theorem delimits_iff_parted {kind : TokenKind} {left word right : List Char} :
    Delimits kind left word right ↔
      Quote.after none left = none ∧ Delimiter none kind word none ∧
        Parted left word ∧ Parted word right := by
  constructor
  · rintro ⟨hleft, hdelimiter⟩
    refine ⟨hleft, ?_⟩
    cases hdelimiter with
    | opening => exact ⟨.opening, parted_of_head rfl, parted_of_last rfl⟩
    | closing => exact ⟨.closing, parted_of_head rfl, parted_of_last rfl⟩
    | and hword hbefore hbehind =>
        exact ⟨.and hword rfl rfl, parted_of_last hbefore, parted_of_head hbehind⟩
    | or hword hbefore hbehind =>
        exact ⟨.or hword rfl rfl, parted_of_last hbefore, parted_of_head hbehind⟩
  · rintro ⟨hleft, hdelimiter, hbefore, hbehind⟩
    have hne := hdelimiter.ne_nil
    refine ⟨hleft, ?_⟩
    cases hdelimiter with
    | opening => exact .opening
    | closing => exact .closing
    | and hword _ _ =>
        have hall := all_word_of_and hword
        exact .and hword (hbefore.before_word hne hall) (hbehind.behind_word hne hall)
    | or hword _ _ =>
        have hall := all_word_of_or hword
        exact .or hword (hbefore.before_word hne hall) (hbehind.behind_word hne hall)

/-- Inside of a text that no word runs into or out of, the texts around it make no difference. -/
theorem delimits_within {kind : TokenKind} {left front word behind right : List Char}
    (hne : word ≠ []) (hleft : Quote.after none left = none)
    (hbefore : Parted left (front ++ (word ++ behind)))
    (hbehind : Parted (front ++ (word ++ behind)) right) :
    Delimits kind (left ++ front) word (behind ++ right) ↔ Delimits kind front word behind := by
  have hstart : Parted (left ++ front) word ↔ Parted front word := by
    cases front with
    | nil =>
        rw [List.append_nil]
        rw [List.nil_append, parted_append_right hne] at hbefore
        exact iff_of_true hbefore (parted_of_last rfl)
    | cons c front => exact parted_append_left (List.cons_ne_nil c front)
  have hstop : Parted word (behind ++ right) ↔ Parted word behind := by
    cases behind with
    | nil =>
        rw [List.nil_append]
        rw [List.append_nil, parted_append_left hne] at hbehind
        exact iff_of_true hbehind (parted_of_head rfl)
    | cons c behind => exact parted_append_right (List.cons_ne_nil c behind)
  rw [delimits_iff_parted, delimits_iff_parted, hstart, hstop, Quote.after_append, hleft]

section Undelimited

variable {left text right : List Char}

theorem Undelimited.alone (h : Undelimited left text right) (hleft : Quote.after none left = none)
    (hbefore : Parted left text) (hbehind : Parted text right) : Undelimited [] text [] := by
  rintro front back rfl hback kind word behind hword hdelimits
  rw [List.append_nil] at hword
  obtain rfl : back = word ++ behind := hword
  have hwithin := (delimits_within hdelimits.delimiter.ne_nil hleft hbefore hbehind).mpr hdelimits
  exact h front (word ++ behind) rfl hback kind word (behind ++ right)
    (List.append_assoc word behind right) hwithin

/-- A delimiter that starts in a text which no word runs out of ends in it. -/
theorem Delimits.exists_behind {kind : TokenKind} {back word behind : List Char}
    (h : Delimits kind left word behind) (hsplit : back ++ right = word ++ behind)
    (hback : back ≠ []) (hparted : Parted back right) :
    ∃ rest, back = word ++ rest ∧ behind = rest ++ right := by
  rcases List.append_eq_append_iff.mp hsplit with ⟨beyond, hword, hright⟩ | hrest
  · cases beyond with
    | nil =>
        rw [List.append_nil] at hword
        exact ⟨[], by rw [hword, List.append_nil], hright.symm⟩
    | cons c beyond =>
        -- The word would be longer than one character, and run on behind the text.
        have hall : word.all isAsciiWord = true := by
          rcases h.delimiter.length_or_word with hone | hall
          · have hpos := List.length_pos_iff.mpr hback
            rw [hword, List.length_append, List.length_cons] at hone
            omega
          · exact hall
        rw [hword, List.all_append, List.all_cons, Bool.and_eq_true, Bool.and_eq_true] at hall
        have hhead := hparted.behind_word hback hall.1
        have hc : isAsciiWord c = false := by
          rw [hright] at hhead
          exact hhead
        rw [hc] at hall
        cases hall.2.1
  · exact hrest

theorem Undelimited.within (h : Undelimited [] text []) (hleft : Quote.after none left = none)
    (hbefore : Parted left text) (hbehind : Parted text right) : Undelimited left text right := by
  rintro front back rfl hback kind word behind hword hdelimits
  obtain ⟨rest, rfl, rfl⟩ :=
    hdelimits.exists_behind hword hback ((parted_append_left hback).mp hbehind)
  have halone :=
    (delimits_within hdelimits.delimiter.ne_nil hleft hbefore hbehind).mp hdelimits
  exact h front (word ++ rest) rfl hback kind word rest (List.append_nil _) halone

end Undelimited

/-! ## Cutting at a known place -/

/-- A delimiter is cut off in front. -/
theorem cutFrom_delimiter {kind : TokenKind} {left word rest : List Char}
    (h : Delimits kind left word rest) :
    cutFrom 0 left.getLast? none (word ++ rest) =
      (cutFrom 0 (left ++ word).getLast? none rest).pushDelimiter kind word := by
  have hat := h.delimiter.delimiterAt?
  cases word with
  | nil => exact absurd rfl h.delimiter.ne_nil
  | cons c word =>
      have hquote : Quote.isQuote c = false := by
        refine Bool.eq_false_iff.mpr fun hquote => ?_
        rw [List.cons_append, delimiterAt?_of_quote hquote] at hat
        cases hat
      have htaken := cutFrom_taken (left ++ [c]) word rest
        (List.append_ne_nil_of_right_ne_nil left (List.cons_ne_nil c []))
      rw [List.getLast?_concat, List.append_assoc, List.singleton_append] at htaken
      rw [List.cons_append, delimiterAt?] at hat
      rw [← htaken, List.cons_append, cutFrom, hquote]
      cases hparen : paren? c with
      | some found =>
          rw [hparen] at hat
          obtain ⟨rfl, hlength⟩ := Prod.mk.inj (Option.some.inj hat)
          obtain rfl : word = [] := List.eq_nil_of_length_eq_zero (Nat.succ.inj hlength.symm)
          rfl
      | none =>
          rw [hparen] at hat
          obtain ⟨⟨found, more⟩, hkeyword, hfound⟩ := Option.map_eq_some_iff.mp hat
          obtain ⟨rfl, hlength⟩ := Prod.mk.inj hfound
          obtain rfl : more = word.length := Nat.succ.inj hlength
          simp only [hkeyword, Bool.false_eq_true, if_false, List.take_left]

/-- Where nothing starts there is neither a parenthesis nor a keyword. -/
theorem NoneAt.not_delimiter {left rest : List Char} {c : Char} (h : NoneAt left (c :: rest))
    (hleft : Quote.after none left = none) :
    paren? c = none ∧ keyword? left.getLast? (c :: rest) = none := by
  constructor
  · cases hparen : paren? c with
    | none => rfl
    | some kind => exact absurd (delimits_of_paren hleft hparen) (h kind [c] rest rfl)
  · cases hkeyword : keyword? left.getLast? (c :: rest) with
    | none => rfl
    | some found =>
        obtain ⟨word, behind, htext, _, hdelimits⟩ := exists_keyword hleft hkeyword
        exact absurd hdelimits (h _ word behind htext)

theorem cutFrom_closed {q : Char} {content : List Char} (hquote : Quote.isQuote q = true)
    (hcontent : q ∉ content) (before : Option Char) (rest : List Char) :
    cutFrom 0 before none (q :: (content ++ [q]) ++ rest) =
      (cutFrom 0 (some q) none rest).push (q :: (content ++ [q])) := by
  rw [List.cons_append, List.append_assoc, List.singleton_append, cutFrom, if_pos hquote,
    cutFrom_literal hcontent]
  rfl

/-- A text without delimiters, in which every literal ends, is one stretch. -/
theorem cutFrom_of_undelimited {left gap right : List Char} (hleft : Quote.after none left = none)
    (hclosed : Quote.after none (left ++ gap) = none) (hgap : Undelimited left gap right) :
    cutFrom 0 left.getLast? none (gap ++ right) =
      (cutFrom 0 (left ++ gap).getLast? none right).push gap := by
  match gap with
  | [] =>
      rw [List.append_nil]
      rfl
  | c :: rest =>
      by_cases hquote : Quote.isQuote c = true
      · have hmem : c ∈ rest := by
          by_contra hnot
          rw [Quote.after_append, hleft, Quote.after_open hquote hnot] at hclosed
          cases hclosed
        obtain ⟨content, behind, hsplit, hcontent⟩ := List.eq_append_cons_of_mem hmem
        have hshorter : behind.length < rest.length := by
          rw [hsplit, List.length_append, List.length_cons]
          omega
        have hliteral : c :: rest = c :: (content ++ [c]) ++ behind := by
          rw [hsplit, List.append_cons, List.cons_append]
        have hinner : Quote.after none (left ++ c :: (content ++ [c])) = none := by
          rw [Quote.after_append, hleft, Quote.after_literal hquote hcontent]
        have hlast : (left ++ c :: (content ++ [c])).getLast? = some c := by
          rw [← List.cons_append, ← List.append_assoc, List.getLast?_concat]
        rw [hliteral] at hgap
        rw [hliteral, ← List.append_assoc] at hclosed
        have hnext := cutFrom_of_undelimited hinner hclosed hgap.of_append.2
        rw [hlast] at hnext
        rw [hliteral, List.append_assoc, cutFrom_closed hquote hcontent, hnext, ← Cut.push_append,
          ← List.append_assoc]
      · rw [Bool.not_eq_true] at hquote
        have hnone := hgap [] (c :: rest) rfl (List.cons_ne_nil c rest)
        rw [List.append_nil, List.cons_append] at hnone
        obtain ⟨hparen, hkeyword⟩ := hnone.not_delimiter hleft
        have hinner : Quote.after none (left ++ [c]) = none := by
          rw [Quote.after_append, hleft, Quote.after_cons, Quote.step_of_not_quote hquote,
            Quote.after_nil]
        rw [← List.singleton_append] at hgap
        rw [List.append_cons] at hclosed
        have hnext := cutFrom_of_undelimited hinner hclosed hgap.of_append.2
        rw [List.getLast?_concat, ← List.append_cons] at hnext
        rw [List.cons_append, cutFrom_char hquote hparen hkeyword, hnext]
        rfl
termination_by gap.length
decreasing_by all_goals simp only [List.length_cons] at *; omega

theorem undelimited_layout {lay : List Char} (hlay : lay.all isLayout = true)
    (left right : List Char) : Undelimited left lay right := by
  rintro front back rfl hback
  cases back with
  | nil => exact absurd rfl hback
  | cons c rest =>
      rw [List.all_append, List.all_cons, Bool.and_eq_true, Bool.and_eq_true] at hlay
      have hc := hlay.2.1
      apply noneAt_of_delimiterAt?
      rw [List.cons_append, delimiterAt?, paren?_of_class (by decide) (by decide) hc,
        keyword?_of_apart (apart_cons (isAsciiWord_of_isLayout hc) _)]
      rfl

theorem cutFrom_layout {left lay : List Char} (hleft : Quote.after none left = none)
    (hlay : lay.all isLayout = true) (right : List Char) :
    cutFrom 0 left.getLast? none (lay ++ right) =
      (cutFrom 0 (left ++ lay).getLast? none right).push lay :=
  cutFrom_of_undelimited hleft (by rw [Quote.after_append, hleft, Quote.after_of_layout hlay])
    (undelimited_layout hlay left right)

theorem Cut.lexemes_push_of_layout {lay : List Char} (hlay : lay.all isLayout = true) (cut : Cut) :
    (cut.push lay).lexemes = cut.lexemes := by
  induction lay with
  | nil => rfl
  | cons c rest ih =>
      rw [List.all_cons, Bool.and_eq_true] at hlay
      rw [← ih hlay.2]
      exact Cut.lexemes_pushChar_of_layout hlay.1 _

/-- If the first lexeme of a cut is no fragment, there is only layout in front of it. -/
theorem Cut.front_of_lexemes {cut : Cut} (h : ∀ l ∈ cut.lexemes.head?, l.kind ≠ .fragment) :
    cut.front.all isLayout = true := by
  by_contra hnot
  have htrim : trim isLayout cut.front ≠ [] := fun hnil => hnot (trim_eq_nil_iff.mp hnil)
  rw [Cut.lexemes_eq, Cut.lexeme?_of_trim htrim] at h
  exact h _ rfl rfl

/-! ## Lexemes by themselves, and in a text -/

/-- A text that is one fragment where no word runs into it. -/
structure Solid (text : List Char) : Prop where
  ne_nil : text ≠ []
  head : ∀ c ∈ text.head?, isLayout c = false
  last : ∀ c ∈ text.getLast?, isLayout c = false
  closed : Quote.after none text = none
  undelimited : Undelimited [] text []

/-- A lexeme that would be one by itself. -/
inductive Lexeme.Proper : Lexeme → Prop where
  | delimiter {kind : TokenKind} {text : List Char} (h : Delimiter none kind text none) :
      Proper { kind, text }
  | fragment {text : List Char} (h : Solid text) : Proper { kind := .fragment, text }

theorem Lexeme.Proper.ne_nil {l : Lexeme} (h : l.Proper) : l.text ≠ [] := by
  cases h with
  | delimiter h => exact h.ne_nil
  | fragment h => exact h.ne_nil

theorem Lexeme.Proper.closed {l : Lexeme} (h : l.Proper) : Quote.after none l.text = none := by
  cases h with
  | delimiter h => exact h.after_eq_none
  | fragment h => exact h.closed

/-- The text is these lexemes with layout between them.  No word runs from a lexeme into the next, and
two fragments never meet. -/
inductive LaidOut : List Lexeme → List Char → Prop where
  | nil {lay : List Char} (hlay : lay.all isLayout = true) : LaidOut [] lay
  | cons {lay rest : List Char} {l : Lexeme} {ls : List Lexeme} (hlay : lay.all isLayout = true)
      (hl : l.Proper) (hparted : Parted l.text rest)
      (hdelimited : l.kind = .fragment → ∀ next ∈ ls.head?, next.kind ≠ .fragment)
      (hrest : LaidOut ls rest) : LaidOut (l :: ls) (lay ++ (l.text ++ rest))

/-- Layout in front makes no difference. -/
theorem LaidOut.behind_layout {ls : List Lexeme} {lay text : List Char}
    (hlay : lay.all isLayout = true) (h : LaidOut ls text) : LaidOut ls (lay ++ text) := by
  cases h with
  | nil hmore =>
      refine .nil ?_
      rw [List.all_append, hlay, hmore]
      rfl
  | cons hmore hl hparted hdelimited hrest =>
      rw [← List.append_assoc]
      refine .cons ?_ hl hparted hdelimited hrest
      rw [List.all_append, hlay, hmore]
      rfl

/-! ## Cutting what is laid out -/

/-- Behind a text that leaves no literal open and runs into no word, lexemes that are laid out are
cut as they are. -/
theorem LaidOut.cut {left right : List Char} {ls : List Lexeme} (h : LaidOut ls right)
    (hleft : Quote.after none left = none) (hparted : Parted left right) :
    (cutFrom 0 left.getLast? none right).lexemes = ls ∧
      (cutFrom 0 left.getLast? none right).unclosed = none := by
  induction h generalizing left with
  | @nil lay hlay =>
      have hcut := cutFrom_layout hleft hlay []
      rw [List.append_nil] at hcut
      rw [hcut, Cut.lexemes_push_of_layout hlay, Cut.unclosed_push]
      exact ⟨rfl, rfl⟩
  | @cons lay rest l ls hlay hl hbehind hdelimited _ ih =>
      have hlead : Quote.after none (left ++ lay) = none := by
        rw [Quote.after_append, hleft, Quote.after_of_layout hlay]
      have hclosed : Quote.after none (left ++ lay ++ l.text) = none := by
        rw [Quote.after_append, hlead, hl.closed]
      have hbefore : Parted (left ++ lay) l.text := by
        refine parted_append_layout hlay fun hnil => ?_
        rw [hnil, List.nil_append] at hparted
        exact (parted_append_right hl.ne_nil).mp hparted
      obtain ⟨hlexemes, hunclosed⟩ := ih hclosed ((parted_append_left hl.ne_nil).mpr hbehind)
      rw [cutFrom_layout hleft hlay, Cut.lexemes_push_of_layout hlay, Cut.unclosed_push]
      cases hl with
      | @delimiter kind text h =>
          have hdelimits : Delimits kind (left ++ lay) text rest :=
            delimits_iff_parted.mpr ⟨hlead, h, hbefore, hbehind⟩
          rw [cutFrom_delimiter hdelimits, Cut.lexemes_pushDelimiter, hlexemes]
          exact ⟨rfl, hunclosed⟩
      | @fragment text h =>
          have hgap := h.undelimited.within hlead hbefore hbehind
          have hfront := Cut.front_of_lexemes (hlexemes.symm ▸ hdelimited rfl)
          rw [cutFrom_of_undelimited hlead hclosed hgap,
            Cut.lexemes_push h.ne_nil h.head h.last hfront, Cut.unclosed_push, hlexemes]
          exact ⟨rfl, hunclosed⟩

/-! ## Laying out what is cut -/

/-- A gap in front of a text is laid out, as a fragment or as nothing. -/
theorem LaidOut.behind_gap {left gap right : List Char} {ls : List Lexeme} (h : LaidOut ls right)
    (hleft : Quote.after none left = none) (hclosed : Quote.after none (left ++ gap) = none)
    (hgap : Undelimited left gap right) (hbefore : Parted left (gap ++ right))
    (hbehind : Parted gap right) (hdelimited : ∀ next ∈ ls.head?, next.kind ≠ .fragment) :
    LaidOut ((Piece.lexeme? (.gap gap)).toList ++ ls) (gap ++ right) := by
  by_cases hempty : trim isLayout gap = []
  · have hlay := trim_eq_nil_iff.mp hempty
    rw [Cut.lexeme?_of_layout hlay]
    exact h.behind_layout hlay
  · have hlexeme := Cut.lexeme?_of_trim hempty
    obtain ⟨trail, hsplit, htrail⟩ := exists_trim_append isLayout gap
    have hhead := head_trim isLayout gap
    have hlast := last_trim isLayout gap
    have hlead : (gap.takeWhile isLayout).all isLayout = true := List.all_takeWhile
    rw [hlexeme]
    generalize trim isLayout gap = kept at *
    generalize gap.takeWhile isLayout = lead at *
    subst hsplit
    -- What is left of the gap is by itself what it is in the template.
    have hstart : Quote.after none (left ++ lead) = none := by
      rw [Quote.after_append, hleft, Quote.after_of_layout hlead]
    have hbefore' : Parted (left ++ lead) kept := by
      refine parted_append_layout hlead fun hnil => ?_
      rw [hnil, List.nil_append, List.append_assoc, parted_append_right hempty] at hbefore
      exact hbefore
    have hbehind' : Parted kept (trail ++ right) := by
      refine parted_layout_append htrail fun hnil => ?_
      rw [hnil, List.append_nil, parted_append_left hempty] at hbehind
      exact hbehind
    have hsolid : Solid kept := by
      refine ⟨hempty, hhead, hlast, ?_, ?_⟩
      · rw [← List.append_assoc, ← List.append_assoc] at hclosed
        have hkept := Quote.after_eq_none_of_layout htrail hclosed
        rw [Quote.after_append, hstart] at hkept
        exact hkept
      · exact hgap.of_append.2.of_append.1.alone hstart hbefore' hbehind'
    rw [List.append_assoc, List.append_assoc]
    exact .cons hlead (.fragment hsolid) hbehind' (fun _ => hdelimited) (h.behind_layout htrail)

/-- Behind a text that leaves no literal open and runs into no word, what is cut is laid out. -/
theorem CutsTo.laidOut {left right : List Char} {cut : Cut} (h : CutsTo left right cut)
    (hleft : Quote.after none left = none) (hparted : Parted left right)
    (hclosed : cut.unclosed = none) : LaidOut cut.lexemes right := by
  induction h with
  | @last left gap hafter hgap =>
      have hnothing : LaidOut [] [] := .nil rfl
      have hlaid := hnothing.behind_gap hleft hafter hgap (by rw [List.append_nil]; exact hparted)
        (parted_of_head rfl) (fun _ hnext => (by cases hnext))
      rw [List.append_nil, List.append_nil] at hlaid
      rw [Cut.lexemes_gap]
      exact hlaid
  | opened _ _ _ _ =>
      rw [Cut.unclosed_push] at hclosed
      cases hclosed
  | @delimiter left gap word rest kind cut hgap hdelimits _ ih =>
      rw [Cut.unclosed_push, Cut.unclosed_pushDelimiter] at hclosed
      obtain ⟨hafter, hdelimiter, hbefore, hbehind⟩ := delimits_iff_parted.mp hdelimits
      have hne := hdelimiter.ne_nil
      have hrest := ih hdelimits.after_eq_none ((parted_append_left hne).mpr hbehind) hclosed
      have hkind := hdelimiter.kind_ne_fragment
      have hword : LaidOut ({ kind, text := word } :: cut.lexemes) ([] ++ (word ++ rest)) :=
        .cons rfl (.delimiter hdelimiter) hbehind (fun h => absurd h hkind) hrest
      have hgapped : Parted gap (word ++ rest) := by
        rw [parted_append_right hne]
        by_cases hnil : gap = []
        · rw [hnil]
          exact parted_of_last rfl
        · exact (parted_append_left hnil).mp hbefore
      rw [Cut.lexemes_gap_delimiter]
      refine hword.behind_gap hleft hafter hgap hparted hgapped fun next hnext => ?_
      cases hnext
      exact hkind

/-- The texts that lay some lexemes out are the templates that have them. -/
theorem laidOut_iff_lexemes {ls : List Lexeme} {template : List Char} :
    LaidOut ls template ↔ lexemes template = ls ∧ (cut template).unclosed = none := by
  constructor
  · intro h
    have hnone : Parted [] template := parted_of_last rfl
    exact h.cut rfl hnone
  · rintro ⟨rfl, hclosed⟩
    exact (cutsTo_cutFrom [] template rfl).laidOut rfl (parted_of_last rfl) hclosed

end Template
end RecordFilter
