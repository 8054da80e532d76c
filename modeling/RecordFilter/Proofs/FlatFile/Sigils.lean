/-
Where the sigils of a fragment stand.  A fragment is made of literals, of runs of word characters
that are as long as they can be, and of the characters between them.  A run that can be a field gets
a sigil in front of it and everything else is copied, whatever the scan by position takes together:
`markFields_by_pieces`.  Nothing is lost by that, since each sigil that was put in can be told from
the text behind it and taken out again.
-/
import RecordFilter.Proofs.Bytewise.Filter

namespace RecordFilter
namespace FlatFile

open Text
open Bytewise (isQuote_of_isWord isWord_of_isQuote startsField_cons_of_not_word)

/-! ## Pieces -/

/-- A part of a fragment: a literal with its quotes, one that is left open, a run of word
characters, or a single character. -/
inductive Piece where
  | literal (quote : Char) (content : List Char)
  | unclosed (quote : Char) (content : List Char)
  | run (word : List Char)
  | other (c : Char)

/-- The word is a field name: it starts like one, and the expression language has no literal of this
name. -/
def isFieldWord (word : List Char) : Bool :=
  word.head?.any (fun c => isAsciiLetter c || c == '_') && !isLiteralWord word

namespace Piece

def text : Piece → List Char
  | .literal quote content => quote :: (content ++ [quote])
  | .unclosed quote content => quote :: content
  | .run word => word
  | .other c => [c]

/-- The piece with a sigil in front of it, if it is a field. -/
def marked : Piece → List Char
  | .run word => if isFieldWord word then '@' :: word else word
  | piece => piece.text

/-- Pieces of a text, which may stand behind a run.  A literal goes on to the first quote of its
kind, or to the end of the text, and no run follows a run. -/
inductive WellCut : Bool → List Piece → Prop
  | nil {inRun : Bool} : WellCut inRun []
  | literal {inRun : Bool} {quote : Char} {content : List Char} {rest : List Piece}
      (hquote : Quote.isQuote quote = true) (hcontent : quote ∉ content)
      (hrest : WellCut false rest) : WellCut inRun (.literal quote content :: rest)
  | unclosed {inRun : Bool} {quote : Char} {content : List Char}
      (hquote : Quote.isQuote quote = true) (hcontent : quote ∉ content) :
      WellCut inRun [.unclosed quote content]
  | run {word : List Char} {rest : List Piece} (hne : word ≠ []) (hword : word.all isWord = true)
      (hrest : WellCut true rest) : WellCut false (.run word :: rest)
  | other {inRun : Bool} {c : Char} {rest : List Piece} (hword : isWord c = false)
      (hquote : Quote.isQuote c = false) (hrest : WellCut false rest) :
      WellCut inRun (.other c :: rest)

theorem marked_literal (quote : Char) (content : List Char) :
    (literal quote content).marked = (literal quote content).text := rfl

theorem literal_append (quote : Char) (content rest : List Char) :
    (literal quote content).text ++ rest = quote :: (content ++ quote :: rest) := by
  rw [text, List.cons_append, List.append_assoc, List.singleton_append]

end Piece

open Piece

def textOf (pieces : List Piece) : List Char :=
  pieces.flatMap text

def markedOf (pieces : List Piece) : List Char :=
  pieces.flatMap marked

@[simp] theorem textOf_cons (piece : Piece) (rest : List Piece) :
    textOf (piece :: rest) = piece.text ++ textOf rest := rfl

@[simp] theorem markedOf_cons (piece : Piece) (rest : List Piece) :
    markedOf (piece :: rest) = piece.marked ++ markedOf rest := rfl

/-- The text does not start with a word character. -/
def StartsApart (text : List Char) : Prop :=
  ∀ c ∈ text.head?, isWord c = false

theorem startsApart_nil : StartsApart [] :=
  fun _ hc => nomatch hc

theorem startsApart_cons {c : Char} (h : isWord c = false) (rest : List Char) :
    StartsApart (c :: rest) := by
  intro d hd
  cases hd
  exact h

/-- Behind a run there is no word character, with sigils or without them. -/
theorem startsApart_of_wellCut {pieces : List Piece} (h : WellCut true pieces) :
    StartsApart (textOf pieces) ∧ StartsApart (markedOf pieces) := by
  cases h with
  | nil => exact ⟨startsApart_nil, startsApart_nil⟩
  | literal hquote =>
      have hword := isWord_of_isQuote hquote
      exact ⟨startsApart_cons hword _, startsApart_cons hword _⟩
  | unclosed hquote =>
      have hword := isWord_of_isQuote hquote
      exact ⟨startsApart_cons hword _, startsApart_cons hword _⟩
  | other hword => exact ⟨startsApart_cons hword _, startsApart_cons hword _⟩

theorem takeWhile_word {word rest : List Char} (hword : word.all isWord = true)
    (hrest : StartsApart rest) : (word ++ rest).takeWhile isWord = word := by
  rw [List.takeWhile_append_of_pos (List.all_eq_true.mp hword)]
  cases rest with
  | nil => rw [List.takeWhile_nil, List.append_nil]
  | cons c more => rw [List.takeWhile_cons_of_neg (by simp [hrest c rfl]), List.append_nil]

/-- A run starts a field exactly if it is a field name. -/
theorem startsField_run {word rest : List Char} (hne : word ≠ []) (hword : word.all isWord = true)
    (hrest : StartsApart rest) : startsField false (word ++ rest) = isFieldWord word := by
  obtain ⟨c, more, rfl⟩ := List.exists_cons_of_ne_nil hne
  have htake := takeWhile_word hword hrest
  rw [List.cons_append] at htake ⊢
  rw [startsField, isFieldWord, htake]
  rfl

theorem startsApart_dropWhile (text : List Char) : StartsApart (text.dropWhile isWord) := by
  intro c hc
  have hhead := List.head?_dropWhile_not isWord text
  rw [Option.mem_def.mp hc] at hhead
  simpa using hhead

/-- Every text has pieces. -/
theorem exists_wellCut (text : List Char) (inRun : Bool) (h : inRun = true → StartsApart text) :
    ∃ pieces, WellCut inRun pieces ∧ textOf pieces = text := by
  -- a literal or a run is taken off the text at once, so the recursion is on its length
  match text with
  | [] => exact ⟨[], .nil, rfl⟩
  | c :: rest =>
      by_cases hquote : Quote.isQuote c = true
      · by_cases hmem : c ∈ rest
        · obtain ⟨content, more, hrest, hcontent⟩ := List.eq_append_cons_of_mem hmem
          have hshorter : more.length < rest.length := by
            simp only [hrest, List.length_append, List.length_cons]
            omega
          obtain ⟨pieces, hcut, htext⟩ := exists_wellCut more false fun hfalse => nomatch hfalse
          refine ⟨.literal c content :: pieces, .literal hquote hcontent hcut, ?_⟩
          rw [textOf_cons, htext, literal_append, hrest]
        · exact ⟨[.unclosed c rest], .unclosed hquote hmem, List.append_nil _⟩
      · rw [Bool.not_eq_true] at hquote
        by_cases hword : isWord c = true
        · have hinRun : inRun = false := by
            refine Bool.eq_false_iff.mpr fun htrue => ?_
            rw [h htrue c rfl] at hword
            cases hword
          have hshorter := (List.dropWhile_sublist isWord (l := rest)).length_le
          obtain ⟨pieces, hcut, htext⟩ :=
            exists_wellCut (rest.dropWhile isWord) true fun _ => startsApart_dropWhile rest
          have hall : (c :: rest.takeWhile isWord).all isWord = true := by
            rw [List.all_cons, hword, List.all_takeWhile]
            rfl
          subst hinRun
          refine ⟨.run (c :: rest.takeWhile isWord) :: pieces,
            .run (List.cons_ne_nil _ _) hall hcut, ?_⟩
          rw [textOf_cons, htext, Piece.text, List.cons_append, List.takeWhile_append_dropWhile]
        · rw [Bool.not_eq_true] at hword
          obtain ⟨pieces, hcut, htext⟩ := exists_wellCut rest false fun hfalse => nomatch hfalse
          refine ⟨.other c :: pieces, .other hword hquote hcut, ?_⟩
          rw [textOf_cons, htext]
          rfl
termination_by text.length
decreasing_by
  all_goals
    simp only [List.length_cons]
    omega

/-! ## Putting sigils in -/

theorem markFieldsFrom_run {word rest : List Char} (hne : word ≠ [])
    (hword : word.all isWord = true) (hrest : StartsApart rest) :
    markFieldsFrom none false (word ++ rest) =
      (Piece.run word).marked ++ markFieldsFrom none true rest := by
  have hstarts := startsField_run hne hword hrest
  obtain ⟨c, more, rfl⟩ := List.exists_cons_of_ne_nil hne
  rw [List.all_cons, Bool.and_eq_true] at hword
  rw [List.cons_append] at hstarts ⊢
  rw [markFieldsFrom, hstarts, Quote.step_of_not_quote (isQuote_of_isWord hword.1), hword.1]
  simp only [Option.isNone_none, Bool.true_and, Bytewise.markFieldsFrom_word hword.2, marked]
  split <;> rfl

theorem markFieldsFrom_quote {q : Char} (hquote : Quote.isQuote q = true) (inRun : Bool)
    (rest : List Char) :
    markFieldsFrom none inRun (q :: rest) = q :: markFieldsFrom (some q) false rest :=
  @Bytewise.markFieldsFrom_append_quote q hquote [] (List.forall_mem_nil _) inRun rest

/-- The sigils of a text are the sigils of its pieces. -/
theorem markFieldsFrom_textOf {inRun : Bool} {pieces : List Piece} (h : WellCut inRun pieces) :
    markFieldsFrom none inRun (textOf pieces) = markedOf pieces := by
  induction h with
  | nil => rfl
  | @literal inRun q content rest hquote hcontent _ ih =>
      rw [textOf_cons, markedOf_cons, marked_literal, literal_append, literal_append,
        markFieldsFrom_quote hquote, Bytewise.markFieldsFrom_literal hcontent, ih]
  | @unclosed inRun q content hquote hcontent =>
      show markFieldsFrom none inRun (q :: content ++ []) = q :: content ++ []
      rw [List.append_nil, markFieldsFrom_quote hquote, Bytewise.markFieldsFrom_open hcontent]
  | @run word rest hne hword hrest ih =>
      have hbehind := (startsApart_of_wellCut hrest).1
      rw [textOf_cons, Piece.text, markFieldsFrom_run hne hword hbehind, ih, markedOf_cons]
  | @other inRun c rest hword hquote _ ih =>
      show markFieldsFrom none inRun (c :: textOf rest) = c :: markedOf rest
      rw [markFieldsFrom, startsField_cons_of_not_word hword, Quote.step_of_not_quote hquote, hword,
        Bool.and_false, ih]
      rfl

/-! ## Taking sigils out -/

/-- Takes the sigils out of a text that starts in the given literal: each sign that stands outside
the literals directly before a field name. -/
def unmarkFieldsFrom (opened : Option Char) : List Char → List Char
  | [] => []
  | c :: rest =>
      let more := unmarkFieldsFrom (Quote.step opened c) rest
      if opened.isNone && c == '@' && startsField false rest then more else c :: more

def unmarkFields (marked : List Char) : List Char :=
  unmarkFieldsFrom none marked

theorem unmarkFieldsFrom_kept {c : Char} {rest : List Char}
    (h : c ≠ '@' ∨ startsField false rest = false) :
    unmarkFieldsFrom none (c :: rest) = c :: unmarkFieldsFrom (Quote.step none c) rest := by
  rw [unmarkFieldsFrom, if_neg]
  rw [Bool.and_eq_true, Bool.and_eq_true, beq_iff_eq]
  rintro ⟨⟨-, hsign⟩, hstarts⟩
  rcases h with hne | hfalse
  · exact hne hsign
  · rw [hfalse] at hstarts
    cases hstarts

theorem ne_sign_of_isQuote {c : Char} (h : Quote.isQuote c = true) : c ≠ '@' := by
  rintro rfl
  exact absurd h (by decide)

theorem unmarkFieldsFrom_literal {q : Char} {content : List Char} (h : q ∉ content)
    (rest : List Char) :
    unmarkFieldsFrom (some q) (content ++ rest) =
      content ++ unmarkFieldsFrom (some q) rest := by
  induction content with
  | nil => rfl
  | cons c content ih =>
      have hne : c ≠ q := fun heq => h (heq ▸ List.mem_cons_self)
      rw [List.cons_append, unmarkFieldsFrom, Quote.step_of_ne hne,
        ih fun hmem => h (List.mem_cons_of_mem c hmem)]
      rfl

theorem unmarkFieldsFrom_word {word : List Char} (h : word.all isWord = true) (rest : List Char) :
    unmarkFieldsFrom none (word ++ rest) = word ++ unmarkFieldsFrom none rest := by
  induction word with
  | nil => rfl
  | cons c word ih =>
      rw [List.all_cons, Bool.and_eq_true] at h
      have hsign : c ≠ '@' := by
        rintro rfl
        exact absurd h.1 (by decide)
      rw [List.cons_append, unmarkFieldsFrom_kept (Or.inl hsign),
        Quote.step_of_not_quote (isQuote_of_isWord h.1), ih h.2, List.cons_append]

/-- Pieces with their sigils do not start with a field name: either there is a sigil in front of it
or it is none. -/
theorem startsField_markedOf {inRun : Bool} {pieces : List Piece} (h : WellCut inRun pieces) :
    startsField false (markedOf pieces) = false := by
  cases h with
  | nil => rfl
  | literal hquote => exact startsField_cons_of_not_word (isWord_of_isQuote hquote) _ _
  | unclosed hquote => exact startsField_cons_of_not_word (isWord_of_isQuote hquote) _ _
  | @run word rest hne hword hrest =>
      rw [markedOf_cons, marked]
      by_cases hfield : isFieldWord word = true
      · rw [if_pos hfield]
        exact startsField_cons_of_not_word (by decide) _ _
      · rw [Bool.not_eq_true] at hfield
        rw [hfield, if_neg Bool.false_ne_true,
          startsField_run hne hword (startsApart_of_wellCut hrest).2, hfield]
  | other hword => exact startsField_cons_of_not_word hword _ _

/-- A run loses the sigil that it got. -/
theorem unmarkFieldsFrom_run {word rest : List Char} (hne : word ≠ [])
    (hword : word.all isWord = true) (hrest : StartsApart rest) :
    unmarkFieldsFrom none ((Piece.run word).marked ++ rest) =
      word ++ unmarkFieldsFrom none rest := by
  rw [marked]
  by_cases hfield : isFieldWord word = true
  · have hstarts := startsField_run hne hword hrest
    rw [if_pos hfield, List.cons_append, unmarkFieldsFrom, hstarts, hfield]
    exact unmarkFieldsFrom_word hword rest
  · rw [if_neg hfield, unmarkFieldsFrom_word hword]

/-- Without its sigils, a marked text is the text again. -/
theorem unmarkFieldsFrom_markedOf {inRun : Bool} {pieces : List Piece} (h : WellCut inRun pieces) :
    unmarkFieldsFrom none (markedOf pieces) = textOf pieces := by
  induction h with
  | nil => rfl
  | @literal inRun q content rest hquote hcontent _ ih =>
      have hsign := ne_sign_of_isQuote hquote
      rw [markedOf_cons, textOf_cons, marked_literal, literal_append, literal_append,
        unmarkFieldsFrom_kept (Or.inl hsign), Quote.step_of_quote hquote,
        unmarkFieldsFrom_literal hcontent, unmarkFieldsFrom, Quote.step_self, ih]
      rfl
  | @unclosed inRun q content hquote hcontent =>
      have hsign := ne_sign_of_isQuote hquote
      show unmarkFieldsFrom none (q :: (content ++ [])) = q :: (content ++ [])
      rw [unmarkFieldsFrom_kept (Or.inl hsign), Quote.step_of_quote hquote,
        unmarkFieldsFrom_literal hcontent]
      rfl
  | @run word rest hne hword hrest ih =>
      have hbehind := (startsApart_of_wellCut hrest).2
      rw [markedOf_cons, textOf_cons, unmarkFieldsFrom_run hne hword hbehind, ih]
      rfl
  | @other inRun c rest hword hquote hrest ih =>
      show unmarkFieldsFrom none (c :: markedOf rest) = c :: textOf rest
      rw [unmarkFieldsFrom_kept (Or.inr (startsField_markedOf hrest)),
        Quote.step_of_not_quote hquote, ih]

/-- The fields of a text are marked piece by piece, however it is cut into pieces, and without the
sigils it is the text that it was. -/
theorem markFields_by_pieces (text : List Char) :
    ∃ marked, Bytewise.markFields text = .ok marked ∧
      (∃ pieces, WellCut false pieces ∧ textOf pieces = text) ∧
      (∀ pieces, WellCut false pieces → textOf pieces = text → marked = markedOf pieces) ∧
      unmarkFields marked = text := by
  obtain ⟨pieces, hcut, rfl⟩ := exists_wellCut text false fun hfalse => (nomatch hfalse)
  have hmarked := markFieldsFrom_textOf hcut
  refine ⟨markFields (textOf pieces), Bytewise.markFields_eq _, ⟨pieces, hcut, rfl⟩, ?_, ?_⟩
  · intro others hothers htext
    rw [markFields, ← htext, markFieldsFrom_textOf hothers]
  · rw [markFields, hmarked, unmarkFields, unmarkFieldsFrom_markedOf hcut]

/-- A word that starts outside ASCII gets no sigil, nor does a literal, and a word with a literal
directly behind it gets one. -/
theorem markFields_by_pieces_of_mixed :
    Bytewise.markFields "é1 a'b' NULL _ü \"open".toList =
      .ok "é1 @a'b' NULL @_ü \"open".toList := by
  obtain ⟨marked, hmarked, -, hpieces, -⟩ :=
    markFields_by_pieces "é1 a'b' NULL _ü \"open".toList
  have hcut : WellCut false [.run "é1".toList, .other ' ', .run ['a'], .literal '\'' ['b'],
      .other ' ', .run "NULL".toList, .other ' ', .run "_ü".toList, .other ' ',
      .unclosed '"' "open".toList] :=
    .run (by decide) (by decide) <| .other (by decide) (by decide) <|
    .run (by decide) (by decide) <| .literal (by decide) (by decide) <|
    .other (by decide) (by decide) <| .run (by decide) (by decide) <|
    .other (by decide) (by decide) <| .run (by decide) (by decide) <|
    .other (by decide) (by decide) <| .unclosed (by decide) (by decide)
  rw [hmarked, hpieces _ hcut (by decide)]
  decide

end FlatFile
end RecordFilter
