/-
Cutting a text from the front.  Each lemma says what one stretch of text does to the cut of the text
behind it: words and other characters go into the gap in front, and a parenthesis or a keyword
between spaces starts a new piece.

A text is cut with the character in front of it in view, because a keyword has to stand alone.  Only
a text that goes on with a word depends on that character, by `cutFrom_of_apart`.
-/
import RecordFilter.Proofs.Template.Lexeme
import RecordFilter.Proofs.Text.Words

namespace RecordFilter
namespace Template

open Text

/-! ## Keywords -/

def isKeyword (word : List Char) : Bool :=
  sameLetters word ['a', 'n', 'd'] || sameLetters word ['o', 'r']

variable {before : Option Char} {name rest : List Char}

theorem keyword?_append (hname : name.all isAsciiWord = true) (hkeyword : isKeyword name = false)
    (hrest : Apart rest) : keyword? before (name ++ rest) = none := by
  rw [isKeyword, Bool.or_eq_false_iff] at hkeyword
  have hand : standsAlone ['a', 'n', 'd'] before (name ++ rest) = false := by
    refine Bool.eq_false_iff.mpr fun h => ?_
    rw [standsAlone_append (by decide) hname hrest h] at hkeyword
    exact Bool.noConfusion hkeyword.1
  have hor : standsAlone ['o', 'r'] before (name ++ rest) = false := by
    refine Bool.eq_false_iff.mpr fun h => ?_
    rw [standsAlone_append (by decide) hname hrest h] at hkeyword
    exact Bool.noConfusion hkeyword.2
  rw [keyword?, hand, hor]
  rfl

theorem keyword?_of_wordBefore (h : isAsciiWordAt before = true) (text : List Char) :
    keyword? before text = none := by
  rw [keyword?, standsAlone_of_wordBefore h, standsAlone_of_wordBefore h]
  rfl

/-- No keyword starts where no word does. -/
theorem keyword?_of_apart (h : Apart rest) : keyword? before rest = none := by
  have hnone : keyword? before ([] ++ rest) = none := keyword?_append rfl (by decide) h
  rw [List.nil_append] at hnone
  exact hnone

/-! ## The gap in front -/

namespace Cut

def push (text : List Char) (cut : Cut) : Cut :=
  text.foldr pushChar cut

def front (cut : Cut) : List Char :=
  match cut.pieces with
  | .gap text :: _ => text
  | _ => []

def behind (cut : Cut) : List Piece :=
  match cut.pieces with
  | .gap _ :: rest => rest
  | pieces => pieces

@[simp] theorem unclosed_pushChar (c : Char) (cut : Cut) :
    (cut.pushChar c).unclosed = cut.unclosed := by
  rw [pushChar]
  split <;> rfl

@[simp] theorem unclosed_push (text : List Char) (cut : Cut) :
    (cut.push text).unclosed = cut.unclosed := by
  induction text with
  | nil => rfl
  | cons c rest ih =>
      show ((cut.push rest).pushChar c).unclosed = cut.unclosed
      rw [unclosed_pushChar, ih]

@[simp] theorem unclosed_pushDelimiter (kind : TokenKind) (text : List Char) (cut : Cut) :
    (cut.pushDelimiter kind text).unclosed = cut.unclosed := rfl

theorem push_append (left right : List Char) (cut : Cut) :
    cut.push (left ++ right) = (cut.push right).push left :=
  List.foldr_append

theorem pieces_pushChar (c : Char) (cut : Cut) :
    (cut.pushChar c).pieces = .gap (c :: cut.front) :: cut.behind := by
  obtain ⟨pieces, unclosed⟩ := cut
  cases pieces with
  | nil => rfl
  | cons piece rest => cases piece <;> rfl

theorem front_pushChar (c : Char) (cut : Cut) : (cut.pushChar c).front = c :: cut.front := by
  rw [front, pieces_pushChar]

theorem behind_pushChar (c : Char) (cut : Cut) : (cut.pushChar c).behind = cut.behind := by
  rw [behind, pieces_pushChar]

theorem front_push (text : List Char) (cut : Cut) : (cut.push text).front = text ++ cut.front := by
  induction text with
  | nil => rfl
  | cons c rest ih =>
      show ((cut.push rest).pushChar c).front = c :: rest ++ cut.front
      rw [front_pushChar, ih, List.cons_append]

theorem behind_push (text : List Char) (cut : Cut) : (cut.push text).behind = cut.behind := by
  induction text with
  | nil => rfl
  | cons c rest ih =>
      show ((cut.push rest).pushChar c).behind = cut.behind
      rw [behind_pushChar, ih]

@[simp] theorem front_pushDelimiter (kind : TokenKind) (text : List Char) (cut : Cut) :
    (cut.pushDelimiter kind text).front = [] := rfl

@[simp] theorem behind_pushDelimiter (kind : TokenKind) (text : List Char) (cut : Cut) :
    (cut.pushDelimiter kind text).behind = .delimiter kind text :: cut.pieces := rfl

/-- The lexemes of a cut are the one of the gap in front and those of the pieces behind it. -/
theorem lexemes_eq (cut : Cut) :
    cut.lexemes = (Piece.lexeme? (.gap cut.front)).toList ++ cut.behind.filterMap Piece.lexeme? := by
  rw [lexemes, front, behind]
  cases cut.pieces with
  | nil => rfl
  | cons piece rest =>
      cases piece with
      | delimiter kind text => rfl
      | gap text =>
          rw [List.filterMap_cons]
          cases Piece.lexeme? (.gap text) <;> rfl

/-- If there is nothing but one gap, it is all there is to read. -/
theorem lexemes_gap (gap : List Char) (unclosed : Option (List Char)) :
    (Cut.push gap { pieces := [], unclosed }).lexemes = (Piece.lexeme? (.gap gap)).toList := by
  rw [lexemes_eq, front_push, behind_push]
  show (Piece.lexeme? (.gap (gap ++ []))).toList ++ [] = _
  rw [List.append_nil, List.append_nil]

/-- A gap in front of a delimiter is read by itself. -/
theorem lexemes_gap_delimiter (gap : List Char) (kind : TokenKind) (text : List Char) (cut : Cut) :
    ((cut.pushDelimiter kind text).push gap).lexemes =
      (Piece.lexeme? (.gap gap)).toList ++ { kind, text } :: cut.lexemes := by
  rw [lexemes_eq, front_push, behind_push, front_pushDelimiter, List.append_nil]
  rfl

theorem lexeme?_of_layout {text : List Char} (h : text.all isLayout = true) :
    Piece.lexeme? (.gap text) = none := by
  rw [Piece.lexeme?, trim_eq_nil_iff.mpr h]
  rfl

theorem lexeme?_of_trim {text : List Char} (h : trim isLayout text ≠ []) :
    Piece.lexeme? (.gap text) = some { kind := .fragment, text := trim isLayout text } := by
  simp [Piece.lexeme?, h]

theorem lexemes_pushChar_of_layout {c : Char} (hc : isLayout c = true) (cut : Cut) :
    (cut.pushChar c).lexemes = cut.lexemes := by
  have hgap : Piece.lexeme? (.gap (c :: cut.front)) = Piece.lexeme? (.gap cut.front) := by
    rw [Piece.lexeme?, Piece.lexeme?, trim, trim, List.dropWhile_cons_of_pos hc]
  rw [lexemes_eq, lexemes_eq, front_pushChar, behind_pushChar, hgap]

/-- A text in front of a cut that starts with layout is a fragment. -/
theorem lexemes_push {text : List Char} {cut : Cut} (hne : text ≠ [])
    (hhead : ∀ c ∈ text.head?, isLayout c = false) (hlast : ∀ c ∈ text.getLast?, isLayout c = false)
    (hfront : cut.front.all isLayout = true) :
    (cut.push text).lexemes = { kind := .fragment, text } :: cut.lexemes := by
  have htrim : trim isLayout ([] ++ (text ++ cut.front)) = text :=
    trim_append rfl hfront hhead hlast
  rw [List.nil_append] at htrim
  have hempty : text.isEmpty = false := by
    cases text with
    | nil => exact absurd rfl hne
    | cons c rest => rfl
  have hgap : Piece.lexeme? (.gap (text ++ cut.front)) = some { kind := .fragment, text } := by
    simp only [Piece.lexeme?, htrim, hempty, Bool.false_eq_true, if_false]
  rw [lexemes_eq, lexemes_eq, front_push, behind_push, hgap, lexeme?_of_layout hfront]
  rfl

@[simp] theorem lexemes_pushDelimiter (kind : TokenKind) (text : List Char) (cut : Cut) :
    (cut.pushDelimiter kind text).lexemes = { kind, text } :: cut.lexemes := rfl

end Cut

/-! ## Stretches of text -/

/-- A character that neither opens a literal nor is a parenthesis or starts a keyword. -/
theorem cutFrom_char {c : Char} (hquote : Quote.isQuote c = false) (hparen : paren? c = none)
    (hkeyword : keyword? before (c :: rest) = none) :
    cutFrom 0 before none (c :: rest) = (cutFrom 0 (some c) none rest).pushChar c := by
  rw [cutFrom, hquote, hparen, hkeyword]
  rfl

/-- A class of characters that has no quote in it opens no literal. -/
theorem isQuote_of_class {p : Char → Bool} (hsingle : p '\'' = false) (hdouble : p '"' = false)
    {c : Char} (h : p c = true) : Quote.isQuote c = false := by
  rw [Quote.isQuote, Bool.or_eq_false_iff, beq_eq_false_iff_ne, beq_eq_false_iff_ne]
  exact ⟨ne_of_class hsingle h, ne_of_class hdouble h⟩

theorem paren?_of_class {p : Char → Bool} (hopening : p '(' = false) (hclosing : p ')' = false)
    {c : Char} (h : p c = true) : paren? c = none := by
  rw [paren?, if_neg (ne_of_class hopening h), if_neg (ne_of_class hclosing h)]

theorem isQuote_of_isAsciiWord {c : Char} (h : isAsciiWord c = true) :
    Quote.isQuote c = false :=
  isQuote_of_class (by decide) (by decide) h

theorem paren?_of_isAsciiWord {c : Char} (h : isAsciiWord c = true) : paren? c = none :=
  paren?_of_class (by decide) (by decide) h

theorem paren?_of_isQuote {c : Char} (h : Quote.isQuote c = true) : paren? c = none :=
  paren?_of_class (by decide) (by decide) h

theorem cutFrom_of_apart (hrest : Apart rest) (before : Option Char) :
    cutFrom 0 before none rest = cut rest := by
  cases rest with
  | nil => rfl
  | cons c rest => rw [cut, cutFrom, cutFrom, keyword?_of_apart hrest, keyword?_of_apart hrest]

theorem cutFrom_inWord (hname : name.all isAsciiWord = true) (hbefore : isAsciiWordAt before = true)
    (hrest : Apart rest) : cutFrom 0 before none (name ++ rest) = (cut rest).push name := by
  induction name generalizing before with
  | nil => exact cutFrom_of_apart hrest before
  | cons c name ih =>
      rw [List.all_cons, Bool.and_eq_true] at hname
      have hnext : isAsciiWordAt (some c) = true := hname.1
      rw [List.cons_append, cutFrom_char (isQuote_of_isAsciiWord hname.1)
        (paren?_of_isAsciiWord hname.1) (keyword?_of_wordBefore hbefore _), ih hname.2 hnext]
      rfl

theorem cutFrom_word (hname : name.all isAsciiWord = true) (hkeyword : isKeyword name = false)
    (hrest : Apart rest) (before : Option Char) :
    cutFrom 0 before none (name ++ rest) = (cut rest).push name := by
  cases name with
  | nil => exact cutFrom_of_apart hrest before
  | cons c name =>
      have hnone : keyword? before (c :: name ++ rest) = none :=
        keyword?_append hname hkeyword hrest
      rw [List.all_cons, Bool.and_eq_true] at hname
      have hnext : isAsciiWordAt (some c) = true := hname.1
      rw [List.cons_append] at hnone ⊢
      rw [cutFrom_char (isQuote_of_isAsciiWord hname.1) (paren?_of_isAsciiWord hname.1) hnone,
        cutFrom_inWord hname.2 hnext hrest]
      rfl

end Template
end RecordFilter
