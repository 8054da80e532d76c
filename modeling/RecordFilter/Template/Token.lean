/-
The tokens of a condition template. Only parentheses and the words AND and OR, in any case, are
delimiters; the text in every gap between delimiters is one fragment, to be resolved into a clause
later. Quoted literals hide delimiters, and a keyword counts only where it stands alone as an ASCII
word, so `brand` and `order_id` stay whole.

A template is first cut into pieces, which put together are the template, and then the pieces are
placed: a delimiter is a token, and so is a gap without the layout at its ends, if anything is left.
-/
import RecordFilter.Error
import RecordFilter.Template.Quote
import RecordFilter.Text.Blank
import RecordFilter.Text.Bytes

namespace RecordFilter

inductive TokenKind where
  | openParen
  | closeParen
  | and
  | or
  | fragment
deriving DecidableEq, Repr

/-- A token: its kind and the byte offsets of its text. -/
structure Token where
  kind : TokenKind
  start : Nat
  stop : Nat
deriving DecidableEq, Repr

namespace Template

/-! ## Pieces -/

/-- A piece of a template: a delimiter, or a gap between two of them. -/
inductive Piece where
  | delimiter (kind : TokenKind) (text : List Char)
  | gap (text : List Char)
deriving DecidableEq, Repr

def Piece.text : Piece → List Char
  | .delimiter _ text => text
  | .gap text => text

/-- A template cut into pieces. If a literal is left open, `unclosed` is the text from its quote
on, and the last piece is the gap that holds it. -/
structure Cut where
  pieces : List Piece
  unclosed : Option (List Char)
deriving DecidableEq, Repr

/-- Puts a character in front, into the gap that comes first if there is one. -/
def Cut.pushChar (c : Char) (cut : Cut) : Cut :=
  match cut.pieces with
  | .gap text :: rest => { cut with pieces := .gap (c :: text) :: rest }
  | pieces => { cut with pieces := .gap [c] :: pieces }

def Cut.pushDelimiter (kind : TokenKind) (text : List Char) (cut : Cut) : Cut :=
  { cut with pieces := .delimiter kind text :: cut.pieces }

/-- The keyword that stands alone at the start of a text, after the given character, and how many
letters it has behind the first one. -/
def keyword? (before : Option Char) (text : List Char) : Option (TokenKind × Nat) :=
  if Text.standsAlone ['a', 'n', 'd'] before text then some (.and, 2)
  else if Text.standsAlone ['o', 'r'] before text then some (.or, 1)
  else none

def paren? (c : Char) : Option TokenKind :=
  if c = '(' then some .openParen else if c = ')' then some .closeParen else none

/-- Cuts a text. The first `taken` characters belong to the keyword in front of it already;
`before` is the character in front of it, and `opened` the literal that it starts in, with the text
from the opening quote on. -/
def cutFrom (taken : Nat) (before : Option Char) (opened : Option (Char × List Char)) :
    List Char → Cut
  | [] => { pieces := [], unclosed := opened.map Prod.snd }
  | c :: rest =>
      match taken, opened with
      | taken + 1, opened => cutFrom taken (some c) opened rest
      | 0, some (q, tail) =>
          (cutFrom 0 (some c) (if c = q then none else some (q, tail)) rest).pushChar c
      | 0, none =>
          if Quote.isQuote c then (cutFrom 0 (some c) (some (c, c :: rest)) rest).pushChar c
          else
            match paren? c, keyword? before (c :: rest) with
            | some kind, _ => (cutFrom 0 (some c) none rest).pushDelimiter kind [c]
            | none, some (kind, more) =>
                (cutFrom more (some c) none rest).pushDelimiter kind (c :: rest.take more)
            | none, none => (cutFrom 0 (some c) none rest).pushChar c

def cut (template : List Char) : Cut :=
  cutFrom 0 none none template

theorem flatMap_text_pushChar (c : Char) (cut : Cut) :
    (cut.pushChar c).pieces.flatMap Piece.text = c :: cut.pieces.flatMap Piece.text := by
  rw [Cut.pushChar]
  split
  · rename_i text rest h
    simp [h, Piece.text]
  · simp [Piece.text]

theorem flatMap_text_pushDelimiter (kind : TokenKind) (text : List Char) (cut : Cut) :
    (cut.pushDelimiter kind text).pieces.flatMap Piece.text =
      text ++ cut.pieces.flatMap Piece.text := by
  simp [Cut.pushDelimiter, Piece.text]

theorem flatMap_text_cutFrom (taken : Nat) (before : Option Char)
    (opened : Option (Char × List Char)) (text : List Char) :
    (cutFrom taken before opened text).pieces.flatMap Piece.text = text.drop taken := by
  induction text generalizing taken before opened with
  | nil => simp [cutFrom]
  | cons c rest ih =>
      cases taken with
      | succ taken => rw [cutFrom, ih, List.drop_succ_cons]
      | zero =>
          rw [List.drop_zero]
          cases opened with
          | some literal => rw [cutFrom, flatMap_text_pushChar, ih, List.drop_zero]
          | none =>
              rw [cutFrom]
              split
              · rw [flatMap_text_pushChar, ih, List.drop_zero]
              · split
                · rw [flatMap_text_pushDelimiter, ih, List.drop_zero]
                  rfl
                · rw [flatMap_text_pushDelimiter, ih, List.cons_append, List.take_append_drop]
                · rw [flatMap_text_pushChar, ih, List.drop_zero]

/-- The pieces of a template, put together, are the template. -/
theorem flatMap_text_cut (template : List Char) :
    (cut template).pieces.flatMap Piece.text = template := by
  rw [cut, flatMap_text_cutFrom, List.drop_zero]

/-! ## Tokens -/

/-- A token, and the byte offset at which the text behind its piece starts. -/
structure Placed where
  token : Token
  next : Nat
deriving DecidableEq, Repr

/-- The tokens of pieces, the first of which starts at the given byte offset. -/
def place (start : Nat) : List Piece → List Placed
  | [] => []
  | .delimiter kind text :: rest =>
      let stop := start + Text.byteLength text
      { token := { kind, start, stop }, next := stop } :: place stop rest
  | .gap text :: rest =>
      let next := start + Text.byteLength text
      let left := text.takeWhile Text.isLayout
      let kept := Text.trim Text.isLayout text
      if kept.isEmpty then place next rest
      else
        let first := start + Text.byteLength left
        { token := { kind := .fragment, start := first, stop := first + Text.byteLength kept },
          next } :: place next rest

def unclosedAt? (template : List Char) : Option Nat :=
  (cut template).unclosed.map fun tail => Text.byteLength template - Text.byteLength tail

/-- The tokens that can be told before the template ends or a literal is found open: the fragment
with the open literal in it is not one of them. -/
def readable (template : List Char) : List Placed :=
  let pieces := (cut template).pieces
  match (cut template).unclosed with
  | none => place 0 pieces
  | some _ => place 0 pieces.dropLast

def tokens (template : List Char) : Except Error (List Token) :=
  match unclosedAt? template with
  | some position => .error (.unterminatedString position)
  | none => .ok ((readable template).map Placed.token)

def tokenText (template : List Char) (token : Token) : Except Error (List Char) :=
  match Text.slice? template token.start token.stop with
  | some text => .ok text
  | none => .error (.brokenSpan token.start token.stop)

end Template
end RecordFilter
