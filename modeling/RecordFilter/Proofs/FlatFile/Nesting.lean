/-
The structure of an expression, read without knowing what it means.  Characters make tokens: a
literal stands between single quotes, and a backslash in it takes the next character as it is.
Tokens make terms: each parenthesis is a level of operands, and all the joiners of a level are the
same, so a level that mixes `&&` with `||` is not read, and neither is one whose parentheses do not
match.
-/
import RecordFilter.Backend.FlatFile

namespace RecordFilter
namespace FlatFile

/-! ## Tokens -/

inductive Joiner where
  | and
  | or
deriving DecidableEq, Repr

inductive Token where
  | opening
  | closing
  | comma
  | hole
  | join (joiner : Joiner)
  | literal (text : List Char)
  | word (text : List Char)
deriving DecidableEq, Repr

/-- Where the reader stands: between tokens, or inside one that has begun. -/
inductive Mode where
  | between
  | word (text : List Char)
  | joiner (joiner : Joiner)
  | literal (text : List Char)
  /-- Behind the backslash in a literal. -/
  | escaped (text : List Char)

/-- A character that words are made of. -/
def inWord (c : Char) : Bool :=
  !([' ', '(', ')', ',', '?', '&', '|', '\''].contains c)

/-- A character that begins a token, or is one. -/
def begin (c : Char) : List Token × Mode :=
  match c with
  | ' ' => ([], .between)
  | '(' => ([.opening], .between)
  | ')' => ([.closing], .between)
  | ',' => ([.comma], .between)
  | '?' => ([.hole], .between)
  | '&' => ([], .joiner .and)
  | '|' => ([], .joiner .or)
  | '\'' => ([], .literal [])
  | c => ([], .word [c])

def joinerMark : Joiner → Char
  | .and => '&'
  | .or => '|'

/-- The tokens that a character completes, and where the reader stands behind it. -/
def step (mode : Mode) (c : Char) : Option (List Token × Mode) :=
  match mode with
  | .between => some (begin c)
  | .word text =>
      if inWord c then some ([], .word (text ++ [c]))
      else some (.word text :: (begin c).1, (begin c).2)
  | .joiner joiner => if c = joinerMark joiner then some ([.join joiner], .between) else none
  | .literal text =>
      if c = '\\' then some ([], .escaped text)
      else if c = '\'' then some ([.literal text], .between)
      else some ([], .literal (text ++ [c]))
  | .escaped text => some ([], .literal (text ++ [c]))

def tokensFrom? (mode : Mode) : List Char → Option (List Token)
  | [] =>
      match mode with
      | .between => some []
      | .word text => some [.word text]
      | .joiner _ | .literal _ | .escaped _ => none
  | c :: rest =>
      (step mode c).bind fun found => (tokensFrom? found.2 rest).map (found.1 ++ ·)

/-! ## Terms -/

/-- What an operand is made of.  A group is what stands between parentheses: operands with joiners
between them, of which there is none if there is only one operand. -/
inductive Term where
  | word (text : List Char)
  | literal (text : List Char)
  | hole
  | comma
  | group (joiner : Option Joiner) (operands : List (List Term))

/-- A level as far as it has been read: the operands in front of the last joiner, and the terms
behind it. -/
structure Level where
  joiner : Option Joiner
  operands : List (List Term)
  last : List Term

namespace Level

def empty : Level :=
  { joiner := none, operands := [], last := [] }

def push (l : Level) (t : Term) : Level :=
  { l with last := l.last ++ [t] }

/-- Goes on to the next operand.  The one before must not be empty, and the joiners must agree. -/
def join? (l : Level) (joiner : Joiner) : Option Level :=
  if l.last.isEmpty || l.joiner.any (· ≠ joiner) then none
  else some { joiner := some joiner, operands := l.operands ++ [l.last], last := [] }

def close? (l : Level) : Option Term :=
  if l.last.isEmpty then none else some (.group l.joiner (l.operands ++ [l.last]))

end Level

/-- Reads tokens into a level, inside the levels of the stack.  The whole is read as a group. -/
def nest? (level : Level) (stack : List Level) : List Token → Option Term
  | [] => if stack.isEmpty then level.close? else none
  | .opening :: rest => nest? .empty (level :: stack) rest
  | .closing :: rest =>
      match stack with
      | [] => none
      | outer :: stack => level.close?.bind fun t => nest? (outer.push t) stack rest
  | .join joiner :: rest => (level.join? joiner).bind fun level => nest? level stack rest
  | .comma :: rest => nest? (level.push .comma) stack rest
  | .hole :: rest => nest? (level.push .hole) stack rest
  | .literal text :: rest => nest? (level.push (.literal text)) stack rest
  | .word text :: rest => nest? (level.push (.word text)) stack rest

/-- Reads the rest of a text into a level. -/
def termFrom? (level : Level) (stack : List Level) (text : List Char) : Option Term :=
  (tokensFrom? .between text).bind (nest? level stack)

/-- The structure of a text. -/
def term? (text : List Char) : Option Term :=
  termFrom? .empty [] text

/-- A level that mixes its joiners, and one that is not closed. -/
example : term? "(@a && @b || @c)".toList = none ∧ term? "(@a && @b".toList = none := by
  decide

/-! ## Reading on -/

section

variable (level : Level) (stack : List Level) (rest : List Char)

theorem termFrom?_nil : termFrom? level [] [] = level.close? := rfl

theorem tokensFrom?_begin (c : Char) :
    tokensFrom? .between (c :: rest) = (tokensFrom? (begin c).2 rest).map ((begin c).1 ++ ·) := rfl

/-- A character that is a token by itself. -/
theorem termFrom?_token {c : Char} {token : Token} (h : begin c = ([token], .between)) :
    termFrom? level stack (c :: rest) =
      (tokensFrom? .between rest).bind fun tokens => nest? level stack (token :: tokens) := by
  rw [termFrom?, tokensFrom?_begin, h, Option.bind_map]
  rfl

theorem termFrom?_space : termFrom? level stack (' ' :: rest) = termFrom? level stack rest := by
  rw [termFrom?, tokensFrom?_begin, Option.bind_map]
  rfl

theorem termFrom?_opening :
    termFrom? level stack ('(' :: rest) = termFrom? .empty (level :: stack) rest := by
  rw [termFrom?_token level stack rest rfl]
  rfl

theorem termFrom?_closing {t : Term} (h : level.close? = some t) (outer : Level) :
    termFrom? level (outer :: stack) (')' :: rest) = termFrom? (outer.push t) stack rest := by
  rw [termFrom?_token level (outer :: stack) rest rfl]
  simp only [nest?, h, Option.bind_some]
  rfl

theorem termFrom?_comma :
    termFrom? level stack (',' :: rest) = termFrom? (level.push .comma) stack rest := by
  rw [termFrom?_token level stack rest rfl]
  rfl

theorem termFrom?_hole :
    termFrom? level stack ('?' :: rest) = termFrom? (level.push .hole) stack rest := by
  rw [termFrom?_token level stack rest rfl]
  rfl

def joinerText : Joiner → List Char
  | .and => andText
  | .or => orText

theorem termFrom?_joiner {joiner : Joiner} {next : Level} (h : level.join? joiner = some next) :
    termFrom? level stack (joinerText joiner ++ rest) = termFrom? next stack rest := by
  have htokens : tokensFrom? .between (joinerText joiner ++ rest) =
      (tokensFrom? .between rest).map (.join joiner :: ·) := by
    cases joiner <;>
      simp [joinerText, andText, orText, tokensFrom?, step, begin, joinerMark, Function.comp_def]
  rw [termFrom?, htokens, Option.bind_map, Function.comp_def]
  simp only [nest?, h, Option.bind_some]
  rfl

end

theorem termFrom?_and (level : Level) (stack : List Level) (rest : List Char) {next : Level}
    (h : level.join? .and = some next) :
    termFrom? level stack (andText ++ rest) = termFrom? next stack rest :=
  termFrom?_joiner level stack rest h

/-! ## Words and literals -/

theorem begin_of_inWord {c : Char} (h : inWord c = true) : begin c = ([], .word [c]) := by
  unfold begin
  split <;> first | rfl | cases h

/-- What ends a word: the end of the text, or a character that is part of none. -/
def EndsWord (text : List Char) : Prop :=
  ∀ c ∈ text.head?, inWord c = false

theorem endsWord_cons {c : Char} (h : inWord c = false) (rest : List Char) :
    EndsWord (c :: rest) := by
  intro d hd
  cases hd
  exact h

theorem tokensFrom?_word {text rest : List Char} (hall : text.all inWord = true)
    (hrest : EndsWord rest) (begun : List Char) :
    tokensFrom? (.word begun) (text ++ rest) =
      (tokensFrom? .between rest).map (.word (begun ++ text) :: ·) := by
  induction text generalizing begun with
  | nil =>
      rw [List.nil_append, List.append_nil]
      cases rest with
      | nil => rfl
      | cons c rest =>
          rw [tokensFrom?_begin, tokensFrom?, step, hrest c rfl, Option.map_map]
          rfl
  | cons d text ih =>
      rw [List.all_cons, Bool.and_eq_true] at hall
      rw [List.cons_append, tokensFrom?, step, hall.1]
      simp only [if_true, Option.bind_some, List.nil_append, Option.map_id_fun', id_eq]
      rw [ih hall.2, List.append_assoc]
      rfl

/-- A text is read as a term, unless it goes on as a word. -/
def Reads (text : List Char) (t : Term) : Prop :=
  ∀ (level : Level) (stack : List Level) (rest : List Char), EndsWord rest →
    termFrom? level stack (text ++ rest) = termFrom? (level.push t) stack rest

theorem reads_word {text : List Char} (hne : text ≠ []) (hall : text.all inWord = true) :
    Reads text (.word text) := by
  intro level stack rest hrest
  cases text with
  | nil => exact absurd rfl hne
  | cons d text =>
      rw [List.all_cons, Bool.and_eq_true] at hall
      rw [termFrom?, List.cons_append, tokensFrom?_begin, begin_of_inWord hall.1,
        tokensFrom?_word hall.2 hrest, Option.map_map, Option.bind_map]
      rfl

theorem reads_hole : Reads ['?'] .hole :=
  fun level stack rest _ => termFrom?_hole level stack rest

theorem tokensFrom?_literal (begun text rest : List Char) :
    tokensFrom? (.literal begun) (escapeQuotes text ++ '\'' :: rest) =
      (tokensFrom? .between rest).map (.literal (begun ++ text) :: ·) := by
  induction text generalizing begun with
  | nil => simp [escapeQuotes, tokensFrom?, step]
  | cons c text ih =>
      rw [escapeQuotes]
      split
      · simp [tokensFrom?, step, ih, Function.comp_def]
      · rename_i hplain
        simp only [Bool.or_eq_true, beq_iff_eq, not_or] at hplain
        simp [tokensFrom?, step, hplain.1, hplain.2, ih, Function.comp_def]

/-- A quoted text is one literal, whatever it holds. -/
theorem reads_quoted (text : List Char) : Reads (quoted text) (.literal text) := by
  intro level stack rest _
  rw [termFrom?, quoted, List.append_assoc, List.cons_append, tokensFrom?_begin]
  show (((tokensFrom? (.literal []) (escapeQuotes text ++ '\'' :: rest)).map _).bind _) = _
  rw [tokensFrom?_literal, Option.map_map, Option.bind_map]
  rfl

end FlatFile
end RecordFilter
