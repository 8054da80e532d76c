/-
Tokens without offsets.  A token gives the byte offsets of its text, and whoever reads the template
takes that text back out of it.  `tokens_spell` says that this round about way gives what the pieces
say directly: the tokens of a template and the lexemes of its pieces agree one by one in kind and in
text.  Everything that depends on a template only through the texts of its tokens can then be stated
about `lexemes`, where no offset occurs.
-/
import RecordFilter.Template.Token
import Mathlib.Data.List.Forall2

namespace RecordFilter

namespace Text

/-- What trimming takes off on the left is the longest skippable start, and what it takes off on
the right is skippable as well. -/
theorem exists_trim_append (skip : Char → Bool) (text : List Char) :
    ∃ tail, text = text.takeWhile skip ++ (trim skip text ++ tail) ∧ tail.all skip = true := by
  obtain ⟨tail, htext, htail⟩ := exists_trimEnd_append skip (text.dropWhile skip)
  refine ⟨tail, ?_, htail⟩
  rw [trim, ← htext, List.takeWhile_append_dropWhile]

end Text

namespace Template

structure Lexeme where
  kind : TokenKind
  text : List Char
deriving DecidableEq, Repr

/-- The lexeme of a piece.  A gap with nothing but layout in it has none. -/
def Piece.lexeme? : Piece → Option Lexeme
  | .delimiter kind text => some { kind, text }
  | .gap text =>
      let kept := Text.trim Text.isLayout text
      if kept.isEmpty then none else some { kind := .fragment, text := kept }

def Cut.lexemes (cut : Cut) : List Lexeme :=
  cut.pieces.filterMap Piece.lexeme?

def lexemes (template : List Char) : List Lexeme :=
  (cut template).lexemes

/-- A token of a template has the kind and the text of a lexeme. -/
def Spells (template : List Char) (token : Token) (lexeme : Lexeme) : Prop :=
  token.kind = lexeme.kind ∧ tokenText template token = .ok lexeme.text

theorem tokenText_append (front text back : List Char) (kind : TokenKind) :
    tokenText (front ++ (text ++ back))
        { kind, start := Text.byteLength front
          stop := Text.byteLength front + Text.byteLength text } = .ok text := by
  rw [tokenText, Text.slice?_append]

/-- The pieces behind some part of a template are placed where the template has their texts. -/
theorem place_spells (front : List Char) (pieces : List Piece) :
    List.Forall₂ (Spells (front ++ pieces.flatMap Piece.text))
      ((place (Text.byteLength front) pieces).map Placed.token)
      (pieces.filterMap Piece.lexeme?) := by
  induction pieces generalizing front with
  | nil => exact List.Forall₂.nil
  | cons piece rest ih =>
      have hnext := ih (front ++ piece.text)
      rw [Text.byteLength_append, List.append_assoc] at hnext
      rw [List.flatMap_cons]
      cases piece with
      | delimiter kind text =>
          have hsome : Piece.lexeme? (.delimiter kind text) = some { kind, text } := rfl
          rw [place, List.map_cons, List.filterMap_cons_some hsome]
          exact List.Forall₂.cons ⟨rfl, tokenText_append front text _ kind⟩ hnext
      | gap text =>
          rw [place]
          by_cases hempty : (Text.trim Text.isLayout text).isEmpty = true
          · have hnone : Piece.lexeme? (.gap text) = none := by
              rw [Piece.lexeme?, if_pos hempty]
            rw [List.filterMap_cons_none hnone]
            simp only [hempty, if_true]
            exact hnext
          · have hsome : Piece.lexeme? (.gap text) =
                some { kind := .fragment, text := Text.trim Text.isLayout text } := by
              rw [Piece.lexeme?, if_neg hempty]
            rw [List.filterMap_cons_some hsome]
            simp only [hempty, if_false, Bool.false_eq_true, List.map_cons]
            refine List.Forall₂.cons ⟨rfl, ?_⟩ hnext
            -- The kept text starts behind the layout at the start of the gap.
            obtain ⟨tail, htext, _⟩ := Text.exists_trim_append Text.isLayout text
            have hsplit : front ++ (Piece.text (.gap text) ++ rest.flatMap Piece.text) =
                (front ++ text.takeWhile Text.isLayout) ++
                  (Text.trim Text.isLayout text ++ (tail ++ rest.flatMap Piece.text)) := by
              show front ++ (text ++ _) = _
              conv_lhs => rw [htext]
              simp only [List.append_assoc]
            rw [hsplit, ← Text.byteLength_append]
            exact tokenText_append _ _ _ _

/-- A template without an open literal has tokens, and they are its lexemes. -/
theorem tokens_spell {template : List Char} (h : (cut template).unclosed = none) :
    ∃ toks, tokens template = .ok toks ∧
      List.Forall₂ (Spells template) toks (lexemes template) := by
  refine ⟨(place 0 (cut template).pieces).map Placed.token, ?_, ?_⟩
  · simp only [tokens, unclosedAt?, readable, h, Option.map_none]
  · have hplaced := place_spells [] (cut template).pieces
    rw [List.nil_append, flatMap_text_cut] at hplaced
    exact hplaced

theorem unclosed_eq_none_of_tokens {template : List Char} {toks : List Token}
    (h : tokens template = .ok toks) : (cut template).unclosed = none := by
  cases hopen : (cut template).unclosed with
  | none => rfl
  | some tail =>
      simp only [tokens, unclosedAt?, hopen, Option.map_some] at h
      cases h

theorem spells_of_tokens {template : List Char} {toks : List Token}
    (h : tokens template = .ok toks) :
    List.Forall₂ (Spells template) toks (lexemes template) := by
  obtain ⟨others, hothers, hspell⟩ := tokens_spell (unclosed_eq_none_of_tokens h)
  rw [h] at hothers
  cases hothers
  exact hspell

theorem map_kind_of_spells {template : List Char} {toks : List Token} {ls : List Lexeme}
    (h : List.Forall₂ (Spells template) toks ls) :
    toks.map Token.kind = ls.map Lexeme.kind := by
  induction h with
  | nil => rfl
  | cons hspell _ ih => rw [List.map_cons, List.map_cons, hspell.1, ih]

/-- The total of a count over the fragments among some lexemes. -/
def total (count : List Char → Nat) : List Lexeme → Nat
  | [] => 0
  | l :: rest => (if l.kind = .fragment then count l.text else 0) + total count rest

theorem total_fragment (count : List Char → Nat) (text : List Char) (rest : List Lexeme) :
    total count ({ kind := .fragment, text } :: rest) = count text + total count rest := rfl

theorem total_delimiter (count : List Char → Nat) {l : Lexeme} (h : l.kind ≠ .fragment)
    (rest : List Lexeme) : total count (l :: rest) = total count rest := by
  rw [total, if_neg h, Nat.zero_add]

theorem total_append (count : List Char → Nat) (left right : List Lexeme) :
    total count (left ++ right) = total count left + total count right := by
  induction left with
  | nil => rw [List.nil_append, total, Nat.zero_add]
  | cons l rest ih => rw [List.cons_append, total, total, ih, Nat.add_assoc]

end Template
end RecordFilter
