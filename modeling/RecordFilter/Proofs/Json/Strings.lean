/-
Strings in JSON texts.  Each character of a string is written as one piece, which is the character
itself, an escape of two characters, or the code unit of a control character, and it is read back
from that piece.  A code unit that was written is never a surrogate.
-/
import RecordFilter.Json.Printer
import RecordFilter.Json.Reader

namespace RecordFilter
namespace Json

open Written (stringRest hexValue? codeUnit?)

/-- The control characters that have an escape of their own. -/
def hasLetter (c : Char) : Bool :=
  c == '\x08' || c == '\t' || c == '\n' || c == '\x0c' || c == '\r'

/-- The piece that a character is written as. -/
def pieceOf (c : Char) : Piece :=
  if c.toNat < 0x20 && !hasLetter c then .codeUnit c.toNat else .char c

theorem codeUnit?_hexDigits {n : Nat} (h : n < 0x20) :
    codeUnit? '0' '0' (hexDigit (n / 16)) (hexDigit (n % 16)) = some n := by
  revert n
  decide

/-- The rest of a string with this piece in front. -/
def withPiece (p : Piece) (found : List Piece × List Char) : List Piece × List Char :=
  (p :: found.1, found.2)

theorem stringRest_codeUnit {n : Nat} (h : n < 0x20) (text : List Char) :
    stringRest (['\\', 'u', '0', '0', hexDigit (n / 16), hexDigit (n % 16)] ++ text) =
      (stringRest text).map (withPiece (.codeUnit n)) := by
  simp only [List.cons_append, List.nil_append]
  rw [stringRest, codeUnit?_hexDigits h]
  cases stringRest text <;> rfl

theorem stringRest_escape {c d : Char} (hunit : d ≠ 'u') (h : Written.escaped? d = some c)
    (text : List Char) :
    stringRest (['\\', d] ++ text) = (stringRest text).map (withPiece (.char c)) := by
  simp only [List.cons_append, List.nil_append]
  rw [stringRest]
  · rw [h]
    cases stringRest text <;> rfl
  · intro a b c d rest heq
    exact absurd heq hunit

theorem stringRest_char {c : Char} (hquote : c ≠ '"') (hbackslash : c ≠ '\\')
    (h : ¬ c.toNat < 0x20) (text : List Char) :
    stringRest ([c] ++ text) = (stringRest text).map (withPiece (.char c)) := by
  rw [List.singleton_append, stringRest]
  · rw [if_neg h]
    cases stringRest text <;> rfl
  · exact hquote
  · intro a b c d rest heq
    exact absurd heq hbackslash
  · intro d rest heq
    exact absurd heq hbackslash

/-- A character is read back as the piece that it is written as. -/
theorem stringRest_escapeChar (c : Char) (text : List Char) :
    stringRest (escapeChar c ++ text) = (stringRest text).map (withPiece (pieceOf c)) := by
  by_cases hquote : c = '"'
  · subst hquote
    exact stringRest_escape (by decide) (by decide) text
  by_cases hbackslash : c = '\\'
  · subst hbackslash
    exact stringRest_escape (by decide) (by decide) text
  by_cases hletter : hasLetter c = true
  · -- Each of the five has a letter, and is read back from it.
    simp only [hasLetter, Bool.or_eq_true, beq_iff_eq] at hletter
    rcases hletter with (((rfl | rfl) | rfl) | rfl) | rfl <;>
      exact stringRest_escape (by decide) (by decide) text
  have hnone := hletter
  simp only [hasLetter, Bool.or_eq_true, beq_iff_eq, not_or] at hnone
  obtain ⟨⟨⟨⟨hbackspace, htab⟩, hnewline⟩, hfeed⟩, hreturn⟩ := hnone
  rw [Bool.not_eq_true] at hletter
  have hescape : escapeChar c = if c.toNat < 0x20 then
      ['\\', 'u', '0', '0', hexDigit (c.toNat / 16), hexDigit (c.toNat % 16)] else [c] := by
    simp only [escapeChar, beq_iff_eq, hquote, hbackslash, hbackspace, htab, hnewline, hfeed,
      hreturn, if_false]
  by_cases hcontrol : c.toNat < 0x20
  · have hpiece : pieceOf c = .codeUnit c.toNat := by
      rw [pieceOf, hletter, decide_eq_true hcontrol]
      rfl
    rw [hescape, if_pos hcontrol, hpiece]
    exact stringRest_codeUnit hcontrol text
  · have hpiece : pieceOf c = .char c := by
      rw [pieceOf, decide_eq_false hcontrol]
      rfl
    rw [hescape, if_neg hcontrol, hpiece]
    exact stringRest_char hquote hbackslash hcontrol text

/-- A string that is written is taken apart into its pieces, up to the quote that closes it. -/
theorem stringRest_escaped (content rest : List Char) :
    stringRest (content.flatMap escapeChar ++ '"' :: rest) = some (content.map pieceOf, rest) := by
  induction content with
  | nil => rw [List.flatMap_nil, List.nil_append, stringRest, List.map_nil]
  | cons c content ih =>
      rw [List.flatMap_cons, List.append_assoc, stringRest_escapeChar, ih]
      rfl

theorem stringText_append (s : String) (rest : List Char) :
    stringText s ++ rest = '"' :: (s.toList.flatMap escapeChar ++ '"' :: rest) := by
  rw [stringText, List.cons_append, List.cons_append, List.append_assoc, List.singleton_append]

/-- A code unit that is no surrogate is a character, whatever follows. -/
theorem characters?_codeUnit {n : Nat} (h : n < 0xD800) (rest : List Piece) :
    characters? (.codeUnit n :: rest) = (characters? rest).map (Char.ofNat n :: ·) := by
  have hhigh : isHighSurrogate n = false := by
    rw [isHighSurrogate, Bool.and_eq_false_iff]
    exact Or.inl (decide_eq_false (by omega))
  have hlow : isLowSurrogate n = false := by
    rw [isLowSurrogate, Bool.and_eq_false_iff]
    exact Or.inl (decide_eq_false (by omega))
  cases rest with
  | nil => simp [characters?, hhigh, hlow]
  | cons p rest =>
      cases p with
      | char c => simp [characters?, hhigh, hlow]
      | codeUnit low => simp [characters?, hhigh, hlow]

theorem characters?_pieceOf (c : Char) (rest : List Piece) :
    characters? (pieceOf c :: rest) = (characters? rest).map (c :: ·) := by
  rw [pieceOf]
  by_cases hcontrol : c.toNat < 0x20 && !hasLetter c
  · have hlt : c.toNat < 0xD800 := by
      rw [Bool.and_eq_true, decide_eq_true_eq] at hcontrol
      exact Nat.lt_trans hcontrol.1 (by decide)
    rw [if_pos hcontrol, characters?_codeUnit hlt, Char.ofNat_toNat]
  · rw [if_neg hcontrol, characters?]

/-- The characters of a string are read back from its pieces. -/
theorem characters?_pieces (content : List Char) :
    characters? (content.map pieceOf) = some content := by
  induction content with
  | nil => rfl
  | cons c content ih => rw [List.map_cons, characters?_pieceOf, ih, Option.map_some]

theorem string?_pieces (s : String) : string? (s.toList.map pieceOf) = some s := by
  rw [string?, characters?_pieces, Option.map_some, String.ofList_toList]

end Json
end RecordFilter
