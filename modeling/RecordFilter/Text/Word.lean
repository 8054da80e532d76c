/-
Word characters, in the two senses that conditions use. The keywords and operators of a condition
stand alone among ASCII words; the identifiers inside a fragment that is passed on as written are
delimited by Unicode words. An ASCII word character is a word character in both senses.
-/
import RecordFilter.Text.WordRanges

namespace RecordFilter
namespace Text

def isAsciiLetter (c : Char) : Bool :=
  ('a' ≤ c && c ≤ 'z') || ('A' ≤ c && c ≤ 'Z')

def isAsciiDigit (c : Char) : Bool :=
  '0' ≤ c && c ≤ '9'

def isAsciiWord (c : Char) : Bool :=
  isAsciiLetter c || isAsciiDigit c || c == '_'

def inRanges (ranges : List (Nat × Nat)) (n : Nat) : Bool :=
  ranges.any fun range => range.1 ≤ n && n ≤ range.2

/-- A Unicode word character: alphabetic, a mark, a decimal digit, connector punctuation or a
join control. Below U+0080 these are the ASCII word characters. -/
def isWord (c : Char) : Bool :=
  if c.toNat < 0x80 then isAsciiWord c else inRanges wordRanges c.toNat

/-- The character that an ASCII letter is in lower case; every other one is itself. -/
def lowerAscii (c : Char) : Char :=
  if 'A' ≤ c && c ≤ 'Z' then Char.ofNat (c.toNat + 32) else c

def lower (text : List Char) : List Char :=
  text.map lowerAscii

/-- Equality of texts that does not look at the case of ASCII letters. -/
def sameLetters (left right : List Char) : Bool :=
  lower left == lower right

/-- An optional character that is an ASCII word character. The neighbours of a keyword are given
in this form, because at the ends of a text there is none. -/
def isAsciiWordAt (c : Option Char) : Bool :=
  c.any isAsciiWord

/-- A text starts with this word, in any case, and the word stands alone: neither the character
before it nor the one behind it is an ASCII word character. -/
def standsAlone (word : List Char) (before : Option Char) (text : List Char) : Bool :=
  sameLetters (text.take word.length) word && !isAsciiWordAt before &&
    !isAsciiWordAt (text.drop word.length).head?

theorem toNat_lt_of_isAsciiWord {c : Char} (h : isAsciiWord c = true) : c.toNat < 0x80 := by
  simp only [isAsciiWord, isAsciiLetter, isAsciiDigit, Bool.or_eq_true, Bool.and_eq_true,
    decide_eq_true_eq, beq_iff_eq, Char.le_def, UInt32.le_iff_toNat_le] at h
  have key : ∀ d : Char, d.toNat < 0x80 → c.val.toNat ≤ d.val.toNat → c.toNat < 0x80 :=
    fun d hd hc => Nat.lt_of_le_of_lt hc hd
  rcases h with ((⟨_, h⟩ | ⟨_, h⟩) | ⟨_, h⟩) | rfl
  · exact key 'z' (by decide) h
  · exact key 'Z' (by decide) h
  · exact key '9' (by decide) h
  · decide

theorem isWord_of_isAsciiWord {c : Char} (h : isAsciiWord c = true) : isWord c = true := by
  rw [isWord, if_pos (toNat_lt_of_isAsciiWord h), h]

end Text
end RecordFilter
