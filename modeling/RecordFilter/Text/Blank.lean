/-
Blank characters and trimming. Two notions of blank are in use: layout between the tokens of a
condition is ASCII only, while everything a person may have typed around a word (a clause, a
number, a sort key) is trimmed of every Unicode white space character. Trimming takes the notion
as an argument, so each caller says which one it means.
-/

namespace RecordFilter
namespace Text

/-- The Unicode property White_Space: the twenty-five characters that separate words. -/
def isBlank (c : Char) : Bool :=
  let n := c.toNat
  (9 ≤ n && n ≤ 13) || n == 0x20 || n == 0x85 || n == 0xA0 || n == 0x1680 ||
    (0x2000 ≤ n && n ≤ 0x200A) || n == 0x2028 || n == 0x2029 || n == 0x202F ||
    n == 0x205F || n == 0x3000

/-- The ASCII layout characters: space, tab, line feed, form feed and carriage return. The
vertical tab is not one of them, although it is blank. -/
def isLayout (c : Char) : Bool :=
  c == ' ' || c == '\t' || c == '\n' || c == '\x0c' || c == '\r'

/-- Drops the characters of `skip` from the end. Written from the front, so that it follows the
list: a character goes when it is skipped and nothing is left behind it. -/
def trimEnd (skip : Char → Bool) : List Char → List Char
  | [] => []
  | c :: rest =>
      match trimEnd skip rest with
      | [] => if skip c then [] else [c]
      | d :: kept => c :: d :: kept

/-- Drops the characters of `skip` from both ends. -/
def trim (skip : Char → Bool) (text : List Char) : List Char :=
  trimEnd skip (text.dropWhile skip)

def trimmed (text : String) : String :=
  String.ofList (trim isBlank text.toList)

def allBlank (text : String) : Bool :=
  text.toList.all isBlank

/-- The parts between the characters of `separator`; there is one more part than there are
separators, so the empty text has one empty part. -/
def splitOn (separator : Char → Bool) : List Char → List (List Char)
  | [] => [[]]
  | c :: rest =>
      if separator c then [] :: splitOn separator rest
      else
        match splitOn separator rest with
        | [] => [[c]]
        | part :: parts => (c :: part) :: parts

def words (text : List Char) : List (List Char) :=
  (splitOn isBlank text).filter fun part => !part.isEmpty

/-- The layout characters are blank, and the vertical tab shows that there are more blanks. -/
theorem isBlank_of_isLayout {c : Char} (h : isLayout c = true) : isBlank c = true := by
  simp only [isLayout, Bool.or_eq_true, beq_iff_eq] at h
  rcases h with (((rfl | rfl) | rfl) | rfl) | rfl <;> decide

theorem trimEnd_cons_of_not {skip : Char → Bool} {c : Char} (rest : List Char)
    (h : skip c = false) : trimEnd skip (c :: rest) = c :: trimEnd skip rest := by
  rw [trimEnd]
  cases trimEnd skip rest with
  | nil => simp [h]
  | cons d kept => rfl

/-- What is trimmed off the end was all skippable, and what is kept is an initial part. -/
theorem exists_trimEnd_append (skip : Char → Bool) (text : List Char) :
    ∃ tail, text = trimEnd skip text ++ tail ∧ tail.all skip = true := by
  induction text with
  | nil => exact ⟨[], rfl, rfl⟩
  | cons c rest ih =>
      obtain ⟨tail, hrest, htail⟩ := ih
      rw [trimEnd]
      cases hkept : trimEnd skip rest with
      | nil =>
          rw [hkept, List.nil_append] at hrest
          by_cases hc : skip c = true
          · exact ⟨c :: rest, by simp [hc], by simp [hc, hrest, htail]⟩
          · exact ⟨rest, by simp [hc], by rw [hrest]; exact htail⟩
      | cons d kept =>
          rw [hkept] at hrest
          exact ⟨tail, by rw [hrest]; rfl, htail⟩

theorem splitOn_ne_nil (separator : Char → Bool) (text : List Char) :
    splitOn separator text ≠ [] := by
  cases text with
  | nil => simp [splitOn]
  | cons c rest =>
      rw [splitOn]
      split
      · simp
      · split <;> simp

end Text
end RecordFilter
