/-
The tokens of a template by position.  A token is looked for behind the layout at the current
position: a parenthesis and a keyword are tokens of their own, and everything else is a fragment,
which goes on to the next of them that is in no literal.
-/
import RecordFilter.Bytewise.Access
import RecordFilter.Template.Token
import RecordFilter.Text.Word

namespace RecordFilter
namespace Bytewise

def isWordByte (b : UInt8) : Bool :=
  Text.isAsciiWord (char b)

def isLayoutByte (b : UInt8) : Bool :=
  Text.isLayout (char b)

/-- Bytes spell a word, in any case. -/
def spells (bytes : List UInt8) (word : List Char) : Bool :=
  Text.sameLetters (bytes.map char) word

theorem lt_length_of_getElem? {α : Type} {items : List α} {position : Nat} {a : α}
    (h : items[position]? = some a) : position < items.length :=
  (List.getElem?_eq_some_iff.mp h).1

/-- The first position from here on with a byte that does not fit, or the end. -/
def skipWhile (fits : UInt8 → Bool) (bytes : List UInt8) (current : Nat) : Nat :=
  match _h : bytes[current]? with
  | none => current
  | some b => if fits b then skipWhile fits bytes (current + 1) else current
termination_by bytes.length - current
decreasing_by
  have hlt := lt_length_of_getElem? _h
  omega

/-- The byte in front of this position, if there is one, belongs to a word. -/
def wordBefore (bytes : List UInt8) (current : Nat) : Except (Stop Error) Bool :=
  if 0 < current then do
    let before ← minus current 1
    let b ← itemAt bytes before
    return isWordByte b
  else .ok false

def atKeyword (word : List Char) (bytes : List UInt8) (current : Nat) :
    Except (Stop Error) Bool := do
  if ← wordBefore bytes current then return false
  let remainder ← onFrom bytes current
  if remainder.length < word.length then return false
  let name ← upTo remainder word.length
  return spells name word && !remainder[word.length]?.any isWordByte

/-- One of the two keywords stands alone here. -/
def atSomeKeyword (bytes : List UInt8) (current : Nat) : Except (Stop Error) Bool := do
  if ← atKeyword ['a', 'n', 'd'] bytes current then return true
  atKeyword ['o', 'r'] bytes current

/-- The position behind a literal that opens with this byte at this position. -/
def literalEnd (bytes : List UInt8) (quote : UInt8) (start : Nat) : Except (Stop Error) Nat :=
  let current := skipWhile (· != quote) bytes (start + 1)
  if bytes.length ≤ current then .error (.fault (.unterminatedString start)) else .ok (current + 1)

theorem le_skipWhile (fits : UInt8 → Bool) (bytes : List UInt8) (current : Nat) :
    current ≤ skipWhile fits bytes current := by
  fun_induction skipWhile fits bytes current <;> omega

theorem lt_literalEnd {bytes : List UInt8} {quote : UInt8} {start next : Nat}
    (h : literalEnd bytes quote start = .ok next) : start < next := by
  have hle := le_skipWhile (· != quote) bytes (start + 1)
  simp only [literalEnd] at h
  split at h
  · cases h
  · cases h
    omega

/-- The first letters of the keywords. -/
def startsKeyword (b : UInt8) : Bool :=
  b = 0x61 || b = 0x41 || b = 0x6F || b = 0x4F

/-- The position of the delimiter that ends a fragment, or the end. -/
def fragmentEnd (bytes : List UInt8) (current : Nat) : Except (Stop Error) Nat :=
  match _h : bytes[current]? with
  | none => .ok current
  | some b =>
      if (Template.paren? (char b)).isSome then .ok current
      else if Quote.isQuote (char b) then
        match _hend : literalEnd bytes b current with
        | .error e => .error e
        | .ok next => fragmentEnd bytes next
      else
        match (if startsKeyword b then atSomeKeyword bytes current else .ok false) with
        | .error e => .error e
        | .ok true => .ok current
        | .ok false => fragmentEnd bytes (current + 1)
termination_by bytes.length - current
decreasing_by
  · have hlt := lt_length_of_getElem? _h
    have hnext := lt_literalEnd _hend
    omega
  · have hlt := lt_length_of_getElem? _h
    omega

/-- The end of a fragment without the layout in front of it. -/
def trimmedEnd (bytes : List UInt8) (start : Nat) : Nat → Except (Stop Error) Nat
  | 0 => .ok 0
  | stop + 1 =>
      if start < stop + 1 then do
        let last ← minus (stop + 1) 1
        let b ← itemAt bytes last
        if isLayoutByte b then trimmedEnd bytes start stop else return stop + 1
      else .ok (stop + 1)

/-- The token behind the layout at a position, and the position behind the token. -/
def nextToken (bytes : List UInt8) (current : Nat) : Except (Stop Error) (Option (Token × Nat)) :=
  let start := skipWhile isLayoutByte bytes current
  match bytes[start]? with
  | none => .ok none
  | some b =>
      match Template.paren? (char b) with
      | some kind => .ok (some ({ kind, start, stop := start + 1 }, start + 1))
      | none => do
          if ← atKeyword ['a', 'n', 'd'] bytes start then
            return some ({ kind := .and, start, stop := start + 3 }, start + 3)
          if ← atKeyword ['o', 'r'] bytes start then
            return some ({ kind := .or, start, stop := start + 2 }, start + 2)
          let next ← fragmentEnd bytes start
          let stop ← trimmedEnd bytes start next
          return some ({ kind := .fragment, start, stop }, next)

theorem le_fragmentEnd {bytes : List UInt8} {current next : Nat}
    (h : fragmentEnd bytes current = .ok next) : current ≤ next := by
  fun_induction fragmentEnd bytes current with
  | case1 current => cases h; omega
  | case2 current => cases h; omega
  | case3 current b _ _ _ e => cases h
  | case4 current b _ _ _ behind hend ih =>
      have hlt := lt_literalEnd hend
      have hle := ih h
      omega
  | case5 => cases h
  | case6 => cases h; omega
  | case7 current b _ _ _ _ ih =>
      have hle := ih h
      omega

/-- A fragment has a character, unless it is looked for where a delimiter stands. -/
theorem lt_fragmentEnd {bytes : List UInt8} {current next : Nat} {b : UInt8}
    (hb : bytes[current]? = some b) (hparen : Template.paren? (char b) = none)
    (hkeyword : atSomeKeyword bytes current = .ok false)
    (h : fragmentEnd bytes current = .ok next) : current < next := by
  rw [fragmentEnd] at h
  split at h
  · rename_i hnone
    rw [hnone] at hb
    cases hb
  · rename_i b' hb'
    obtain rfl : b' = b := Option.some.inj (hb'.symm.trans hb)
    rw [hparen, hkeyword, ite_self] at h
    simp only [Option.isSome_none, Bool.false_eq_true, if_false] at h
    split at h
    · split at h
      · cases h
      · rename_i behind hend
        exact Nat.lt_of_lt_of_le (lt_literalEnd hend) (le_fragmentEnd h)
    · exact le_fragmentEnd h

theorem atSomeKeyword_of_false {bytes : List UInt8} {current : Nat}
    (hand : atKeyword ['a', 'n', 'd'] bytes current = .ok false)
    (hor : atKeyword ['o', 'r'] bytes current = .ok false) :
    atSomeKeyword bytes current = .ok false := by
  rw [atSomeKeyword, hand]
  exact hor

/-- A token moves on. -/
theorem lt_nextToken {bytes : List UInt8} {current next : Nat} {token : Token}
    (h : nextToken bytes current = .ok (some (token, next))) :
    current < bytes.length ∧ current < next := by
  have hstart := le_skipWhile isLayoutByte bytes current
  simp only [nextToken] at h
  generalize skipWhile isLayoutByte bytes current = start at h hstart
  split at h
  · cases h
  · rename_i b hb
    have hlt := lt_length_of_getElem? hb
    refine ⟨by omega, ?_⟩
    split at h
    · cases h
      omega
    · rename_i hparen
      obtain ⟨isAnd, hand, h⟩ := bind_eq_ok_iff.mp h
      cases isAnd with
      | true => cases h; omega
      | false =>
          obtain ⟨isOr, hor, h⟩ := bind_eq_ok_iff.mp h
          cases isOr with
          | true => cases h; omega
          | false =>
              obtain ⟨behind, hend, h⟩ := bind_eq_ok_iff.mp h
              obtain ⟨stop, _, h⟩ := bind_eq_ok_iff.mp h
              have hgt := lt_fragmentEnd hb hparen (atSomeKeyword_of_false hand hor) hend
              cases h
              omega

/-- The tokens from a position on. -/
def tokensFrom (bytes : List UInt8) (current : Nat) : Except (Stop Error) (List Token) :=
  match _h : nextToken bytes current with
  | .error e => .error e
  | .ok none => .ok []
  | .ok (some (token, next)) => (tokensFrom bytes next).map (token :: ·)
termination_by bytes.length - current
decreasing_by
  have hlt := lt_nextToken _h
  omega

/-- The tokens of a template. -/
def tokens (template : List Char) : Except (Stop Error) (List Token) :=
  tokensFrom (Text.encode template) 0

/-- The text of a token. -/
def tokenText (template : List Char) (token : Token) : Except (Stop Error) (List Char) :=
  textBetween template token.start token.stop

end Bytewise
end RecordFilter
