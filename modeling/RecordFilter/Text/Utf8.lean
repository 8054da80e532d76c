/-
Reading UTF-8. A byte sequence is decoded strictly: no overlong forms, no surrogates, nothing past
U+10FFFF. The first fault is reported with its index, and with the length of the rejected sequence
unless the bytes simply ended inside a character.
-/

namespace RecordFilter
namespace Text
namespace Utf8

inductive Fault where
  /-- The bytes end inside the character that starts at `index`. -/
  | incomplete (index : Nat)
  /-- The `size` bytes from `index` on begin no character. -/
  | invalid (size index : Nat)
deriving DecidableEq, Repr

def Fault.message : Fault → String
  | .incomplete index => "incomplete utf-8 byte sequence from index " ++ toString index
  | .invalid size index =>
      "invalid utf-8 sequence of " ++ toString size ++ " bytes from index " ++ toString index

def isTail (b : UInt8) : Bool :=
  0x80 ≤ b && b ≤ 0xBF

/-- A second byte that may follow the first byte of a three-byte character. The narrow ranges
keep out overlong forms and surrogates. -/
def isSecondOfThree (a b : UInt8) : Bool :=
  if a == 0xE0 then 0xA0 ≤ b && b ≤ 0xBF
  else if a == 0xED then 0x80 ≤ b && b ≤ 0x9F
  else isTail b

/-- A second byte that may follow the first byte of a four-byte character. -/
def isSecondOfFour (a b : UInt8) : Bool :=
  if a == 0xF0 then 0x90 ≤ b && b ≤ 0xBF
  else if a == 0xF4 then 0x80 ≤ b && b ≤ 0x8F
  else isTail b

def tailBits (b : UInt8) : Nat :=
  b.toNat % 64

/-- Reads the characters of a byte sequence whose first byte has the given index. -/
def decodeFrom (index : Nat) : List UInt8 → Except Fault (List Char)
  | [] => .ok []
  | a :: rest =>
      if a < 0x80 then
        (decodeFrom (index + 1) rest).map (Char.ofNat a.toNat :: ·)
      else if 0xC2 ≤ a && a ≤ 0xDF then
        match rest with
        | [] => .error (.incomplete index)
        | b :: rest =>
            if isTail b then
              (decodeFrom (index + 2) rest).map
                (Char.ofNat (a.toNat % 32 * 64 + tailBits b) :: ·)
            else .error (.invalid 1 index)
      else if 0xE0 ≤ a && a ≤ 0xEF then
        match rest with
        | [] => .error (.incomplete index)
        | b :: rest =>
            if isSecondOfThree a b then
              match rest with
              | [] => .error (.incomplete index)
              | c :: rest =>
                  if isTail c then
                    (decodeFrom (index + 3) rest).map
                      (Char.ofNat ((a.toNat % 16 * 64 + tailBits b) * 64 + tailBits c) :: ·)
                  else .error (.invalid 2 index)
            else .error (.invalid 1 index)
      else if 0xF0 ≤ a && a ≤ 0xF4 then
        match rest with
        | [] => .error (.incomplete index)
        | b :: rest =>
            if isSecondOfFour a b then
              match rest with
              | [] => .error (.incomplete index)
              | c :: rest =>
                  if isTail c then
                    match rest with
                    | [] => .error (.incomplete index)
                    | d :: rest =>
                        if isTail d then
                          (decodeFrom (index + 4) rest).map
                            (Char.ofNat (((a.toNat % 8 * 64 + tailBits b) * 64 + tailBits c) * 64 +
                              tailBits d) :: ·)
                        else .error (.invalid 3 index)
                  else .error (.invalid 2 index)
            else .error (.invalid 1 index)
      else .error (.invalid 1 index)

def decode (bytes : List UInt8) : Except Fault (List Char) :=
  decodeFrom 0 bytes

end Utf8
end Text
end RecordFilter
