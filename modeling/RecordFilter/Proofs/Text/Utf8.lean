/-
Decoding undoes encoding.  The bytes of a character are taken apart again by the length that the
first of them announces, whatever follows, so a text is decoded from its own bytes: `decode_encode`.
-/
import RecordFilter.Text.Bytes
import RecordFilter.Text.Utf8

namespace RecordFilter
namespace Text

@[simp] theorem encode_nil : encode [] = [] := rfl

theorem encode_cons (c : Char) (rest : List Char) :
    encode (c :: rest) = String.utf8EncodeChar c ++ encode rest :=
  List.flatMap_cons

@[simp] theorem encode_append (left right : List Char) :
    encode (left ++ right) = encode left ++ encode right :=
  List.flatMap_append

namespace Utf8

section Bytes

variable {n : Nat} (hn : n < 256)

include hn

theorem toNat_ofNat : (UInt8.ofNat n).toNat = n :=
  UInt8.toNat_ofNat_of_lt' hn

theorem ofNat_lt_iff (b : UInt8) : UInt8.ofNat n < b ↔ n < b.toNat := by
  rw [UInt8.lt_iff_toNat_lt, toNat_ofNat hn]

theorem between_ofNat_iff (low high : UInt8) :
    (low ≤ UInt8.ofNat n && UInt8.ofNat n ≤ high) = true ↔ low.toNat ≤ n ∧ n ≤ high.toNat := by
  rw [Bool.and_eq_true, decide_eq_true_eq, decide_eq_true_eq, UInt8.le_iff_toNat_le,
    UInt8.le_iff_toNat_le, toNat_ofNat hn]

theorem ofNat_beq_iff (b : UInt8) : (UInt8.ofNat n == b) = true ↔ n = b.toNat := by
  rw [beq_iff_eq, ← UInt8.toNat_inj, toNat_ofNat hn]

end Bytes

theorem isTail_ofNat (n : Nat) : isTail (UInt8.ofNat (n % 64 + 128)) = true := by
  have hlt : n % 64 + 128 < 256 := by omega
  rw [isTail, between_ofNat_iff hlt]
  show 128 ≤ n % 64 + 128 ∧ n % 64 + 128 ≤ 191
  omega

theorem tailBits_ofNat (n : Nat) : tailBits (UInt8.ofNat (n % 64 + 128)) = n % 64 := by
  rw [tailBits, toNat_ofNat (by omega)]
  omega

/-- The second byte of three is in the narrow range of its first one, since the character is neither
a surrogate nor one that takes two bytes. -/
theorem isSecondOfThree_ofNat {v : Nat} (hlow : 0x800 ≤ v) (hhigh : v < 0x10000)
    (hsurrogate : v < 0xD800 ∨ 0xDFFF < v) :
    isSecondOfThree (UInt8.ofNat (v / 4096 % 16 + 224)) (UInt8.ofNat (v / 64 % 64 + 128)) =
      true := by
  have hfirst : v / 4096 % 16 + 224 < 256 := by omega
  have hsecond : v / 64 % 64 + 128 < 256 := by omega
  unfold isSecondOfThree
  split
  · rename_i heq
    have hvalue : v / 4096 % 16 + 224 = 224 := (ofNat_beq_iff hfirst _).mp heq
    rw [between_ofNat_iff hsecond]
    show 160 ≤ v / 64 % 64 + 128 ∧ v / 64 % 64 + 128 ≤ 191
    omega
  · split
    · rename_i heq
      have hvalue : v / 4096 % 16 + 224 = 237 := (ofNat_beq_iff hfirst _).mp heq
      rw [between_ofNat_iff hsecond]
      show 128 ≤ v / 64 % 64 + 128 ∧ v / 64 % 64 + 128 ≤ 159
      omega
    · exact isTail_ofNat (v / 64)

theorem isSecondOfFour_ofNat {v : Nat} (hlow : 0x10000 ≤ v) (hhigh : v < 0x110000) :
    isSecondOfFour (UInt8.ofNat (v / 262144 % 8 + 240)) (UInt8.ofNat (v / 4096 % 64 + 128)) =
      true := by
  have hfirst : v / 262144 % 8 + 240 < 256 := by omega
  have hsecond : v / 4096 % 64 + 128 < 256 := by omega
  unfold isSecondOfFour
  split
  · rename_i heq
    have hvalue : v / 262144 % 8 + 240 = 240 := (ofNat_beq_iff hfirst _).mp heq
    rw [between_ofNat_iff hsecond]
    show 144 ≤ v / 4096 % 64 + 128 ∧ v / 4096 % 64 + 128 ≤ 191
    omega
  · split
    · rename_i heq
      have hvalue : v / 262144 % 8 + 240 = 244 := (ofNat_beq_iff hfirst _).mp heq
      rw [between_ofNat_iff hsecond]
      show 128 ≤ v / 4096 % 64 + 128 ∧ v / 4096 % 64 + 128 ≤ 143
      omega
    · exact isTail_ofNat (v / 4096)

/-! ## The bytes of one character -/

section Lengths

variable {v : Nat} (index : Nat) (rest : List UInt8)

theorem decodeFrom_one (hv : v < 0x80) :
    decodeFrom index (UInt8.ofNat v :: rest) =
      (decodeFrom (index + 1) rest).map (Char.ofNat v :: ·) := by
  have hbyte : v < 256 := by omega
  have hfirst : UInt8.ofNat v < 0x80 := (ofNat_lt_iff hbyte _).mpr hv
  rw [decodeFrom.eq_def]
  simp only [if_pos hfirst, toNat_ofNat hbyte]

theorem decodeFrom_two (hlow : 0x80 ≤ v) (hhigh : v < 0x800) :
    decodeFrom index (UInt8.ofNat (v / 64 % 32 + 192) :: UInt8.ofNat (v % 64 + 128) :: rest) =
      (decodeFrom (index + 2) rest).map (Char.ofNat v :: ·) := by
  have hbyte : v / 64 % 32 + 192 < 256 := by omega
  have hascii : ¬ UInt8.ofNat (v / 64 % 32 + 192) < 0x80 := by
    rw [ofNat_lt_iff hbyte]
    show ¬ v / 64 % 32 + 192 < 128
    omega
  have htwo : (0xC2 ≤ UInt8.ofNat (v / 64 % 32 + 192) &&
      UInt8.ofNat (v / 64 % 32 + 192) ≤ 0xDF) = true := by
    rw [between_ofNat_iff hbyte]
    show 194 ≤ v / 64 % 32 + 192 ∧ v / 64 % 32 + 192 ≤ 223
    omega
  have hvalue : (v / 64 % 32 + 192) % 32 * 64 + v % 64 = v := by omega
  rw [decodeFrom.eq_def]
  simp only [if_neg hascii, if_pos htwo, isTail_ofNat, if_true, toNat_ofNat hbyte,
    tailBits_ofNat, hvalue]

theorem decodeFrom_three (hlow : 0x800 ≤ v) (hhigh : v < 0x10000)
    (hsurrogate : v < 0xD800 ∨ 0xDFFF < v) :
    decodeFrom index (UInt8.ofNat (v / 4096 % 16 + 224) :: UInt8.ofNat (v / 64 % 64 + 128) ::
        UInt8.ofNat (v % 64 + 128) :: rest) =
      (decodeFrom (index + 3) rest).map (Char.ofNat v :: ·) := by
  have hbyte : v / 4096 % 16 + 224 < 256 := by omega
  have hascii : ¬ UInt8.ofNat (v / 4096 % 16 + 224) < 0x80 := by
    rw [ofNat_lt_iff hbyte]
    show ¬ v / 4096 % 16 + 224 < 128
    omega
  have htwo : ¬ (0xC2 ≤ UInt8.ofNat (v / 4096 % 16 + 224) &&
      UInt8.ofNat (v / 4096 % 16 + 224) ≤ 0xDF) = true := by
    rw [between_ofNat_iff hbyte]
    show ¬ (194 ≤ v / 4096 % 16 + 224 ∧ v / 4096 % 16 + 224 ≤ 223)
    omega
  have hthree : (0xE0 ≤ UInt8.ofNat (v / 4096 % 16 + 224) &&
      UInt8.ofNat (v / 4096 % 16 + 224) ≤ 0xEF) = true := by
    rw [between_ofNat_iff hbyte]
    show 224 ≤ v / 4096 % 16 + 224 ∧ v / 4096 % 16 + 224 ≤ 239
    omega
  have hvalue : ((v / 4096 % 16 + 224) % 16 * 64 + v / 64 % 64) * 64 + v % 64 = v := by omega
  rw [decodeFrom.eq_def]
  simp only [if_neg hascii, if_neg htwo, if_pos hthree,
    isSecondOfThree_ofNat hlow hhigh hsurrogate, isTail_ofNat, if_true, toNat_ofNat hbyte,
    tailBits_ofNat, hvalue]

theorem decodeFrom_four (hlow : 0x10000 ≤ v) (hhigh : v < 0x110000) :
    decodeFrom index (UInt8.ofNat (v / 262144 % 8 + 240) :: UInt8.ofNat (v / 4096 % 64 + 128) ::
        UInt8.ofNat (v / 64 % 64 + 128) :: UInt8.ofNat (v % 64 + 128) :: rest) =
      (decodeFrom (index + 4) rest).map (Char.ofNat v :: ·) := by
  have hbyte : v / 262144 % 8 + 240 < 256 := by omega
  have hascii : ¬ UInt8.ofNat (v / 262144 % 8 + 240) < 0x80 := by
    rw [ofNat_lt_iff hbyte]
    show ¬ v / 262144 % 8 + 240 < 128
    omega
  have htwo : ¬ (0xC2 ≤ UInt8.ofNat (v / 262144 % 8 + 240) &&
      UInt8.ofNat (v / 262144 % 8 + 240) ≤ 0xDF) = true := by
    rw [between_ofNat_iff hbyte]
    show ¬ (194 ≤ v / 262144 % 8 + 240 ∧ v / 262144 % 8 + 240 ≤ 223)
    omega
  have hthree : ¬ (0xE0 ≤ UInt8.ofNat (v / 262144 % 8 + 240) &&
      UInt8.ofNat (v / 262144 % 8 + 240) ≤ 0xEF) = true := by
    rw [between_ofNat_iff hbyte]
    show ¬ (224 ≤ v / 262144 % 8 + 240 ∧ v / 262144 % 8 + 240 ≤ 239)
    omega
  have hfour : (0xF0 ≤ UInt8.ofNat (v / 262144 % 8 + 240) &&
      UInt8.ofNat (v / 262144 % 8 + 240) ≤ 0xF4) = true := by
    rw [between_ofNat_iff hbyte]
    show 240 ≤ v / 262144 % 8 + 240 ∧ v / 262144 % 8 + 240 ≤ 244
    omega
  have hvalue : (((v / 262144 % 8 + 240) % 8 * 64 + v / 4096 % 64) * 64 + v / 64 % 64) * 64 +
      v % 64 = v := by omega
  rw [decodeFrom.eq_def]
  simp only [if_neg hascii, if_neg htwo, if_neg hthree, if_pos hfour,
    isSecondOfFour_ofNat hlow hhigh, isTail_ofNat, if_true, toNat_ofNat hbyte, tailBits_ofNat,
    hvalue]

end Lengths

theorem decodeFrom_encodeChar (c : Char) (index : Nat) (rest : List UInt8) :
    decodeFrom index (String.utf8EncodeChar c ++ rest) =
      (decodeFrom (index + c.utf8Size) rest).map (c :: ·) := by
  have hvalid : c.val.toNat < 0xD800 ∨ 0xDFFF < c.val.toNat ∧ c.val.toNat < 0x110000 := c.valid
  have hback : Char.ofNat c.val.toNat = c := Char.ofNat_toNat c
  rw [← String.length_utf8EncodeChar, String.utf8EncodeChar.eq_1]
  split
  · exact (decodeFrom_one index rest (by omega)).trans (by rw [hback]; rfl)
  · split
    · exact (decodeFrom_two index rest (by omega) (by omega)).trans (by rw [hback]; rfl)
    · split
      · exact (decodeFrom_three index rest (by omega) (by omega) (by omega)).trans
          (by rw [hback]; rfl)
      · exact (decodeFrom_four index rest (by omega) (by omega)).trans (by rw [hback]; rfl)

/-- A text is decoded from its own bytes. -/
theorem decode_encode (text : List Char) : decode (encode text) = .ok text := by
  have hfrom : ∀ index, decodeFrom index (encode text) = .ok text := by
    induction text with
    | nil => exact fun _ => rfl
    | cons c rest ih =>
        intro index
        rw [encode_cons, decodeFrom_encodeChar, ih]
        rfl
  exact hfrom 0

end Utf8
end Text
end RecordFilter
