/-
What access by position gives inside of the bytes of a text.  A position in a text is given by the
text in front of it, and then each access gives the part of the text that is there.

A byte of a text is either a character of its own, which is ASCII, or it belongs to a longer
character, and then it is above every ASCII byte.  So a class of ASCII characters can be told from
the first byte of a text, and from the last one.
-/
import RecordFilter.Bytewise.Access
import RecordFilter.Proofs.Codec.Scan

namespace RecordFilter
namespace Bytewise

open Text

variable {ε α β : Type}

/-! ## Computations -/

@[simp] theorem lift_ok (a : α) : lift (.ok a : Except ε α) = .ok a := rfl

@[simp] theorem lift_error (e : ε) : lift (.error e : Except ε α) = .error (.fault e) := rfl

/-- What does not go outside never has gone outside. -/
theorem lift_ne_outside (x : Except ε α) : lift x ≠ .error .outside := by
  cases x with
  | ok a => exact fun h => nomatch h
  | error e => exact fun h => nomatch h

theorem lift_map (f : α → β) (x : Except ε α) : lift (x.map f) = (lift x).map f := by
  cases x <;> rfl

/-! ## Positions in lists -/

theorem itemAt_append (left : List α) (a : α) (right : List α) :
    itemAt (ε := ε) (left ++ a :: right) left.length = .ok a := by
  rw [itemAt, List.getElem?_append_right (Nat.le_refl _), Nat.sub_self, List.getElem?_cons_zero]
  rfl

theorem between_append (left middle right : List α) :
    between (ε := ε) (left ++ (middle ++ right)) left.length (left.length + middle.length) =
      .ok middle := by
  have hbounds : left.length ≤ left.length + middle.length ∧
      left.length + middle.length ≤ (left ++ (middle ++ right)).length := by
    simp only [List.length_append]
    omega
  rw [between, if_pos hbounds, ← List.append_assoc, ← List.length_append, List.take_left,
    List.drop_left]

theorem onFrom_append (left right : List α) :
    onFrom (ε := ε) (left ++ right) left.length = .ok right := by
  have h := between_append (ε := ε) left right []
  rw [List.append_nil, ← List.length_append] at h
  exact h

theorem getElem?_append_length (left right : List α) :
    (left ++ right)[left.length]? = right.head? := by
  rw [List.getElem?_append_right (Nat.le_refl _), Nat.sub_self, List.head?_eq_getElem?]

theorem minus_add (m n : Nat) : minus (ε := ε) (m + n) n = .ok m := by
  rw [minus, if_pos (Nat.le_add_left n m), Nat.add_sub_cancel]

/-! ## Positions in texts -/

theorem textBetween_append (left middle right : List Char) :
    textBetween (ε := ε) (left ++ (middle ++ right)) (byteLength left)
        (byteLength left + byteLength middle) = .ok middle := by
  rw [textBetween, slice?_append]
  rfl

theorem textUpTo_append (left right : List Char) :
    textUpTo (ε := ε) (left ++ right) (byteLength left) = .ok left := by
  have h := textBetween_append (ε := ε) [] left right
  rw [List.nil_append, byteLength_nil, Nat.zero_add] at h
  exact h

theorem textOnFrom_append (left right : List Char) :
    textOnFrom (ε := ε) (left ++ right) (byteLength left) = .ok right := by
  have h := textBetween_append (ε := ε) left right []
  rw [List.append_nil, ← byteLength_append] at h
  exact h

/-! ## Bytes of characters -/

theorem char_of_isAscii {c : Char} (h : isAscii c = true) : char (UInt8.ofNat c.toNat) = c := by
  rw [isAscii, decide_eq_true_eq] at h
  have hlt : c.toNat < 256 := by omega
  rw [char, Utf8.toNat_ofNat hlt, Char.ofNat_toNat]

theorem encode_cons_of_isAscii {c : Char} (h : isAscii c = true) (rest : List Char) :
    encode (c :: rest) = UInt8.ofNat c.toNat :: encode rest := by
  rw [encode_cons, utf8EncodeChar_of_isAscii h]
  rfl

theorem length_le_length_encode (text : List Char) : text.length ≤ (encode text).length := by
  rw [length_encode]
  induction text with
  | nil => exact Nat.le_refl 0
  | cons c rest ih =>
      have hpos := Char.utf8Size_pos c
      rw [List.length_cons, byteLength_cons]
      omega

theorem utf8Size_of_isAscii {c : Char} (h : isAscii c = true) : c.utf8Size = 1 := by
  rw [← String.length_utf8EncodeChar, utf8EncodeChar_of_isAscii h]
  rfl

theorem toNat_char (b : UInt8) : (char b).toNat = b.toNat := by
  have hlt := b.toNat_lt
  have hvalid : b.toNat.isValidChar := Or.inl (by omega)
  rw [char, Char.ofNat, dif_pos hvalid]
  rfl

/-- The bytes of a character that is not ASCII are not ASCII either. -/
theorem le_toNat_of_mem {c : Char} (h : isAscii c = false) :
    ∀ b ∈ String.utf8EncodeChar c, 0x80 ≤ b.toNat := by
  have hlong : ¬ c.val.toNat ≤ 0x7F := by
    rw [isAscii, decide_eq_false_iff_not] at h
    exact fun hle => h (Nat.lt_succ_of_le hle)
  rw [String.utf8EncodeChar.eq_1, if_neg hlong]
  generalize c.val.toNat = v
  split
  · simp (disch := omega) only [List.forall_mem_cons, Utf8.toNat_ofNat, List.not_mem_nil,
      false_implies, implies_true, and_true]
    omega
  · split
    · simp (disch := omega) only [List.forall_mem_cons, Utf8.toNat_ofNat, List.not_mem_nil,
        false_implies, implies_true, and_true]
      omega
    · simp (disch := omega) only [List.forall_mem_cons, Utf8.toNat_ofNat, List.not_mem_nil,
        false_implies, implies_true, and_true]
      omega

theorem isAscii_char_of_mem {c : Char} (h : isAscii c = false) {b : UInt8}
    (hb : b ∈ String.utf8EncodeChar c) : isAscii (char b) = false := by
  have hle := le_toNat_of_mem h b hb
  rw [isAscii, decide_eq_false_iff_not, toNat_char]
  omega

theorem utf8EncodeChar_ne_nil (c : Char) : String.utf8EncodeChar c ≠ [] := by
  intro h
  have hlength := String.length_utf8EncodeChar c
  have hpos := Char.utf8Size_pos c
  rw [h, List.length_nil] at hlength
  omega

/-- A class of ASCII characters. -/
def OnlyAscii (p : Char → Bool) : Prop :=
  ∀ c, p c = true → isAscii c = true

theorem OnlyAscii.eq_false {p : Char → Bool} (hp : OnlyAscii p) {c : Char} (h : isAscii c = false) :
    p c = false := by
  refine Bool.eq_false_iff.mpr fun hc => ?_
  rw [hp c hc] at h
  cases h

/-- A class of ASCII characters has the first byte of a text if it has the first character. -/
theorem any_head?_encode {p : Char → Bool} (hp : OnlyAscii p) (text : List Char) :
    (encode text).head?.any (fun b => p (char b)) = text.head?.any p := by
  cases text with
  | nil => rfl
  | cons c rest =>
      by_cases hc : isAscii c = true
      · rw [encode_cons_of_isAscii hc, List.head?_cons, Option.any_some, char_of_isAscii hc]
        rfl
      · rw [Bool.not_eq_true] at hc
        obtain ⟨b, tail, hbytes⟩ := List.exists_cons_of_ne_nil (utf8EncodeChar_ne_nil c)
        have hb : b ∈ String.utf8EncodeChar c := by rw [hbytes]; exact List.mem_cons_self
        rw [encode_cons, hbytes, List.cons_append, List.head?_cons, Option.any_some,
          hp.eq_false (isAscii_char_of_mem hc hb), List.head?_cons, Option.any_some, hp.eq_false hc]

theorem any_getLast?_encode {p : Char → Bool} (hp : OnlyAscii p) (text : List Char) :
    (encode text).getLast?.any (fun b => p (char b)) = text.getLast?.any p := by
  rcases List.eq_nil_or_concat text with rfl | ⟨front, c, rfl⟩
  · rfl
  · rw [List.concat_eq_append, encode_append, List.getLast?_concat, Option.any_some]
    by_cases hc : isAscii c = true
    · rw [encode_cons_of_isAscii hc, encode_nil, List.getLast?_concat, Option.any_some,
        char_of_isAscii hc]
    · rw [Bool.not_eq_true] at hc
      obtain ⟨init, b, hbytes⟩ : ∃ init b, String.utf8EncodeChar c = init ++ [b] :=
        ⟨_, _, (List.dropLast_concat_getLast (utf8EncodeChar_ne_nil c)).symm⟩
      have hb : b ∈ String.utf8EncodeChar c := by
        rw [hbytes]
        exact List.mem_append_right _ List.mem_cons_self
      rw [encode_cons, encode_nil, List.append_nil, hbytes, ← List.append_assoc,
        List.getLast?_concat, Option.any_some, hp.eq_false (isAscii_char_of_mem hc hb),
        hp.eq_false hc]

end Bytewise
end RecordFilter
