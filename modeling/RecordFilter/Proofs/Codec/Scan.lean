/-
Reading the pieces of a serialized text.  A cursor in front of a text that was written is moved
behind it, piece by piece: a byte that is expected, a part up to a delimiter, a string of a given
length.

A reader can fail on what was written in two ways.  Arrays may nest too deep; and a text may be
longer than any position, so that a length in it is no count.  `Gives` says of the outcome of a
reader that it is the value that was written, or else one of these two failures, and `Gives.bind`
puts readers one behind the other.
-/
import RecordFilter.Codec.Serialized
import RecordFilter.Error
import RecordFilter.Proofs.Codec.Shorter
import RecordFilter.Proofs.Number.ReadBack
import RecordFilter.Proofs.Text.Utf8

namespace RecordFilter

namespace Text

def isAscii (c : Char) : Bool :=
  c.toNat < 0x80

theorem utf8EncodeChar_of_isAscii {c : Char} (h : isAscii c = true) :
    String.utf8EncodeChar c = [UInt8.ofNat c.toNat] := by
  rw [isAscii, decide_eq_true_eq] at h
  have hle : c.val.toNat ≤ 127 := Nat.le_of_lt_succ h
  rw [String.utf8EncodeChar.eq_1, if_pos hle]
  rfl

end Text

namespace Serialized

open Number Text

/-! ## Outcomes -/

section

variable {α β : Type}

/-- A reader gives this value and moves behind the text that it reads, and the text is not too deep;
or it stops because the text is too deep, or because the text reaches beyond every position. -/
def Gives (result : Except SerializedFault (α × Cursor)) (a : α) (behind : Cursor)
    (deep : Prop) : Prop :=
  match result with
  | .ok found => found = (a, behind) ∧ ¬ deep
  | .error fault => (deep ∧ fault = .tooDeep depthLimit) ∨ greatestPosition < behind.position

theorem Gives.of_overrun {fault : SerializedFault} {a : α} {behind : Cursor} (deep : Prop)
    (h : greatestPosition < behind.position) :
    Gives (.error fault : Except SerializedFault (α × Cursor)) a behind deep :=
  Or.inr h

theorem Gives.of_ok {result : Except SerializedFault (α × Cursor)} {a : α} {behind : Cursor}
    {deep : Prop} (h : result = .ok (a, behind)) (hdeep : ¬ deep) : Gives result a behind deep := by
  rw [h]
  exact ⟨rfl, hdeep⟩

theorem Gives.of_shallow {result : Except SerializedFault (α × Cursor)} {a : α} {behind : Cursor}
    {deep : Prop} (h : Gives result a behind False) (hdeep : ¬ deep) :
    Gives result a behind deep := by
  rw [eq_false hdeep]
  exact h

theorem Gives.map {result : Except SerializedFault (α × Cursor)} {a : α} {behind : Cursor}
    {deep : Prop} (h : Gives result a behind deep) (f : α → β) :
    Gives (result >>= fun found => .ok (f found.1, found.2)) (f a) behind deep := by
  cases result with
  | error fault => exact h
  | ok found =>
      obtain ⟨rfl, hdeep⟩ := h
      exact ⟨rfl, hdeep⟩

/-- Readers one behind the other give what the last one gives, if the first gives what it needs.
The text is too deep if one of its parts is. -/
theorem Gives.bind {first : Except SerializedFault (α × Cursor)}
    {next : α × Cursor → Except SerializedFault (β × Cursor)} {a : α} {b : β}
    {middle behind : Cursor} {deep deepNext : Prop} (hfirst : Gives first a middle deep)
    (hnext : Gives (next (a, middle)) b behind deepNext)
    (hle : middle.position ≤ behind.position) :
    Gives (first >>= next) b behind (deep ∨ deepNext) := by
  cases first with
  | error fault =>
      rcases hfirst with ⟨hdeep, hfault⟩ | hoverrun
      · exact Or.inl ⟨Or.inl hdeep, hfault⟩
      · exact Or.inr (Nat.lt_of_lt_of_le hoverrun hle)
  | ok found =>
      obtain ⟨rfl, hdeep⟩ := hfirst
      show Gives (next (a, middle)) b behind (deep ∨ deepNext)
      cases hresult : next (a, middle) with
      | error fault =>
          rw [hresult] at hnext
          rcases hnext with ⟨hdeepNext, hfault⟩ | hoverrun
          · exact Or.inl ⟨Or.inr hdeepNext, hfault⟩
          · exact Or.inr hoverrun
      | ok last =>
          rw [hresult] at hnext
          exact ⟨hnext.1, fun h => h.elim hdeep hnext.2⟩

end

/-! ## Cursors in front of texts -/

/-- The cursor in front of a text that other bytes follow. -/
def before (text : List Char) (rest : List UInt8) (position : Nat) : Cursor :=
  { rest := encode text ++ rest, position }

@[simp] theorem position_before (text : List Char) (rest : List UInt8) (position : Nat) :
    (before text rest position).position = position := rfl

theorem before_cons {c : Char} (hc : isAscii c = true) (text : List Char) (rest : List UInt8)
    (position : Nat) :
    before (c :: text) rest position =
      { rest := byte c :: (before text rest position).rest, position } := by
  rw [before, encode_cons, utf8EncodeChar_of_isAscii hc]
  rfl

theorem expect_before {c : Char} (hc : isAscii c = true) (text : List Char) (rest : List UInt8)
    (position : Nat) :
    expect (byte c) (before (c :: text) rest position) = .ok (before text rest (position + 1)) := by
  rw [before_cons hc]
  exact if_pos rfl

/-- ASCII characters other than the one that ends a part. -/
def Within (stop : Char) (part : List Char) : Prop :=
  ∀ c ∈ part, isAscii c = true ∧ c ≠ stop

instance (stop : Char) (part : List Char) : Decidable (Within stop part) :=
  List.decidableBAll (fun c => isAscii c = true ∧ c ≠ stop) part

theorem byte_ne {c stop : Char} (hc : isAscii c = true) (hstop : isAscii stop = true)
    (hne : c ≠ stop) : byte c ≠ byte stop := by
  intro heq
  rw [isAscii, decide_eq_true_eq] at hc hstop
  have hvalue := congrArg UInt8.toNat heq
  have hsize : ∀ n < 0x80, n < UInt8.size := fun n hn => Nat.lt_trans hn (by decide)
  rw [byte, byte, UInt8.toNat_ofNat_of_lt' (hsize _ hc), UInt8.toNat_ofNat_of_lt' (hsize _ hstop)]
    at hvalue
  exact hne (Char.toNat_inj.mp hvalue)

theorem encode_within {stop : Char} (hstop : isAscii stop = true) {part : List Char}
    (hpart : Within stop part) : ∀ b ∈ encode part, b ≠ byte stop := by
  intro b hb
  obtain ⟨c, hc, hbyte⟩ := List.mem_flatMap.mp hb
  rw [utf8EncodeChar_of_isAscii (hpart c hc).1, List.mem_singleton] at hbyte
  rw [hbyte]
  exact byte_ne (hpart c hc).1 hstop (hpart c hc).2

theorem characters_encode (text : List Char) : characters (encode text) = .ok text := by
  rw [characters, Utf8.decode_encode]

/-- A part is read up to the delimiter behind it. -/
theorem upTo_before {stop : Char} (hstop : isAscii stop = true) {part : List Char}
    (hpart : Within stop part) (text : List Char) (rest : List UInt8) (position : Nat) :
    upTo (byte stop) (before (part ++ stop :: text) rest position) =
      .ok (part, before text rest (position + byteLength part + 1)) := by
  have hrest : (before (part ++ stop :: text) rest position).rest =
      encode part ++ byte stop :: (before text rest position).rest := by
    rw [before, encode_append, encode_cons, utf8EncodeChar_of_isAscii hstop, List.append_assoc]
    rfl
  have hall : ∀ b ∈ encode part, (b != byte stop) = true := fun b hb =>
    bne_iff_ne.mpr (encode_within hstop hpart b hb)
  have htake : (before (part ++ stop :: text) rest position).rest.takeWhile (· != byte stop) =
      encode part := by
    rw [hrest, List.takeWhile_append_of_pos hall, List.takeWhile_cons_of_neg (by simp),
      List.append_nil]
  have hdrop : (before (part ++ stop :: text) rest position).rest.dropWhile (· != byte stop) =
      byte stop :: (before text rest position).rest := by
    rw [hrest, List.dropWhile_append_of_pos hall, List.dropWhile_cons_of_neg (by simp)]
  rw [upTo, htake, hdrop]
  dsimp only
  rw [characters_encode, length_encode]
  rfl

theorem byteLength_le_length_before (part text : List Char) (rest : List UInt8) (position : Nat) :
    byteLength part ≤ (before (part ++ text) rest position).rest.length := by
  rw [before, List.length_append, length_encode, byteLength_append]
  omega

theorem take_before (part text : List Char) (rest : List UInt8) (position : Nat) :
    (before (part ++ text) rest position).rest.take (byteLength part) = encode part := by
  rw [before, encode_append, List.append_assoc, ← length_encode, List.take_left]

theorem drop_before (part text : List Char) (rest : List UInt8) (position behind : Nat) :
    (before (part ++ text) rest position).rest.drop (byteLength part) =
      (before text rest behind).rest := by
  rw [before, encode_append, List.append_assoc, ← length_encode, List.drop_left]
  rfl

/-! ## Texts of numbers -/

theorem isAscii_of_isAsciiDigit {c : Char} (h : isAsciiDigit c = true) : isAscii c = true := by
  have hword : isAsciiWord c = true := by rw [isAsciiWord, h, Bool.or_true, Bool.true_or]
  rw [isAscii, decide_eq_true_eq]
  exact toNat_lt_of_isAsciiWord hword

theorem within_digitsOf {stop : Char} (hstop : isAsciiDigit stop = false) (n : Nat) :
    Within stop (digitsOf n) := by
  intro c hc
  have hdigit := List.all_eq_true.mp (all_digitsOf n) c hc
  refine ⟨isAscii_of_isAsciiDigit hdigit, ?_⟩
  rintro rfl
  rw [hdigit] at hstop
  cases hstop

theorem within_integerText (n : Int) : Within ';' (integerText n) := by
  intro c hc
  unfold integerText at hc
  split at hc
  · rcases List.mem_cons.mp hc with rfl | hc
    · exact ⟨rfl, by decide⟩
    · exact within_digitsOf (by decide) _ c hc
  · exact within_digitsOf (by decide) _ c hc

theorem within_digitOrPoint {text : List Char} (h : text.all isDigitOrPoint = true) :
    Within ';' text := by
  intro c hc
  have hplain := List.all_eq_true.mp h c hc
  rw [isDigitOrPoint, Bool.or_eq_true, beq_iff_eq] at hplain
  rcases hplain with hdigit | rfl
  · refine ⟨isAscii_of_isAsciiDigit hdigit, ?_⟩
    rintro rfl
    cases hdigit
  · exact ⟨rfl, by decide⟩

theorem within_floatText (x : Binary64) : Within ';' (floatText x) := by
  cases x with
  | nan => decide
  | infinite negative => cases negative <;> decide
  | finite negative rank =>
      have hplain := within_digitOrPoint (all_magnitudeText rank)
      cases negative with
      | false => exact hplain
      | true =>
          intro c hc
          rcases List.mem_cons.mp hc with rfl | hc
          · exact ⟨rfl, by decide⟩
          · exact hplain c hc

theorem readFloat_floatText (x : Binary64) : readFloat (floatText x) = .ok (.float x) := by
  cases x with
  | nan => rfl
  | infinite negative => cases negative <;> rfl
  | finite negative rank =>
      have hread := Binary64.read?_plainText (.finite negative rank)
      have hne : ∀ word : List Char, Binary64.read? word ≠ some (.finite negative rank) →
          (Binary64.finite negative rank).plainText ≠ word := by
        rintro word hword rfl
        exact hword hread
      have hreadNan : Binary64.read? ['N', 'A', 'N'] = some .nan := rfl
      have hreadInf : Binary64.read? ['I', 'N', 'F'] = some (.infinite false) := rfl
      have hreadNeg : Binary64.read? ['-', 'I', 'N', 'F'] = some (.infinite true) := rfl
      have hnan := hne ['N', 'A', 'N'] (by simp [hreadNan])
      have hinf := hne ['I', 'N', 'F'] (by simp [hreadInf])
      have hneg := hne ['-', 'I', 'N', 'F'] (by simp [hreadNeg])
      show readFloat (Binary64.finite negative rank).plainText = _
      rw [readFloat, if_neg hnan, if_neg hinf, if_neg hneg, hread]

end Serialized
end RecordFilter
