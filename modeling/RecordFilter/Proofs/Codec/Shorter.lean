/-
No text is the encoding of itself.  A string that a codec reads out of a text is shorter than the
text: in JSON it has lost its quotes, and in the serialized format its tag, its length and its
quotes.  Escapes in JSON only make the text longer, so there the characters are counted; the
serialized format gives the length in bytes, so there it is the bytes.
-/
import RecordFilter.Codec.Basic

namespace RecordFilter

namespace Text

theorem length_encode (text : List Char) : (encode text).length = byteLength text := by
  induction text with
  | nil => rfl
  | cons c rest ih =>
      show (String.utf8EncodeChar c ++ encode rest).length = _
      rw [List.length_append, String.length_utf8EncodeChar, ih, byteLength_cons]

theorem utf8Size_ofNat_le (n : Nat) :
    (n < 0x80 → (Char.ofNat n).utf8Size ≤ 1) ∧ (n < 0x800 → (Char.ofNat n).utf8Size ≤ 2) ∧
      (n < 0x10000 → (Char.ofNat n).utf8Size ≤ 3) ∧ (Char.ofNat n).utf8Size ≤ 4 := by
  have hle : (Char.ofNat n).val.toNat ≤ n := by
    by_cases hvalid : n.isValidChar
    · rw [Char.ofNat, dif_pos hvalid]
      exact Nat.le_refl n
    · rw [Char.ofNat, dif_neg hvalid]
      exact Nat.zero_le n
  have hone : (Char.ofNat n).val ≤ 0x7F ↔ (Char.ofNat n).val.toNat ≤ 0x7F := Iff.rfl
  have htwo : (Char.ofNat n).val ≤ 0x7FF ↔ (Char.ofNat n).val.toNat ≤ 0x7FF := Iff.rfl
  have hthree : (Char.ofNat n).val ≤ 0xFFFF ↔ (Char.ofNat n).val.toNat ≤ 0xFFFF := Iff.rfl
  have hsize : (Char.ofNat n).utf8Size = if (Char.ofNat n).val ≤ 0x7F then 1
      else if (Char.ofNat n).val ≤ 0x7FF then 2 else if (Char.ofNat n).val ≤ 0xFFFF then 3 else 4 :=
    rfl
  rw [hsize]
  simp only [hone, htwo, hthree]
  split
  · omega
  · split
    · omega
    · split <;> omega

namespace Utf8

theorem tailBits_lt (b : UInt8) : tailBits b < 64 :=
  Nat.mod_lt _ (by decide)

theorem byteLength_decodeFrom_le {index : Nat} {bytes : List UInt8} {text : List Char}
    (h : decodeFrom index bytes = .ok text) : byteLength text ≤ bytes.length := by
  -- One character in front, which was read from the bytes in front.
  have hstep : ∀ {n size next : Nat} {rest : List UInt8} {text : List Char},
      (Char.ofNat n).utf8Size ≤ size →
      (∀ {text}, decodeFrom next rest = .ok text → byteLength text ≤ rest.length) →
      (decodeFrom next rest).map (Char.ofNat n :: ·) = .ok text →
      byteLength text ≤ size + rest.length := by
    intro n size next rest text hsize ih hmap
    obtain ⟨more, hmore, rfl⟩ := map_eq_ok_iff.mp hmap
    have hrest := ih hmore
    rw [byteLength_cons]
    omega
  fun_induction decodeFrom index bytes generalizing text with
  | case1 => cases h; exact Nat.le_refl 0
  | case2 index a rest hascii ih =>
      have hlt : a.toNat < 0x80 := hascii
      have hlength := hstep ((utf8Size_ofNat_le _).1 hlt) ih h
      rw [List.length_cons]
      omega
  | case4 index a _ _ b rest _ ih =>
      have hb := tailBits_lt b
      have hlength := hstep ((utf8Size_ofNat_le _).2.1 (by omega)) ih h
      rw [List.length_cons, List.length_cons]
      omega
  | case8 index a _ _ _ b _ c rest _ ih =>
      have hb := tailBits_lt b
      have hc := tailBits_lt c
      have hlength := hstep ((utf8Size_ofNat_le _).2.2.1 (by omega)) ih h
      rw [List.length_cons, List.length_cons, List.length_cons]
      omega
  | case14 index a _ _ _ _ b _ c _ d rest _ ih =>
      have hlength := hstep (utf8Size_ofNat_le _).2.2.2 ih h
      rw [List.length_cons, List.length_cons, List.length_cons, List.length_cons]
      omega
  | _ => cases h

end Utf8
end Text

namespace Serialized

/-! ## Serialized strings -/

theorem length_rest_of_expect {b : UInt8} {here after : Cursor} (h : expect b here = .ok after) :
    after.rest.length < here.rest.length := by
  rw [expect] at h
  split at h
  · cases h
  · rename_i a rest hrest
    split at h
    · cases h
      rw [hrest, List.length_cons]
      exact Nat.lt_succ_self rest.length
    · cases h

theorem length_rest_of_upTo {b : UInt8} {here after : Cursor} {text : List Char}
    (h : upTo b here = .ok (text, after)) : after.rest.length < here.rest.length := by
  rw [upTo] at h
  split at h
  · cases h
  · rename_i c rest hrest
    obtain ⟨text, _, heq⟩ := map_eq_ok_iff.mp h
    cases heq
    have hle : (here.rest.dropWhile (· != b)).length ≤ here.rest.length :=
      (List.dropWhile_suffix _).length_le
    rw [hrest, List.length_cons] at hle
    exact hle

theorem byteLength_characters_le {bytes : List UInt8} {text : List Char}
    (h : characters bytes = .ok text) : Text.byteLength text ≤ bytes.length := by
  rw [characters] at h
  split at h
  · rename_i decoded hdecoded
    cases h
    exact Text.Utf8.byteLength_decodeFrom_le hdecoded
  · cases h

/-- The content of a string is part of what is left of the text behind its tag. -/
theorem byteLength_readString_lt {here after : Cursor} {s : String}
    (h : readString here = .ok (s, after)) : Text.byteLength s.toList < here.rest.length := by
  rw [readString, bind_eq_ok_iff] at h
  obtain ⟨⟨lengthText, counted⟩, hcounted, h⟩ := h
  have hcount := length_rest_of_upTo hcounted
  dsimp only at h
  split at h
  · cases h
  · rename_i length _
    rw [bind_eq_ok_iff] at h
    obtain ⟨opened, hopened, h⟩ := h
    have hopen := length_rest_of_expect hopened
    split at h
    · cases h
    · split at h
      · cases h
      · rw [bind_eq_ok_iff] at h
        obtain ⟨content, hcontent, h⟩ := h
        rw [bind_eq_ok_iff] at h
        obtain ⟨quoted, _, h⟩ := h
        rw [bind_eq_ok_iff] at h
        obtain ⟨ended, _, h⟩ := h
        cases h
        have hle := byteLength_characters_le hcontent
        rw [List.length_take] at hle
        rw [String.toList_ofList]
        omega

theorem byteLength_readScalar_lt {tag : UInt8} {here after : Cursor} {s : String}
    (h : readScalar tag here = .ok (.str s, after)) :
    Text.byteLength s.toList < here.rest.length := by
  have hbool : ∀ text, readBool text ≠ .ok (.str s) := by
    intro text
    rw [readBool]
    split
    · simp
    · split <;> simp
  have hint : ∀ text, readInt text ≠ .ok (.str s) := by
    intro text
    rw [readInt]
    split <;> simp
  have hfloat : ∀ text, readFloat text ≠ .ok (.str s) := by
    intro text
    rw [readFloat]
    split
    · simp
    · split
      · simp
      · split
        · simp
        · split <;> simp
  have hscalar : ∀ {readText : List Char → Except SerializedFault Value},
      (∀ text, readText text ≠ .ok (.str s)) →
      (upTo (byte ';') here >>= fun part =>
        readText part.1 >>= fun v => pure (v, part.2)) ≠ .ok (.str s, after) := by
    intro readText hne hread
    obtain ⟨part, _, hread⟩ := bind_eq_ok_iff.mp hread
    obtain ⟨v, hv, hread⟩ := bind_eq_ok_iff.mp hread
    cases hread
    exact hne part.1 hv
  rw [readScalar] at h
  split at h
  · exact absurd h (hscalar hbool)
  · split at h
    · exact absurd h (hscalar hint)
    · split at h
      · exact absurd h (hscalar hfloat)
      · split at h
        · obtain ⟨⟨content, left⟩, hcontent, h⟩ := bind_eq_ok_iff.mp h
          cases h
          exact byteLength_readString_lt hcontent
        · cases h

theorem byteLength_readValue_lt {depth : Nat} {here after : Cursor} {s : String}
    (h : readValue depth here = .ok (.str s, after)) :
    Text.byteLength s.toList < here.rest.length := by
  rw [readValue.eq_def] at h
  split at h
  · cases h
  · rename_i tag rest hrest
    dsimp only at h
    split at h
    · obtain ⟨ended, _, h⟩ := bind_eq_ok_iff.mp h
      cases h
    · obtain ⟨opened, hopened, h⟩ := bind_eq_ok_iff.mp h
      have hopen := length_rest_of_expect hopened
      split at h
      · -- An array is a list or a map.
        obtain ⟨⟨count, counted⟩, _, h⟩ := bind_eq_ok_iff.mp h
        dsimp only at h
        split at h
        · cases h
        · obtain ⟨⟨entries, filled⟩, _, h⟩ := bind_eq_ok_iff.mp h
          obtain ⟨closed, _, h⟩ := bind_eq_ok_iff.mp h
          have hvalue : ofEntries entries = .str s := by
            have hpair := Except.ok.inj h
            exact congrArg Prod.fst hpair
          rw [ofEntries] at hvalue
          split at hvalue <;> cases hvalue
      · have hlt := byteLength_readScalar_lt h
        rw [hrest, List.length_cons]
        dsimp only at hopen
        omega

/-- A string is shorter than the serialized text that it is read from. -/
theorem byteLength_read_lt {text : List Char} {s : String} (h : read text = .ok (.str s)) :
    Text.byteLength s.toList < Text.byteLength text := by
  rw [read, bind_eq_ok_iff] at h
  obtain ⟨⟨v, after⟩, hv, h⟩ := h
  dsimp only at h
  split at h
  · cases h
    have hlt := byteLength_readValue_lt hv
    rw [Text.length_encode] at hlt
    exact hlt
  · cases h

end Serialized

namespace Json

/-! ## JSON strings -/

theorem length_stringRest_lt {text rest : List Char} {pieces : List Piece}
    (h : Written.stringRest text = some (pieces, rest)) :
    pieces.length + rest.length < text.length := by
  fun_induction Written.stringRest text generalizing pieces rest with
  | case2 behind =>
      cases h
      rw [List.length_nil, List.length_cons]
      omega
  | case3 a b c d behind n found left hleft _ ih =>
      cases h
      have hlt := ih hleft
      simp only [List.length_cons]
      omega
  | case5 sign behind _ c found left hleft _ ih =>
      cases h
      have hlt := ih hleft
      simp only [List.length_cons]
      omega
  | case8 c behind _ _ _ _ found left hleft ih =>
      cases h
      have hlt := ih hleft
      simp only [List.length_cons]
      omega
  | _ => cases h

theorem length_characters?_le {pieces : List Piece} {text : List Char}
    (h : characters? pieces = some text) : text.length ≤ pieces.length := by
  have hstep : ∀ {c : Char} {rest : List Piece} {text : List Char},
      (∀ {text}, characters? rest = some text → text.length ≤ rest.length) →
      (characters? rest).map (c :: ·) = some text → text.length ≤ rest.length + 1 := by
    intro c rest text ih hmap
    obtain ⟨more, hmore, rfl⟩ := Option.map_eq_some_iff.mp hmap
    exact Nat.succ_le_succ (ih hmore)
  fun_induction characters? pieces generalizing text with
  | case1 => cases h; exact Nat.le_refl 0
  | case2 c rest ih => exact hstep ih h
  | case3 high low rest _ _ ih =>
      have hle := hstep ih h
      rw [List.length_cons, List.length_cons]
      omega
  | case6 high low rest _ _ ih => exact hstep ih h
  | case8 n rest _ _ ih => exact hstep ih h
  | _ => cases h

theorem number?_ne_string {text rest : List Char} {pieces : List Piece} :
    Written.number? text ≠ some (.string pieces, rest) := by
  have hmagnitude : ∀ negative text, Written.magnitude? negative text ≠
      some (.string pieces, rest) := by
    intro negative text h
    simp only [Written.magnitude?, Option.bind_eq_bind, Option.bind_eq_some_iff] at h
    obtain ⟨whole, _, fraction, _, exponent, _, h⟩ := h
    cases h
  rw [Written.number?.eq_def]
  split
  · exact hmagnitude _ _
  · exact hmagnitude _ _

theorem length_value?_lt {steps : Nat} {text rest : List Char} {pieces : List Piece}
    (h : Written.value? steps text = some (.string pieces, rest)) :
    pieces.length < text.length := by
  cases steps with
  | zero => rw [Written.value?] at h; cases h
  | succ steps =>
      have hle : (Written.skipSpace text).length ≤ text.length :=
        (List.dropWhile_suffix _).length_le
      rw [Written.value?] at h
      split at h
      · cases h
      · cases h
      · cases h
      · rename_i quoted hquoted
        split at h
        · rename_i found behind hfound
          cases h
          have hlt := length_stringRest_lt hfound
          rw [hquoted, List.length_cons] at hle
          omega
        · cases h
      · split at h
        · cases h
        · split at h <;> cases h
      · split at h
        · cases h
        · split at h <;> cases h
      · exact absurd h number?_ne_string

theorem exists_pieces_of_toJson? {depth : Nat} {written : Written} {s : String}
    (h : Written.toJson? depth written = some (.string s)) :
    ∃ pieces, written = .string pieces ∧ string? pieces = some s := by
  rw [Written.toJson?.eq_def] at h
  cases written with
  | null => cases h
  | bool b => cases h
  | number n =>
      have hnumber : n.toJson? = some (.string s) := h
      rw [Numeral.toJson?] at hnumber
      split at hnumber
      · cases hnumber
      · obtain ⟨x, _, hx⟩ := Option.map_eq_some_iff.mp hnumber
        cases hx
  | string pieces =>
      obtain ⟨t, ht, heq⟩ := Option.map_eq_some_iff.mp h
      cases heq
      exact ⟨pieces, rfl, ht⟩
  | array items =>
      cases depth with
      | zero => cases h
      | succ depth =>
          obtain ⟨values, _, heq⟩ := Option.map_eq_some_iff.mp h
          cases heq
  | object members =>
      cases depth with
      | zero => cases h
      | succ depth =>
          obtain ⟨values, _, heq⟩ := Option.map_eq_some_iff.mp h
          cases heq

/-- A string is shorter than the JSON text that it is read from. -/
theorem length_readJson?_lt {text : List Char} {s : String}
    (h : Value.readJson? text = some (.str s)) : s.toList.length < text.length := by
  obtain ⟨json, hjson, hvalue⟩ := Option.map_eq_some_iff.mp h
  obtain ⟨written, hwritten, hmeaning⟩ := Option.bind_eq_some_iff.mp hjson
  have hstring : json = .string s := by
    cases json with
    | string t => cases hvalue; rfl
    | int n =>
        rw [Value.ofJson] at hvalue
        split at hvalue <;> cases hvalue
    | null | bool _ | float _ | array _ | object _ => cases hvalue
  subst hstring
  obtain ⟨pieces, rfl, hpieces⟩ := exists_pieces_of_toJson? hmeaning
  obtain ⟨characters, hcharacters, rfl⟩ := Option.map_eq_some_iff.mp hpieces
  rw [String.toList_ofList]
  have hle := length_characters?_le hcharacters
  rw [Written.read?] at hwritten
  split at hwritten
  · rename_i found rest hfound
    split at hwritten
    · cases hwritten
      have hlt := length_value?_lt hfound
      omega
    · cases hwritten
  · cases hwritten

end Json

/-- What a codec reads out of a text is never that text. -/
theorem Codec.decode_ne (codec : Codec) (field text : String) :
    codec.decode field text ≠ .ok (.str text) := by
  intro h
  have hread : codec.decode? text = .ok (.str text) := by
    rw [decode] at h
    split at h
    · rename_i v hv
      cases h
      exact hv
    · cases h
  cases codec with
  | json =>
      rw [decode?] at hread
      split at hread
      · rename_i v hv
        cases hread
        exact absurd (Json.length_readJson?_lt hv) (Nat.lt_irrefl _)
      · cases hread
  | serialized =>
      rw [decode?] at hread
      split at hread
      · rename_i v hv
        cases hread
        exact absurd (Serialized.byteLength_read_lt hv) (Nat.lt_irrefl _)
      · cases hread

end RecordFilter
