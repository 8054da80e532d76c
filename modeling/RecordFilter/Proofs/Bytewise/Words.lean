/-
Words, layout and literals by position.  A position in the bytes of a text is the text in front of
it, so what a scan does from a position on is said of the text behind: words are compared byte by
byte, which for ASCII words is character by character, layout is skipped, and a literal goes on to
the next byte that is its quote.
-/
import RecordFilter.Bytewise.Template
import RecordFilter.Proofs.Bytewise.Access
import RecordFilter.Proofs.Template.Delimiters

namespace RecordFilter
namespace Bytewise

open Template Text

/-! ## Classes of characters -/

theorem onlyAscii_isAsciiWord : OnlyAscii isAsciiWord := by
  intro c hc
  rw [isAscii, decide_eq_true_eq]
  exact toNat_lt_of_isAsciiWord hc

theorem onlyAscii_isLayout : OnlyAscii isLayout := by
  intro c hc
  simp only [isLayout, Bool.or_eq_true, beq_iff_eq] at hc
  rcases hc with (((rfl | rfl) | rfl) | rfl) | rfl <;> decide

theorem onlyAscii_isQuote : OnlyAscii Quote.isQuote := by
  intro c hc
  simp only [Quote.isQuote, Bool.or_eq_true, beq_iff_eq] at hc
  rcases hc with rfl | rfl <;> decide

theorem onlyAscii_paren : OnlyAscii fun c => (paren? c).isSome := by
  intro c hc
  by_cases hopening : c = '('
  · rw [hopening]
    decide
  · by_cases hclosing : c = ')'
    · rw [hclosing]
      decide
    · simp [paren?, hopening, hclosing] at hc

/-- The bytes of the longest start of a text in a class are the longest start of its bytes. -/
theorem takeWhile_encode {p : Char → Bool} (hp : OnlyAscii p) (text : List Char) :
    (encode text).takeWhile (fun b => p (char b)) = encode (text.takeWhile p) := by
  induction text with
  | nil => rfl
  | cons c rest ih =>
      by_cases hc : p c = true
      · rw [encode_cons_of_isAscii (hp c hc), List.takeWhile_cons_of_pos hc,
          encode_cons_of_isAscii (hp c hc),
          List.takeWhile_cons_of_pos (by rw [char_of_isAscii (hp c hc)]; exact hc), ih]
      · rw [List.takeWhile_cons_of_neg hc, encode_nil]
        have hhead := any_head?_encode hp (c :: rest)
        rw [Bool.not_eq_true] at hc
        rw [List.head?_cons, Option.any_some, hc] at hhead
        cases hbytes : encode (c :: rest) with
        | nil => rfl
        | cons b tail =>
            rw [hbytes, List.head?_cons, Option.any_some] at hhead
            exact List.takeWhile_cons_of_neg (by rw [hhead]; exact Bool.false_ne_true)

/-! ## Words -/

theorem upTo_take {α ε : Type} {items : List α} {n : Nat} (h : n ≤ items.length) :
    upTo (ε := ε) items n = .ok (items.take n) := by
  rw [upTo, between, if_pos ⟨Nat.zero_le n, h⟩, List.drop_zero]

theorem wordBefore_append (left right : List UInt8) :
    wordBefore (left ++ right) left.length = .ok (left.getLast?.any isWordByte) := by
  rcases List.eq_nil_or_concat left with rfl | ⟨init, b, rfl⟩
  · rfl
  · rw [List.concat_eq_append, List.length_append, List.length_singleton, List.append_assoc,
      List.singleton_append, wordBefore, if_pos (Nat.succ_pos _), minus_add, ok_bind, itemAt_append,
      List.getLast?_concat]
    rfl

theorem wordBefore_encode (left right : List Char) :
    wordBefore (encode (left ++ right)) (byteLength left) = .ok (isAsciiWordAt left.getLast?) := by
  rw [encode_append, ← length_encode, wordBefore_append]
  exact congrArg Except.ok (any_getLast?_encode onlyAscii_isAsciiWord left)

theorem isAscii_lowerAscii {c : Char} : isAscii (lowerAscii c) = isAscii c := by
  by_cases hc : isAscii c = true
  · have hall : ∀ c, isAscii c = true → isAscii (lowerAscii c) = true := by
      intro c hc
      have hlt : c.toNat < 0x80 := of_decide_eq_true hc
      exact of_forall_ascii (p := fun c => isAscii (lowerAscii c) = true) (by decide) hlt
    rw [hc, hall c hc]
  · have hupper : ¬ ('A' ≤ c ∧ c ≤ 'Z') := by
      rintro ⟨_, hle⟩
      refine hc (decide_eq_true ?_)
      exact Nat.lt_of_le_of_lt hle (by decide)
    rw [lowerAscii_of_not_upper hupper]

/-- Bytes spell an ASCII word exactly if the characters do. -/
theorem spells_take_encode {word : List Char} (hword : word.all isAscii = true) (text : List Char) :
    spells ((encode text).take word.length) word = sameLetters (text.take word.length) word := by
  induction word generalizing text with
  | nil => rfl
  | cons d word ih =>
      rw [List.all_cons, Bool.and_eq_true] at hword
      cases text with
      | nil => rfl
      | cons c rest =>
          by_cases hc : isAscii c = true
          · have hrest := ih hword.2 rest
            rw [encode_cons_of_isAscii hc]
            simp only [spells, sameLetters, lower, List.length_cons, List.take_succ_cons,
              List.map_cons, char_of_isAscii hc, List.cons_beq_cons] at hrest ⊢
            rw [hrest]
          · rw [Bool.not_eq_true] at hc
            obtain ⟨b, tail, hbytes⟩ := List.exists_cons_of_ne_nil (utf8EncodeChar_ne_nil c)
            have hb := isAscii_char_of_mem hc (by rw [hbytes]; exact List.mem_cons_self)
            have hne : ∀ {c : Char}, isAscii c = false → (lowerAscii c == lowerAscii d) = false := by
              intro c hc
              refine beq_eq_false_iff_ne.mpr fun heq => ?_
              rw [← isAscii_lowerAscii, heq, isAscii_lowerAscii, hword.1] at hc
              cases hc
            rw [encode_cons, hbytes, List.cons_append]
            simp only [spells, sameLetters, lower, List.length_cons, List.take_succ_cons,
              List.map_cons, List.cons_beq_cons, hne hb, hne hc, Bool.false_and]

theorem all_isAscii_of_sameLetters {text word : List Char} (hword : word.all isAscii = true)
    (h : sameLetters text word = true) : text.all isAscii = true := by
  have hall : ∀ text : List Char, (lower text).all isAscii = text.all isAscii := by
    intro text
    rw [lower, List.all_map]
    exact congrArg text.all (funext fun c => isAscii_lowerAscii)
  rw [sameLetters, beq_iff_eq] at h
  rw [← hall, h, hall, hword]

theorem length_encode_of_ascii {text : List Char} (h : text.all isAscii = true) :
    (encode text).length = text.length := by
  induction text with
  | nil => rfl
  | cons c rest ih =>
      rw [List.all_cons, Bool.and_eq_true] at h
      rw [encode_cons_of_isAscii h.1, List.length_cons, List.length_cons, ih h.2]

/-- Behind the letters of a word the bytes are those of the text behind it. -/
theorem drop_encode_of_sameLetters {word text : List Char} (hword : word.all isAscii = true)
    (h : sameLetters (text.take word.length) word = true) :
    (encode text).drop word.length = encode (text.drop word.length) := by
  have hbytes : (encode (text.take word.length)).length = word.length := by
    rw [length_encode_of_ascii (all_isAscii_of_sameLetters hword h), length_eq_of_sameLetters h]
  have hsplit : encode text = encode (text.take word.length) ++ encode (text.drop word.length) := by
    rw [← encode_append, List.take_append_drop]
  rw [hsplit]
  exact List.drop_left' hbytes

/-- A keyword stands alone at a position exactly if it does in front of the text there. -/
theorem atKeyword_encode {word : List Char} (hword : word.all isAscii = true)
    (left right : List Char) :
    atKeyword word (encode (left ++ right)) (byteLength left) =
      .ok (standsAlone word left.getLast? right) := by
  rw [atKeyword, wordBefore_encode, ok_bind]
  by_cases hbefore : isAsciiWordAt left.getLast? = true
  · rw [hbefore, standsAlone_of_wordBefore hbefore]
    rfl
  · rw [Bool.not_eq_true] at hbefore
    rw [encode_append, ← length_encode, onFrom_append, hbefore, standsAlone, hbefore,
      ← spells_take_encode hword]
    simp only [Bool.false_eq_true, if_false, ok_bind, Bool.not_false, Bool.and_true]
    by_cases hshort : (encode right).length < word.length
    · have hfalse : spells ((encode right).take word.length) word = false := by
        refine Bool.eq_false_iff.mpr fun h => ?_
        have hlength := length_eq_of_sameLetters h
        rw [List.length_map, List.length_take] at hlength
        omega
      rw [if_pos hshort, hfalse, Bool.false_and]
      rfl
    · rw [if_neg hshort, upTo_take (Nat.le_of_not_lt hshort), ok_bind]
      by_cases hspells : spells ((encode right).take word.length) word = true
      · have hsame : sameLetters (right.take word.length) word = true := by
          rw [← spells_take_encode hword]
          exact hspells
        have hbehind := any_head?_encode onlyAscii_isAsciiWord (right.drop word.length)
        rw [← drop_encode_of_sameLetters hword hsame, List.head?_drop] at hbehind
        rw [isAsciiWordAt, ← hbehind]
        rfl
      · rw [Bool.not_eq_true] at hspells
        rw [hspells, Bool.false_and, Bool.false_and]
        rfl

theorem atSomeKeyword_encode (left right : List Char) :
    atSomeKeyword (encode (left ++ right)) (byteLength left) =
      .ok (keyword? left.getLast? right).isSome := by
  rw [atSomeKeyword, atKeyword_encode (by decide), ok_bind, atKeyword_encode (by decide), keyword?]
  cases standsAlone ['a', 'n', 'd'] left.getLast? right with
  | true => rfl
  | false =>
      cases standsAlone ['o', 'r'] left.getLast? right with
      | true => rfl
      | false => rfl

/-! ## Layout and literals -/

theorem skipWhile_append (fits : UInt8 → Bool) (left right : List UInt8) :
    skipWhile fits (left ++ right) left.length = left.length + (right.takeWhile fits).length := by
  induction right generalizing left with
  | nil =>
      rw [skipWhile]
      split
      · rfl
      · rename_i b hb
        rw [getElem?_append_length] at hb
        cases hb
  | cons b right ih =>
      rw [skipWhile]
      split
      · rename_i hnone
        rw [getElem?_append_length] at hnone
        cases hnone
      · rename_i a ha
        rw [getElem?_append_length] at ha
        cases ha
        by_cases hb : fits b = true
        · have hnext := ih (left ++ [b])
          rw [List.length_append, List.length_singleton, List.append_assoc,
            List.singleton_append] at hnext
          rw [if_pos hb, hnext, List.takeWhile_cons_of_pos hb, List.length_cons]
          omega
        · rw [if_neg hb, List.takeWhile_cons_of_neg hb]
          rfl

theorem skipWhile_layout (left right : List Char) :
    skipWhile isLayoutByte (encode (left ++ right)) (byteLength left) =
      byteLength left + byteLength (right.takeWhile isLayout) := by
  rw [encode_append, ← length_encode, skipWhile_append, ← length_encode]
  exact congrArg (fun bytes => (encode left).length + List.length bytes)
    (takeWhile_encode onlyAscii_isLayout right)

theorem ne_of_mem_encode {q : Char} (hq : isAscii q = true) {text : List Char} (h : q ∉ text) :
    ∀ b ∈ encode text, b ≠ UInt8.ofNat q.toNat := by
  rintro b hb rfl
  obtain ⟨c, hc, hmem⟩ := List.mem_flatMap.mp hb
  by_cases hascii : isAscii c = true
  · rw [utf8EncodeChar_of_isAscii hascii, List.mem_singleton] at hmem
    have hchar := congrArg char hmem
    rw [char_of_isAscii hq, char_of_isAscii hascii] at hchar
    exact h (hchar ▸ hc)
  · rw [Bool.not_eq_true] at hascii
    have hnot := isAscii_char_of_mem hascii hmem
    rw [char_of_isAscii hq, hq] at hnot
    cases hnot

/-- The bytes up to a quote that is not in the text. -/
theorem takeWhile_ne_encode {q : Char} (hq : isAscii q = true) {content : List Char}
    (h : q ∉ content) (rest : List UInt8) :
    (encode content ++ UInt8.ofNat q.toNat :: rest).takeWhile (· != UInt8.ofNat q.toNat) =
      encode content := by
  have hall : ∀ b ∈ encode content, (b != UInt8.ofNat q.toNat) = true := fun b hb =>
    bne_iff_ne.mpr (ne_of_mem_encode hq h b hb)
  rw [List.takeWhile_append_of_pos hall, List.takeWhile_cons_of_neg (by simp), List.append_nil]

theorem takeWhile_ne_of_not_mem {q : Char} (hq : isAscii q = true) {text : List Char}
    (h : q ∉ text) : (encode text).takeWhile (· != UInt8.ofNat q.toNat) = encode text := by
  have hall : ∀ b ∈ encode text, (b != UInt8.ofNat q.toNat) = true := fun b hb =>
    bne_iff_ne.mpr (ne_of_mem_encode hq h b hb)
  have htake := @List.takeWhile_append_of_pos _ _ (encode text) [] hall
  rw [List.append_nil, List.takeWhile_nil, List.append_nil] at htake
  exact htake

variable {q : Char}

/-- From behind the quote that opens a literal, the bytes up to the quote that closes it. -/
theorem skipWhile_literal (q : Char) (left : List Char) (tail : List UInt8) :
    skipWhile (· != UInt8.ofNat q.toNat) (encode left ++ UInt8.ofNat q.toNat :: tail)
        (byteLength left + 1) =
      byteLength left + 1 + (tail.takeWhile (· != UInt8.ofNat q.toNat)).length := by
  have h := skipWhile_append (· != UInt8.ofNat q.toNat) (encode left ++ [UInt8.ofNat q.toNat]) tail
  rw [List.append_assoc, List.singleton_append, List.length_append, List.length_singleton,
    length_encode] at h
  exact h

theorem literalEnd_closed (hquote : Quote.isQuote q = true) {content : List Char} (h : q ∉ content)
    (left rest : List Char) :
    literalEnd (encode (left ++ q :: (content ++ q :: rest))) (UInt8.ofNat q.toNat)
        (byteLength left) = .ok (byteLength (left ++ q :: (content ++ [q]))) := by
  have hascii := onlyAscii_isQuote q hquote
  have hsize := utf8Size_of_isAscii hascii
  have hbytes : encode (left ++ q :: (content ++ q :: rest)) = encode left ++
      UInt8.ofNat q.toNat :: (encode content ++ UInt8.ofNat q.toNat :: encode rest) := by
    rw [encode_append, encode_cons_of_isAscii hascii, encode_append, encode_cons_of_isAscii hascii]
  have hlength : (encode (left ++ q :: (content ++ q :: rest))).length =
      byteLength left + (1 + (byteLength content + (1 + byteLength rest))) := by
    rw [length_encode]
    simp only [byteLength_append, byteLength_cons, hsize]
  simp only [literalEnd]
  rw [hlength, hbytes, skipWhile_literal, takeWhile_ne_encode hascii h, length_encode,
    if_neg (by omega)]
  simp only [byteLength_append, byteLength_cons, byteLength_nil, hsize]
  exact congrArg Except.ok (by omega)

theorem literalEnd_open (hquote : Quote.isQuote q = true) {tail : List Char} (h : q ∉ tail)
    (left : List Char) :
    literalEnd (encode (left ++ q :: tail)) (UInt8.ofNat q.toNat) (byteLength left) =
      .error (.fault (.unterminatedString (byteLength left))) := by
  have hascii := onlyAscii_isQuote q hquote
  have hsize := utf8Size_of_isAscii hascii
  have hbytes : encode (left ++ q :: tail) =
      encode left ++ UInt8.ofNat q.toNat :: encode tail := by
    rw [encode_append, encode_cons_of_isAscii hascii]
  have hlength : (encode (left ++ q :: tail)).length = byteLength left + (1 + byteLength tail) := by
    rw [length_encode]
    simp only [byteLength_append, byteLength_cons, hsize]
  simp only [literalEnd]
  rw [hlength, hbytes, skipWhile_literal, takeWhile_ne_of_not_mem hascii h,
    length_encode, if_pos (by omega)]

end Bytewise
end RecordFilter
