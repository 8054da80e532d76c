/-
Reading a fragment by position is reading it.  At each position the spellings of the operators are
compared byte by byte, which is character by character, since they are ASCII; a position inside of a
longer character is at no operator and at no quote, so the scan passes such a character as a whole.
-/
import RecordFilter.Bytewise.Clause
import RecordFilter.Proofs.Bytewise.Words
import RecordFilter.Proofs.Clause.Split

namespace RecordFilter
namespace Bytewise

open Template Text

/-! ## Operators -/

/-- What is known of each spelling: it is not empty, its characters are ASCII, and the letters in it
make up the word LIKE. -/
structure Proper (s : Operator.Spelling) : Prop where
  ne_nil : s.text ≠ []
  ascii : s.text.all isAscii = true
  letters : s.operator ≠ .like → s.text.all (fun c => !isAsciiLetter c) = true

theorem proper_of_mem {s : Operator.Spelling} (h : s ∈ Operator.spellings) : Proper s := by
  have hall : ∀ s ∈ Operator.spellings, s.text ≠ [] ∧ s.text.all isAscii = true ∧
      (s.operator ≠ .like → s.text.all (fun c => !isAsciiLetter c) = true) := by decide
  obtain ⟨hne, hascii, hletters⟩ := hall s h
  exact ⟨hne, hascii, hletters⟩

theorem lowerAscii_eq_iff {c d : Char} (hd : isAsciiLetter d = false) :
    lowerAscii c = lowerAscii d ↔ c = d := by
  have hletter : ∀ {c : Char}, 'A' ≤ c ∧ c ≤ 'Z' → isAsciiLetter (lowerAscii c) = true ∧
      isAsciiLetter c = true := by
    intro c hupper
    have hlt : c.toNat < 0x80 := Nat.lt_of_le_of_lt hupper.2 (by decide)
    exact of_forall_ascii (p := fun c => 'A' ≤ c ∧ c ≤ 'Z' →
      isAsciiLetter (lowerAscii c) = true ∧ isAsciiLetter c = true) (by decide) hlt hupper
  have hlower : lowerAscii d = d := by
    refine lowerAscii_of_not_upper fun hupper => ?_
    rw [(hletter hupper).2] at hd
    cases hd
  rw [hlower]
  by_cases hupper : 'A' ≤ c ∧ c ≤ 'Z'
  · constructor
    · rintro rfl
      rw [(hletter hupper).1] at hd
      cases hd
    · rintro rfl
      exact hlower
  · rw [lowerAscii_of_not_upper hupper]

/-- A spelling without letters is there in any case exactly if it is there. -/
theorem sameLetters_take_eq {word : List Char} (h : word.all (fun c => !isAsciiLetter c) = true)
    (text : List Char) : sameLetters (text.take word.length) word = word.isPrefixOf text := by
  induction word generalizing text with
  | nil => rfl
  | cons d word ih =>
      rw [List.all_cons, Bool.and_eq_true, Bool.not_eq_true'] at h
      cases text with
      | nil => rfl
      | cons c rest =>
          have hrest := ih h.2 rest
          rw [sameLetters, lower, lower] at hrest
          rw [sameLetters, lower, lower, List.length_cons, List.take_succ_cons, List.map_cons,
            List.map_cons, List.cons_beq_cons, hrest, List.isPrefixOf_cons_cons]
          congr 1
          rw [Bool.eq_iff_iff, beq_iff_eq, beq_iff_eq, lowerAscii_eq_iff h.1]
          exact eq_comm

/-- The bytes at a position spell a word exactly if the text there does. -/
theorem between_encode {word : List Char} (left right : List Char)
    (h : word.length ≤ (encode right).length) :
    between (encode (left ++ right)) (byteLength left) (byteLength left + word.length) =
      (.ok ((encode right).take word.length) : Except (Stop Error) (List UInt8)) := by
  have hlength : ((encode right).take word.length).length = word.length :=
    List.length_take_of_le h
  have hbetween := between_append (ε := Error) (encode left) ((encode right).take word.length)
    ((encode right).drop word.length)
  rw [List.take_append_drop, hlength, ← encode_append, length_encode] at hbetween
  exact hbetween

theorem getElem?_of_sameLetters {word : List Char} (hword : word.all isAscii = true)
    {left right : List Char} (h : sameLetters (right.take word.length) word = true) :
    ((encode (left ++ right))[byteLength left + word.length]?).any isWordByte =
      isAsciiWordAt (right.drop word.length).head? := by
  have hbehind := any_head?_encode onlyAscii_isAsciiWord (right.drop word.length)
  rw [← drop_encode_of_sameLetters hword h, List.head?_drop] at hbehind
  rw [encode_append, ← length_encode, List.getElem?_append_right (Nat.le_add_right _ _),
    Nat.add_sub_cancel_left]
  exact hbehind

/-- A spelling stands where its letters do, and LIKE only where it is a word. -/
theorem standsAt_eq {s : Operator.Spelling} (h : Proper s) (before : Option Char)
    (text : List Char) :
    s.standsAt before text = (sameLetters (text.take s.text.length) s.text &&
      !(decide (s.operator = .like) &&
        (isAsciiWordAt before || isAsciiWordAt (text.drop s.text.length).head?))) := by
  by_cases hlike : s.operator = .like
  · rw [Operator.Spelling.standsAt, hlike]
    simp only [standsAlone, decide_true, Bool.true_and, Bool.not_or, Bool.and_assoc]
  · have hfront : s.standsAt before text = s.text.isPrefixOf text := by
      rw [Operator.Spelling.standsAt]
      split
      · rename_i heq
        exact absurd heq hlike
      · rfl
    rw [hfront, sameLetters_take_eq (h.letters hlike), decide_eq_false hlike, Bool.false_and,
      Bool.not_false, Bool.and_true]

theorem sameLetters_take_of_short {word text : List Char} (h : (encode text).length < word.length) :
    sameLetters (text.take word.length) word = false := by
  refine Bool.eq_false_iff.mpr fun hsame => ?_
  have hlength := length_eq_of_sameLetters hsame
  have hle := length_le_length_encode text
  rw [List.length_take] at hlength
  omega

theorem operatorAt_encode {spellings : List Operator.Spelling} (h : ∀ s ∈ spellings, Proper s)
    (left right : List Char) :
    operatorAt (encode (left ++ right)) (byteLength left) spellings =
      .ok ((spellings.find? fun s => s.standsAt left.getLast? right).map fun s =>
        { start := byteLength left, stop := byteLength left + s.text.length
          operator := s.operator }) := by
  induction spellings with
  | nil => rfl
  | cons s others ih =>
      have hs := h s List.mem_cons_self
      have hrest := ih fun other hother => h other (List.mem_cons_of_mem s hother)
      have hlength : (encode (left ++ right)).length = byteLength left + (encode right).length := by
        rw [encode_append, List.length_append, length_encode]
      rw [operatorAt, hrest, List.find?_cons, standsAt_eq hs]
      by_cases hshort : (encode right).length < s.text.length
      · rw [if_pos (by omega), sameLetters_take_of_short hshort, Bool.false_and]
      · rw [if_neg (by omega), between_encode left right (Nat.le_of_not_lt hshort), ok_bind,
          spells_take_encode hs.ascii]
        cases hsame : sameLetters (right.take s.text.length) s.text with
        | false => rfl
        | true =>
            by_cases hlike : s.operator = .like
            · rw [if_pos hlike, wordBefore_encode, getElem?_of_sameLetters hs.ascii hsame,
                decide_eq_true hlike]
              simp only [Except.map, ok_bind, Bool.not_true, Bool.false_eq_true, if_false,
                Bool.true_and]
              cases isAsciiWordAt left.getLast? || isAsciiWordAt (right.drop s.text.length).head? <;>
                rfl
            · rw [if_neg hlike, decide_eq_false hlike]
              rfl

theorem operatorAt_encode_spellings (left right : List Char) :
    operatorAt (encode (left ++ right)) (byteLength left) Operator.spellings =
      .ok ((Operator.spellingAt? left.getLast? right).map fun s =>
        { start := byteLength left, stop := byteLength left + s.text.length
          operator := s.operator }) :=
  operatorAt_encode (fun _ hs => proper_of_mem hs) left right

/-- No operator stands inside of a character that is longer than a byte. -/
theorem operatorAt_long {spellings : List Operator.Spelling} (h : ∀ s ∈ spellings, Proper s)
    {b : UInt8} (hb : isAscii (char b) = false) (left right : List UInt8) :
    operatorAt (left ++ b :: right) left.length spellings = .ok none := by
  induction spellings with
  | nil => rfl
  | cons s others ih =>
      have hs := h s List.mem_cons_self
      have hrest := ih fun other hother => h other (List.mem_cons_of_mem s hother)
      obtain ⟨d, word, hword⟩ := List.exists_cons_of_ne_nil hs.ne_nil
      rw [operatorAt, hrest]
      by_cases hshort : (left ++ b :: right).length < left.length + s.text.length
      · rw [if_pos hshort]
      · have hbetween : between (ε := Error) (left ++ b :: right) left.length
            (left.length + s.text.length) = .ok (b :: right.take word.length) := by
          rw [between, if_pos ⟨Nat.le_add_right _ _, Nat.le_of_not_lt hshort⟩,
            List.take_length_add_append,
            List.drop_left, hword, List.length_cons, List.take_succ_cons]
        have hascii : isAscii d = true := by
          have hall := hs.ascii
          rw [hword, List.all_cons, Bool.and_eq_true] at hall
          exact hall.1
        have hspells : spells (b :: right.take word.length) s.text = false := by
          have hne : (lowerAscii (char b) == lowerAscii d) = false := by
            refine beq_eq_false_iff_ne.mpr fun heq => ?_
            rw [← isAscii_lowerAscii, heq, isAscii_lowerAscii, hascii] at hb
            cases hb
          rw [hword, spells, sameLetters, lower, lower, List.map_cons, List.map_cons, List.map_cons,
            List.cons_beq_cons, hne, Bool.false_and]
        rw [if_neg hshort, hbetween, ok_bind, hspells]
        rfl

/-! ## The scan for an operator -/

theorem findFrom_cons (left : List UInt8) (b : UInt8) (right : List UInt8) :
    findFrom (left ++ b :: right) left.length =
      if Quote.isQuote (char b) then
        literalClose (left ++ b :: right) b (left.length + 1) >>= fun close =>
          findFrom (left ++ b :: right) (close + 1)
      else
        operatorAt (left ++ b :: right) left.length Operator.spellings >>= fun found =>
          match found with
          | some located => .ok (some located)
          | none => findFrom (left ++ b :: right) (left.length + 1) := by
  have hlt : left.length < (left ++ b :: right).length := by
    rw [List.length_append, List.length_cons]
    omega
  rw [findFrom, dif_pos hlt, itemAt_append]
  refine if_congr Iff.rfl ?_ ?_
  · split <;> rename_i hclose <;> rw [hclose] <;> rfl
  · split <;> rename_i hfound <;> rw [hfound] <;> rfl

theorem findFrom_of_le {bytes : List UInt8} {current : Nat} (h : bytes.length ≤ current) :
    findFrom bytes current = .ok none := by
  rw [findFrom, dif_neg (Nat.not_lt.mpr h)]

theorem literalClose_append (quote : UInt8) (left right : List UInt8) :
    literalClose (left ++ right) quote left.length =
      .ok (left.length + (right.takeWhile (· != quote)).length) := by
  induction right generalizing left with
  | nil =>
      rw [literalClose, dif_neg (by rw [List.append_nil]; exact Nat.lt_irrefl _)]
      rfl
  | cons b right ih =>
      have hlt : left.length < (left ++ b :: right).length := by
        rw [List.length_append, List.length_cons]
        omega
      rw [literalClose, dif_pos hlt, itemAt_append]
      dsimp only
      by_cases hb : (b != quote) = true
      · have hnext := ih (left ++ [b])
        rw [List.length_append, List.length_singleton, List.append_assoc,
          List.singleton_append] at hnext
        rw [if_pos hb, hnext, List.takeWhile_cons_of_pos (p := (· != quote)) hb,
          List.length_cons]
        exact congrArg Except.ok (by omega)
      · rw [if_neg hb, List.takeWhile_cons_of_neg (p := (· != quote)) hb]
        rfl

/-- The scan passes a character that is longer than a byte. -/
theorem findFrom_long {bytes : List UInt8} (h : ∀ b ∈ bytes, isAscii (char b) = false)
    (left right : List UInt8) :
    findFrom (left ++ (bytes ++ right)) left.length =
      findFrom (left ++ (bytes ++ right)) (left.length + bytes.length) := by
  induction bytes generalizing left with
  | nil => rfl
  | cons b bytes ih =>
      have hb := h b List.mem_cons_self
      have hnext := ih (fun d hd => h d (List.mem_cons_of_mem b hd)) (left ++ [b])
      rw [List.append_assoc, List.singleton_append, List.length_append, List.length_singleton]
        at hnext
      rw [List.cons_append, findFrom_cons, onlyAscii_isQuote.eq_false hb,
        operatorAt_long (fun _ hs => proper_of_mem hs) hb]
      simp only [Bool.false_eq_true, if_false, ok_bind]
      rw [hnext, List.length_cons]
      congr 1
      omega

/-- The scan passes a character that is no quote, unless an operator stands there. -/
theorem findFrom_char {c : Char} (hquote : Quote.isQuote c = false) {left right : List Char}
    (hnone : Operator.spellingAt? left.getLast? (c :: right) = none) :
    findFrom (encode (left ++ c :: right)) (byteLength left) =
      findFrom (encode (left ++ c :: right)) (byteLength (left ++ [c])) := by
  have hat := operatorAt_encode_spellings left (c :: right)
  rw [hnone, Option.map_none] at hat
  rw [byteLength_append, byteLength_cons, byteLength_nil, Nat.add_zero]
  by_cases hc : isAscii c = true
  · rw [encode_append, encode_cons_of_isAscii hc, ← length_encode] at hat ⊢
    rw [findFrom_cons, char_of_isAscii hc, hquote, hat, utf8Size_of_isAscii hc]
    rfl
  · rw [Bool.not_eq_true] at hc
    rw [encode_append, encode_cons, ← length_encode, ← String.length_utf8EncodeChar]
    exact findFrom_long (fun b hb => isAscii_char_of_mem hc hb) (encode left) (encode right)

theorem findFrom_operator {c : Char} (hquote : Quote.isQuote c = false) {left right : List Char}
    {s : Operator.Spelling} (h : Operator.spellingAt? left.getLast? (c :: right) = some s) :
    findFrom (encode (left ++ c :: right)) (byteLength left) =
      .ok (some { start := byteLength left, stop := byteLength left + s.text.length
                  operator := s.operator }) := by
  have hat := operatorAt_encode_spellings left (c :: right)
  rw [h, Option.map_some] at hat
  by_cases hc : isAscii c = true
  · rw [encode_append, encode_cons_of_isAscii hc, ← length_encode] at hat ⊢
    rw [findFrom_cons, char_of_isAscii hc, hquote, hat]
    rfl
  · rw [Bool.not_eq_true] at hc
    obtain ⟨b, tail, hbytes⟩ := List.exists_cons_of_ne_nil (utf8EncodeChar_ne_nil c)
    have hb := isAscii_char_of_mem hc (by rw [hbytes]; exact List.mem_cons_self)
    have hlong := operatorAt_long (fun _ hs => proper_of_mem hs) hb (encode left)
      (tail ++ encode right)
    rw [encode_append, encode_cons, hbytes, List.cons_append, ← length_encode, hlong] at hat
    cases hat

/-- No operator starts with a quote. -/
theorem spellingAt?_of_quote {c : Char} (hquote : Quote.isQuote c = true) (before : Option Char)
    (rest : List Char) : Operator.spellingAt? before (c :: rest) = none := by
  have hheads : ∀ s ∈ Operator.spellings, s.text.head?.any Quote.isQuote = false := by decide
  have hlowerAscii : lowerAscii c = c := by
    simp only [Quote.isQuote, Bool.or_eq_true, beq_iff_eq] at hquote
    rcases hquote with rfl | rfl <;> decide
  cases h : Operator.spellingAt? before (c :: rest) with
  | none => rfl
  | some s =>
      have hmem : s ∈ Operator.spellings := List.mem_of_find?_eq_some h
      have hstands : s.standsAt before (c :: rest) = true := by
        have hsome := List.find?_some h
        exact hsome
      have hlower := Operator.lower_take_of_standsAt hmem hstands
      obtain ⟨d, word, hword⟩ := List.exists_cons_of_ne_nil (proper_of_mem hmem).ne_nil
      have hd := hheads s hmem
      rw [hword, List.head?_cons, Option.any_some] at hd
      rw [hword, List.length_cons, List.take_succ_cons, lower, List.map_cons, hlowerAscii] at hlower
      rw [← (List.cons.inj hlower).1, hquote] at hd
      cases hd

/-- A literal is passed as a whole. -/
theorem findFrom_literal {q : Char} (hquote : Quote.isQuote q = true) {content : List Char}
    (h : q ∉ content) (left rest : List Char) :
    findFrom (encode (left ++ q :: (content ++ q :: rest))) (byteLength left) =
      findFrom (encode (left ++ q :: (content ++ q :: rest)))
        (byteLength (left ++ q :: (content ++ [q]))) := by
  have hascii := onlyAscii_isQuote q hquote
  have hclose := literalClose_append (UInt8.ofNat q.toNat) (encode left ++ [UInt8.ofNat q.toNat])
    (encode content ++ UInt8.ofNat q.toNat :: encode rest)
  rw [takeWhile_ne_encode hascii h, List.length_append, List.length_singleton, List.append_assoc,
    List.singleton_append] at hclose
  have hlength : byteLength (left ++ q :: (content ++ [q])) =
      (encode left).length + 1 + (encode content).length + 1 := by
    simp only [byteLength_append, byteLength_cons, byteLength_nil, utf8Size_of_isAscii hascii,
      length_encode]
    omega
  rw [encode_append, encode_cons_of_isAscii hascii, encode_append, encode_cons_of_isAscii hascii,
    hlength, ← length_encode left, findFrom_cons, char_of_isAscii hascii, hquote, hclose]
  rfl

theorem findFrom_open {q : Char} (hquote : Quote.isQuote q = true) {tail : List Char} (h : q ∉ tail)
    (left : List Char) : findFrom (encode (left ++ q :: tail)) (byteLength left) = .ok none := by
  have hascii := onlyAscii_isQuote q hquote
  have hclose := literalClose_append (UInt8.ofNat q.toNat) (encode left ++ [UInt8.ofNat q.toNat])
    (encode tail)
  rw [takeWhile_ne_of_not_mem hascii h, List.length_append, List.length_singleton,
    List.append_assoc, List.singleton_append] at hclose
  rw [encode_append, encode_cons_of_isAscii hascii, ← length_encode left, findFrom_cons,
    char_of_isAscii hascii, hquote, hclose]
  refine findFrom_of_le ?_
  rw [List.length_append, List.length_cons]
  omega

/-- In a literal no operator is found before the literal ends. -/
theorem find_in_literal {q : Char} {content : List Char} (h : q ∉ content) (offset : Nat)
    (before : Option Char) (rest : List Char) :
    Operator.findFrom offset before (some q) (content ++ q :: rest) =
      Operator.findFrom (offset + byteLength content + q.utf8Size) (some q) none rest := by
  induction content generalizing offset before with
  | nil => simp [Operator.findFrom, Quote.step]
  | cons c content ih =>
      have hne : c ≠ q := fun heq => h (heq ▸ List.mem_cons_self)
      have hrest := ih (fun hmem => h (List.mem_cons_of_mem c hmem)) (offset + c.utf8Size) (some c)
      rw [List.cons_append, Operator.findFrom, Quote.step_of_ne hne, byteLength_cons, ← Nat.add_assoc,
        ← hrest]
      rfl

theorem find_in_open {q : Char} {tail : List Char} (h : q ∉ tail) (offset : Nat)
    (before : Option Char) : Operator.findFrom offset before (some q) tail = none := by
  induction tail generalizing offset before with
  | nil => rfl
  | cons c tail ih =>
      have hne : c ≠ q := fun heq => h (heq ▸ List.mem_cons_self)
      rw [Operator.findFrom, Quote.step_of_ne hne, ih fun hmem => h (List.mem_cons_of_mem c hmem)]
      rfl

/-- The operator that is found by position is the one that is found. -/
theorem findFrom_encode (left right : List Char) :
    findFrom (encode (left ++ right)) (byteLength left) =
      .ok (Operator.findFrom (byteLength left) left.getLast? none right) := by
  match right with
  | [] =>
      rw [List.append_nil, findFrom_of_le (by rw [length_encode])]
      rfl
  | c :: right =>
      by_cases hquote : Quote.isQuote c = true
      · have hstep : Operator.findFrom (byteLength left) left.getLast? none (c :: right) =
            Operator.findFrom (byteLength left + c.utf8Size) (some c) (some c) right := by
          rw [Operator.findFrom, Quote.step_of_quote hquote]
          simp only [Option.isNone_none, if_true, spellingAt?_of_quote hquote]
        by_cases hmem : c ∈ right
        · obtain ⟨content, behind, hsplit, hcontent⟩ := List.eq_append_cons_of_mem hmem
          have hshorter : behind.length < right.length := by
            rw [hsplit, List.length_append, List.length_cons]
            omega
          have hnext := findFrom_encode (left ++ c :: (content ++ [c])) behind
          have htext : left ++ c :: (content ++ [c]) ++ behind =
              left ++ c :: (content ++ c :: behind) := by
            simp only [List.append_assoc, List.cons_append, List.nil_append]
          have hlast : (left ++ c :: (content ++ [c])).getLast? = some c := by
            rw [← List.cons_append, ← List.append_assoc, List.getLast?_concat]
          rw [htext, hlast] at hnext
          rw [hstep, hsplit, findFrom_literal hquote hcontent, hnext, find_in_literal hcontent]
          simp only [byteLength_append, byteLength_cons, byteLength_nil, Nat.add_zero, Nat.add_assoc]
        · rw [hstep, findFrom_open hquote hmem, find_in_open hmem]
      · rw [Bool.not_eq_true] at hquote
        cases hspelling : Operator.spellingAt? left.getLast? (c :: right) with
        | some s =>
            rw [findFrom_operator hquote hspelling, Operator.findFrom]
            simp only [Option.isNone_none, if_true, hspelling]
        | none =>
            have hnext := findFrom_encode (left ++ [c]) right
            rw [List.append_assoc, List.singleton_append, List.getLast?_concat] at hnext
            rw [findFrom_char hquote hspelling, hnext, Operator.findFrom,
              Quote.step_of_not_quote hquote, byteLength_append, byteLength_cons, byteLength_nil]
            simp only [Option.isNone_none, if_true, hspelling, Nat.add_zero]
termination_by right.length

theorem findOperator_eq (fragment : List Char) :
    findOperator fragment = .ok (Operator.find? fragment) :=
  findFrom_encode [] fragment

/-! ## Sides -/

/-- All bytes of a text are in a class of ASCII characters if all its characters are. -/
theorem all_encode {p : Char → Bool} (hp : OnlyAscii p) (text : List Char) :
    (encode text).all (fun b => p (char b)) = text.all p := by
  induction text with
  | nil => rfl
  | cons c rest ih =>
      by_cases hc : isAscii c = true
      · rw [encode_cons_of_isAscii hc, List.all_cons, List.all_cons, char_of_isAscii hc, ih]
      · rw [Bool.not_eq_true] at hc
        obtain ⟨b, tail, hbytes⟩ := List.exists_cons_of_ne_nil (utf8EncodeChar_ne_nil c)
        have hb := isAscii_char_of_mem hc (by rw [hbytes]; exact List.mem_cons_self)
        rw [encode_cons, hbytes, List.cons_append, List.all_cons, hp.eq_false hb, List.all_cons,
          hp.eq_false hc, Bool.false_and, Bool.false_and]

theorem onlyAscii_isAsciiDigit : OnlyAscii isAsciiDigit :=
  fun _ hc => Serialized.isAscii_of_isAsciiDigit hc

theorem isIdentifier_eq (name : List Char) :
    isIdentifier name = .ok (Clause.isIdentifier name) := by
  cases name with
  | nil => rfl
  | cons c rest =>
      have hall := all_encode onlyAscii_isAsciiWord (c :: rest)
      have hdigit := any_head?_encode onlyAscii_isAsciiDigit (c :: rest)
      cases hbytes : encode (c :: rest) with
      | nil =>
          have hle := length_le_length_encode (c :: rest)
          rw [hbytes, List.length_cons, List.length_nil] at hle
          omega
      | cons b tail =>
          rw [hbytes] at hall
          rw [hbytes, List.head?_cons, Option.any_some, List.head?_cons, Option.any_some] at hdigit
          have hword : (b :: tail).all isWordByte = (c :: rest).all isAsciiWord := hall
          simp only [isIdentifier, hbytes]
          rw [if_neg (by simp), itemAt, List.getElem?_cons_zero, found, ok_bind, hdigit, hword]
          rfl

theorem char_eq_iff {q : Char} (hq : isAscii q = true) (b : UInt8) :
    char b = q ↔ b = UInt8.ofNat q.toNat := by
  constructor
  · rintro rfl
    rw [toNat_char, UInt8.ofNat_toNat]
  · rintro rfl
    exact char_of_isAscii hq

/-- The last byte of a text is this ASCII character exactly if its last character is. -/
theorem getLast?_encode_of_isAscii {q : Char} (hq : isAscii q = true) (text : List Char) :
    (encode text).getLast? = some (UInt8.ofNat q.toNat) ↔ text.getLast? = some q := by
  have honly : OnlyAscii (fun c => c == q) := fun c hc => by rw [beq_iff_eq.mp hc]; exact hq
  have hlast := any_getLast?_encode honly text
  constructor
  · intro h
    rw [h, Option.any_some, char_of_isAscii hq, beq_self_eq_true, eq_comm,
      Option.any_eq_true_iff_get]
      at hlast
    obtain ⟨hsome, heq⟩ := hlast
    rw [← beq_iff_eq.mp heq, Option.some_get]
  · intro h
    rw [h, Option.any_some, beq_self_eq_true, Option.any_eq_true_iff_get] at hlast
    obtain ⟨hsome, heq⟩ := hlast
    rw [← (char_eq_iff hq _).mp (beq_iff_eq.mp heq), Option.some_get]

theorem quoted?_of_ends {text : List Char} {first last : UInt8}
    (hfirst : (encode text).head? = some first) (hlast : (encode text).getLast? = some last) :
    quoted? text =
      if Quote.isQuote (char first) && first == last && 2 ≤ (encode text).length then
        minus (byteLength text) 1 >>= fun stop =>
          (textBetween text 1 stop).map some
      else .ok none := by
  simp only [quoted?, hfirst, hlast]
  rfl

/-- The content of a quoted literal is between its first and its last byte. -/
theorem quoted?_quote {q : Char} (hquote : Quote.isQuote q = true) (rest : List Char) :
    quoted? (q :: rest) = .ok (Clause.quoted? (q :: rest)) := by
  have hascii := onlyAscii_isQuote q hquote
  have hsize := utf8Size_of_isAscii hascii
  have hlast := getLast?_encode_of_isAscii hascii (q :: rest)
  have hbytes := encode_cons_of_isAscii hascii rest
  obtain ⟨last, hends⟩ : ∃ last, (encode (q :: rest)).getLast? = some last := by
    rw [hbytes]
    exact ⟨_, List.getLast?_eq_some_getLast (List.cons_ne_nil _ _)⟩
  rw [quoted?_of_ends (by rw [hbytes]; rfl) hends, char_of_isAscii hascii, hquote, Bool.true_and,
    Clause.quoted?, hquote, Bool.true_and]
  rcases List.eq_nil_or_concat rest with rfl | ⟨content, r, rfl⟩
  · rw [encode_cons_of_isAscii hascii]
    simp
  · rw [List.concat_eq_append] at *
    rw [hends, ← List.cons_append, List.getLast?_concat, Option.some_inj, Option.some_inj] at hlast
    rw [List.getLast?_concat, List.dropLast_concat]
    by_cases hr : r = q
    · have hlength : 2 ≤ (encode (q :: (content ++ [r]))).length := by
        have hle := length_le_length_encode (q :: (content ++ [r]))
        rw [List.length_cons, List.length_append, List.length_singleton] at hle
        omega
      have hcount : byteLength (q :: (content ++ [q])) = byteLength [q] + byteLength content + 1 := by
        simp only [byteLength_cons, byteLength_append, byteLength_nil, hsize]
        omega
      have hslice := textBetween_append (ε := Error) [q] content [q]
      have hone : byteLength [q] = 1 := hsize
      rw [decide_eq_true hlength, hlast.mpr hr, hr, hcount, beq_self_eq_true, beq_self_eq_true,
        minus_add, ok_bind, ← hone, ← List.singleton_append, hslice]
      rfl
    · rw [beq_eq_false_iff_ne.mpr (fun heq => hr (hlast.mp heq.symm)),
        beq_eq_false_iff_ne.mpr (fun heq => hr (Option.some.inj heq))]
      rfl

theorem quoted?_eq (text : List Char) : quoted? text = .ok (Clause.quoted? text) := by
  cases text with
  | nil => rfl
  | cons q rest =>
      by_cases hquote : Quote.isQuote q = true
      · exact quoted?_quote hquote rest
      · rw [Bool.not_eq_true] at hquote
        have hhead := any_head?_encode onlyAscii_isQuote (q :: rest)
        rw [List.head?_cons, Option.any_some, hquote] at hhead
        rw [Clause.quoted?, hquote, Bool.false_and]
        cases hfirst : (encode (q :: rest)).head? with
        | none => simp only [quoted?, hfirst]; rfl
        | some first =>
            rw [hfirst, Option.any_some] at hhead
            cases hlast : (encode (q :: rest)).getLast? with
            | none => simp only [quoted?, hlast, hfirst]; rfl
            | some last =>
                rw [quoted?_of_ends hfirst hlast, hhead, Bool.false_and, Bool.false_and]
                rfl

theorem rightSide?_eq (text : List Char) : rightSide? text = .ok (Clause.rightSide? text) := by
  rw [rightSide?, Clause.rightSide?, Clause.literal?, quoted?_eq, isIdentifier_eq]
  by_cases hplaceholder : text = ['?']
  · rw [if_pos hplaceholder, if_pos hplaceholder]
  · rw [if_neg hplaceholder, if_neg hplaceholder, ok_bind]
    cases Clause.quoted? text with
    | some content => rfl
    | none =>
        cases Clause.wordValue? text with
        | some v => rfl
        | none =>
            cases Value.readNumber? text with
            | some v => rfl
            | none => cases Clause.isIdentifier text <;> rfl

/-! ## Patterns -/

/-- A percent sign at both ends is one percent sign or two: with two of them, what is behind the
first one is at least a byte long. -/
theorem ofLike_eq (text : List Char) : ofLike text = .ok (Pattern.ofLike text) := by
  rw [ofLike, Pattern.ofLike]
  by_cases hpercent : text = ['%']
  · rw [if_pos hpercent, if_pos hpercent]
  · rw [if_neg hpercent, if_neg hpercent]
    cases text with
    | nil => rfl
    | cons c rest =>
        by_cases hfront : c = '%'
        · subst hfront
          rcases List.eq_nil_or_concat rest with rfl | ⟨needle, d, rfl⟩
          · exact absurd rfl hpercent
          · rw [List.concat_eq_append]
            have hlast : ('%' :: (needle ++ [d])).getLast? = some d := by
              rw [← List.cons_append, List.getLast?_concat]
            by_cases hback : d = '%'
            · subst hback
              have hcount : byteLength (needle ++ ['%']) = byteLength needle + 1 := by
                rw [byteLength_append]
                rfl
              simp only [stripFront?, stripBack?, hlast, if_true, hcount, minus_add, ok_bind,
                textUpTo_append, List.head?_cons, List.tail_cons, List.dropLast_concat,
                beq_self_eq_true]
              rfl
            · have hne : (some d == some '%') = false :=
                beq_eq_false_iff_ne.mpr fun heq => hback (Option.some.inj heq)
              simp only [stripFront?, stripBack?, hlast, hne, hback, if_true, if_false,
                Option.some.injEq, List.head?_cons, List.tail_cons, beq_self_eq_true]
        · have hne : (some c == some '%') = false :=
            beq_eq_false_iff_ne.mpr fun heq => hfront (Option.some.inj heq)
          by_cases hback : (c :: rest).getLast? = some '%'
          · simp only [stripFront?, stripBack?, hback, hne, hfront, if_true, if_false,
              List.head?_cons, beq_self_eq_true]
          · have hnback : ((c :: rest).getLast? == some '%') = false :=
              beq_eq_false_iff_ne.mpr hback
            simp only [stripFront?, stripBack?, hback, hnback, hne, hfront, if_false,
              List.head?_cons]

theorem likePattern_eq (field : String) (v : Value) :
    likePattern field v = lift (Clause.likePattern field v) := by
  cases v <;> simp only [likePattern, Clause.likePattern, ofLike_eq, lift_ok, lift_error]

theorem comparison_eq (field : String) (operator : Operator) (v : Value) (source : Source) :
    comparison field operator v source = lift (Clause.comparison field operator v source) := by
  cases operator with
  | like =>
      rw [comparison, Clause.comparison, likePattern_eq]
      cases Clause.likePattern field v <;> rfl
  | _ => rfl

/-! ## Fragments -/

/-- The sides make the same clause, once the left one is known to be a field. -/
theorem ofRightSide_eq (fragment : List Char) {left : List Char}
    (h : Clause.isIdentifier (trim isBlank left) = true) (operator : Operator) (right : List Char)
    (values : List Value) :
    ofRightSide fragment (trim isBlank left) operator right values =
      lift (Clause.ofSides fragment left operator right values) := by
  simp only [ofRightSide, Clause.ofSides, rightSide?_eq, ok_bind, h, Bool.not_true,
    Bool.false_eq_true, if_false]
  cases Clause.rightSide? (trim isBlank right) with
  | none => rfl
  | some side =>
      cases side with
      | placeholder =>
          cases values with
          | nil => rfl
          | cons v values =>
              dsimp only
              rw [comparison_eq, lift_map]
              rfl
      | literal v =>
          dsimp only
          rw [comparison_eq, lift_map]
          rfl
      | field other =>
          by_cases hlike : operator = .like
          · simp only [if_pos hlike]
            rfl
          · simp only [if_neg hlike]
            rfl

/-- Reading a fragment by position is reading it: the position of an operator cuts the fragment into
its sides. -/
theorem readFragment_eq (fragment : List Char) (values : List Value) :
    readFragment fragment values = lift (Clause.read fragment values) := by
  simp only [readFragment, Clause.read, findOperator_eq, ok_bind]
  cases hfind : Operator.find? (trim isBlank fragment) with
  | none =>
      by_cases hplaceholders : 0 < Quote.placeholders (trim isBlank fragment)
      · simp only [if_pos hplaceholders]
        rfl
      · simp only [if_neg hplaceholders]
        rfl
  | some located =>
      obtain ⟨left, word, right, s, hsplit, -, -, -, rfl⟩ := Operator.exists_of_findFrom hfind
      have hslice := slice?_append [] left (word ++ right)
      have hdrop := drop?_append (left ++ word) right
      have honFrom := textOnFrom_append (ε := Error) (left ++ word) right
      rw [byteLength_nil, List.nil_append, ← hsplit] at hslice
      rw [byteLength_append, List.append_assoc, ← hsplit] at hdrop honFrom
      have hupTo : textUpTo (ε := Error) (trim isBlank fragment) (0 + byteLength left) =
          .ok left := by
        rw [textUpTo, textBetween, hslice]
        rfl
      rw [Nat.zero_add] at hslice hupTo ⊢
      simp only [sliceFrom?, hslice, hdrop, hupTo, ok_bind, isIdentifier_eq]
      cases hfield : Clause.isIdentifier (trim isBlank left) with
      | true =>
          rw [if_pos rfl, honFrom, ok_bind]
          exact ofRightSide_eq (trim isBlank fragment) hfield s.operator right values
      | false =>
          simp only [Clause.ofSides, hfield, Bool.not_false, if_true]
          rfl

end Bytewise
end RecordFilter
