/-
The filter of a condition by position is its filter.  The condition is read token by token, each of
which is where it says.  In a flat file the fields of a fragment are marked between its literals:
one part of the text without quotes after the other, each of them ended by a literal.
-/
import RecordFilter.Bytewise.Filter
import RecordFilter.Proofs.Bytewise.Clause
import RecordFilter.Proofs.Bytewise.Template
import RecordFilter.Proofs.Grouping.Run

namespace RecordFilter
namespace Bytewise

open FlatFile (isLiteralWord startsField)
open Grouping (Frame Item Level)
open Text

/-! ## Conditions -/

section

variable {template : List Char} {toks : List Token}

theorem countPlaceholders_eq
    (h : ∀ token ∈ toks, tokenText template token = lift (Template.tokenText template token)) :
    countPlaceholders template toks = lift (Condition.countPlaceholders template toks) := by
  induction toks with
  | nil => rfl
  | cons token rest ih =>
      have hrest := ih fun other hother => h other (List.mem_cons_of_mem token hother)
      rw [countPlaceholders, Condition.countPlaceholders, h token List.mem_cons_self, hrest]
      cases token.kind with
      | fragment =>
          cases Template.tokenText template token with
          | error e => rfl
          | ok text => cases Condition.countPlaceholders template rest <;> rfl
      | _ => rfl

theorem resolve_eq
    (h : ∀ token ∈ toks, tokenText template token = lift (Template.tokenText template token))
    (values : List Value) :
    resolve template toks values = lift (Condition.resolve template toks values) := by
  induction toks generalizing values with
  | nil => rfl
  | cons token rest ih =>
      have hrest := ih fun other hother => h other (List.mem_cons_of_mem token hother)
      rw [resolve, Condition.resolve, h token List.mem_cons_self]
      cases token.kind with
      | fragment =>
          cases Template.tokenText template token with
          | error e => rfl
          | ok text =>
              simp only [lift_ok, ok_bind, readFragment_eq]
              cases Clause.read text values with
              | error e => rfl
              | ok found => rw [lift_ok, ok_bind, hrest, lift_map]
      | _ => simp only [hrest, lift_map]

end

/-- A level that is no level has no operand, or more than one. -/
theorem levelTree_eq (l : Level) (template : String) :
    levelTree l template = lift (l.tree template) := by
  rw [levelTree, Level.tree]
  cases hchildren : l.children with
  | nil => rfl
  | cons first rest =>
      simp only [List.isEmpty_cons, Bool.false_eq_true, if_false]
      by_cases hand : l.sawAnd = true
      · rw [if_pos hand, if_pos hand]
        rfl
      · rw [if_neg hand, if_neg hand]
        by_cases hor : l.sawOr = true
        · rw [if_pos hor, if_pos hor]
          rfl
        · rw [if_neg hor, if_neg hor]
          cases rest <;> rfl

theorem group_eq (template : String) (level : Level) (stack : List Frame) (items : List Item) :
    group template level stack items = lift (Grouping.run template level stack items).tree := by
  induction items generalizing level stack with
  | nil =>
      cases stack with
      | nil => rw [group, Grouping.run, levelTree_eq, Grouping.tree_report]
      | cons frame stack => rfl
  | cons item rest ih =>
      cases item with
      | and => exact ih _ stack
      | or => exact ih _ stack
      | leaf clause => exact ih _ stack
      | opening position =>
          rw [group, Grouping.run]
          by_cases hlimit : stack.length = Grouping.nestingLimit
          · simp only [if_pos hlimit]
            rfl
          · simp only [if_neg hlimit]
            exact ih _ _
      | closing position =>
          cases stack with
          | nil => rfl
          | cons frame stack =>
              rw [group, Grouping.run, levelTree_eq]
              cases level.tree template with
              | error e => rfl
              | ok t =>
                  simp only [lift_ok, ok_bind, Grouping.tree_report]
                  exact ih _ stack

theorem parse_eq (c : Condition) : parse c = lift c.parse := by
  rw [parse, tokens_eq, Condition.parse, Condition.read, Condition.items?]
  cases htokens : Template.tokens c.template.toList with
  | error e => rfl
  | ok toks =>
      cases toks with
      | nil => rfl
      | cons token rest =>
          have htext : ∀ other ∈ token :: rest, tokenText c.template.toList other =
              lift (Template.tokenText c.template.toList other) :=
            fun other hother => tokenText_eq htokens hother
          simp only [lift_ok, ok_bind, countPlaceholders_eq htext]
          cases Condition.countPlaceholders c.template.toList (token :: rest) with
          | error e => rfl
          | ok placeholders =>
              by_cases hcount : placeholders = c.values.length
              · simp only [lift_ok, ok_bind, hcount, ne_eq, not_true_eq_false, if_false,
                  resolve_eq htext]
                cases Condition.resolve c.template.toList (token :: rest) c.values with
                | error e => rfl
                | ok items =>
                    simp only [lift_ok, ok_bind, group_eq]
                    exact (lift_map _ _).symm
              · simp only [lift_ok, ok_bind, hcount, ne_eq, not_false_eq_true, if_true]
                rfl

/-! ## Words of a text without quotes -/

theorem isQuote_of_isWord {c : Char} (h : isWord c = true) : Quote.isQuote c = false := by
  refine Bool.eq_false_iff.mpr fun hquote => ?_
  simp only [Quote.isQuote, Bool.or_eq_true, beq_iff_eq] at hquote
  rcases hquote with rfl | rfl <;> cases h

theorem isWord_of_startsWord {c : Char} (h : (isAsciiLetter c || c == '_') = true) :
    isWord c = true := by
  refine isWord_of_isAsciiWord ?_
  rw [Bool.or_eq_true] at h
  rw [isAsciiWord]
  rcases h with h | h
  · rw [h, Bool.true_or, Bool.true_or]
  · rw [h, Bool.or_true]

theorem isWord_of_isQuote {c : Char} (h : Quote.isQuote c = true) : isWord c = false := by
  refine Bool.eq_false_iff.mpr fun hword => ?_
  rw [isQuote_of_isWord hword] at h
  cases h

theorem startsField_cons_of_not_word {c : Char} (h : isWord c = false) (inWord : Bool)
    (rest : List Char) : startsField inWord (c :: rest) = false := by
  have hletter : (isAsciiLetter c || c == '_') = false := by
    refine Bool.eq_false_iff.mpr fun hstart => ?_
    rw [isWord_of_startsWord hstart] at h
    cases h
  rw [startsField, hletter, Bool.and_false, Bool.false_and]

/-- Within a word there is no field to mark. -/
theorem markFieldsFrom_word {word : List Char} (h : word.all isWord = true) (rest : List Char) :
    FlatFile.markFieldsFrom none true (word ++ rest) =
      word ++ FlatFile.markFieldsFrom none true rest := by
  induction word with
  | nil => rfl
  | cons c word ih =>
      rw [List.all_cons, Bool.and_eq_true] at h
      rw [List.cons_append, FlatFile.markFieldsFrom,
        Quote.step_of_not_quote (isQuote_of_isWord h.1), h.1]
      simp only [Option.isNone_none, Bool.true_and, startsField, Bool.not_true, Bool.false_and,
        Bool.false_eq_true, if_false, ih h.2, List.cons_append]

theorem markWordsFrom_eq {text : List Char} (h : ∀ c ∈ text, Quote.isQuote c = false)
    (inWord : Bool) :
    markWordsFrom inWord text = .ok (FlatFile.markFieldsFrom none inWord text) := by
  match text with
  | [] => rw [markWordsFrom]; rfl
  | c :: rest =>
      have hstep := Quote.step_of_not_quote (h c List.mem_cons_self)
      have hrest : ∀ d ∈ rest, Quote.isQuote d = false := fun d hd =>
        h d (List.mem_cons_of_mem c hd)
      rw [markWordsFrom, FlatFile.markFieldsFrom, hstep, startsField]
      by_cases hstart : (!inWord && (isAsciiLetter c || c == '_')) = true
      · have hword : isWord c = true := by
          rw [Bool.and_eq_true] at hstart
          exact isWord_of_startsWord hstart.2
        have hshorter := (List.dropWhile_sublist isWord (l := rest)).length_le
        have hdropped : ∀ d ∈ rest.dropWhile isWord, Quote.isQuote d = false := fun d hd =>
          hrest d ((List.dropWhile_sublist isWord).subset hd)
        have hmore := markWordsFrom_eq hdropped true
        have hcopied := markFieldsFrom_word (List.all_takeWhile (p := isWord) (l := rest))
          (rest.dropWhile isWord)
        rw [List.takeWhile_append_dropWhile] at hcopied
        rw [if_pos hstart, hmore, hstart, List.takeWhile_cons_of_pos hword, hword]
        simp only [Option.isNone_none, Bool.true_and, hcopied]
        cases hliteral : isLiteralWord (c :: rest.takeWhile isWord) <;>
          simp [sigil, itemAt, found, hliteral, ok_bind]
      · rw [Bool.not_eq_true] at hstart
        rw [hstart, markWordsFrom_eq hrest]
        rfl
termination_by text.length

/-! ## Literals in a text -/

variable {q : Char}

theorem takeWhile_append_stop {p : Char → Bool} (h : p q = false) (front back : List Char) :
    (front ++ q :: back).takeWhile p = front.takeWhile p := by
  induction front with
  | nil => rw [List.nil_append, List.takeWhile_cons, h]; rfl
  | cons c front ih => rw [List.cons_append, List.takeWhile_cons, List.takeWhile_cons, ih]

/-- A quote ends the words in front of it. -/
theorem markFieldsFrom_append_quote (hquote : Quote.isQuote q = true) {words : List Char}
    (h : ∀ c ∈ words, Quote.isQuote c = false) (inWord : Bool) (rest : List Char) :
    FlatFile.markFieldsFrom none inWord (words ++ q :: rest) =
      FlatFile.markFieldsFrom none inWord words ++
        q :: FlatFile.markFieldsFrom (some q) false rest := by
  have hword := isWord_of_isQuote hquote
  induction words generalizing inWord with
  | nil =>
      rw [List.nil_append, FlatFile.markFieldsFrom, FlatFile.markFieldsFrom,
        Quote.step_of_quote hquote, hword, startsField_cons_of_not_word hword, Bool.and_false]
      rfl
  | cons c words ih =>
      have hrest := ih fun d hd => h d (List.mem_cons_of_mem c hd)
      have hstarts : startsField inWord (c :: (words ++ q :: rest)) =
          startsField inWord (c :: words) := by
        rw [startsField, startsField, ← List.cons_append, takeWhile_append_stop hword]
      rw [List.cons_append, FlatFile.markFieldsFrom, FlatFile.markFieldsFrom, hstarts,
        Quote.step_of_not_quote (h c List.mem_cons_self), hrest]
      cases (none : Option Char).isNone && startsField inWord (c :: words) <;> rfl

theorem markFieldsFrom_literal {content : List Char} (h : q ∉ content) (inWord : Bool)
    (rest : List Char) :
    FlatFile.markFieldsFrom (some q) inWord (content ++ q :: rest) =
      content ++ q :: FlatFile.markFieldsFrom none false rest := by
  induction content generalizing inWord with
  | nil =>
      rw [List.nil_append, FlatFile.markFieldsFrom, Quote.step_self]
      rfl
  | cons c content ih =>
      have hne : c ≠ q := fun heq => h (heq ▸ List.mem_cons_self)
      rw [List.cons_append, FlatFile.markFieldsFrom, Quote.step_of_ne hne,
        ih fun hmem => h (List.mem_cons_of_mem c hmem)]
      rfl

theorem markFieldsFrom_open {tail : List Char} (h : q ∉ tail) (inWord : Bool) :
    FlatFile.markFieldsFrom (some q) inWord tail = tail := by
  induction tail generalizing inWord with
  | nil => rfl
  | cons c tail ih =>
      have hne : c ≠ q := fun heq => h (heq ▸ List.mem_cons_self)
      rw [FlatFile.markFieldsFrom, Quote.step_of_ne hne,
        ih fun hmem => h (List.mem_cons_of_mem c hmem)]
      rfl

/-! ## Fields by position -/

theorem markFieldsFrom_cons {text : List Char} {left right : List UInt8} {b : UInt8}
    (h : encode text = left ++ b :: right) (start : Nat) :
    markFieldsFrom text start left.length =
      if Quote.isQuote (char b) then
        textBetween text start left.length >>= fun words =>
          markWordsFrom false words >>= fun marked =>
            literalStop (encode text) b left.length >>= fun stop =>
              textBetween text left.length stop >>= fun literal =>
                (markFieldsFrom text stop stop).map (marked ++ literal ++ ·)
      else markFieldsFrom text start (left.length + 1) := by
  have hlt : left.length < (encode text).length := by
    rw [h, List.length_append, List.length_cons]
    omega
  have hitem : itemAt (ε := Error) (encode text) left.length = .ok b := by
    rw [h, itemAt_append]
  rw [markFieldsFrom, dif_pos hlt, hitem]
  refine if_congr Iff.rfl ?_ rfl
  congr 1
  funext words
  congr 1
  funext marked
  split <;> rename_i hstop <;> rw [hstop] <;> rfl

theorem markFieldsFrom_long {text : List Char} {bytes : List UInt8}
    (h : ∀ b ∈ bytes, Quote.isQuote (char b) = false) {left right : List UInt8}
    (htext : encode text = left ++ (bytes ++ right)) (start : Nat) :
    markFieldsFrom text start left.length =
      markFieldsFrom text start (left.length + bytes.length) := by
  induction bytes generalizing left with
  | nil => rfl
  | cons b bytes ih =>
      have hsplit : encode text = left ++ [b] ++ (bytes ++ right) := by
        rw [htext, List.append_assoc]
        rfl
      have hnext := ih (fun d hd => h d (List.mem_cons_of_mem b hd)) hsplit
      rw [List.length_append, List.length_singleton] at hnext
      rw [markFieldsFrom_cons htext, h b List.mem_cons_self, hnext, List.length_cons]
      simp only [Bool.false_eq_true, if_false]
      congr 1
      omega

/-- The scan passes a text without quotes. -/
theorem markFieldsFrom_words {words : List Char} (h : ∀ c ∈ words, Quote.isQuote c = false)
    (left right : List Char) (start : Nat) :
    markFieldsFrom (left ++ (words ++ right)) start (byteLength left) =
      markFieldsFrom (left ++ (words ++ right)) start (byteLength left + byteLength words) := by
  have hbytes : ∀ b ∈ encode words, Quote.isQuote (char b) = false := by
    intro b hb
    obtain ⟨c, hc, hmem⟩ := List.mem_flatMap.mp hb
    by_cases hascii : isAscii c = true
    · rw [utf8EncodeChar_of_isAscii hascii, List.mem_singleton] at hmem
      rw [hmem, char_of_isAscii hascii, h c hc]
    · rw [Bool.not_eq_true] at hascii
      exact onlyAscii_isQuote.eq_false (isAscii_char_of_mem hascii hmem)
  rw [← length_encode, ← length_encode]
  exact markFieldsFrom_long hbytes (by rw [encode_append, encode_append]) start

/-- At the end of the text, what is left is marked. -/
theorem markFieldsFrom_end {words : List Char} (h : ∀ c ∈ words, Quote.isQuote c = false)
    (left : List Char) :
    markFieldsFrom (left ++ words) (byteLength left) (byteLength left) =
      .ok (FlatFile.markFieldsFrom none false words) := by
  have hwords := markFieldsFrom_words h left [] (byteLength left)
  have hlt : ¬ byteLength left + byteLength words < (encode (left ++ words)).length := by
    rw [length_encode, byteLength_append]
    omega
  rw [List.append_nil] at hwords
  rw [hwords, markFieldsFrom, dif_neg hlt, textOnFrom_append, ok_bind, markWordsFrom_eq h]

theorem encode_quote (hquote : Quote.isQuote q = true) (left words tail : List Char) :
    encode (left ++ (words ++ q :: tail)) =
      encode (left ++ words) ++ UInt8.ofNat q.toNat :: encode tail := by
  rw [← List.append_assoc, encode_append, encode_cons_of_isAscii (onlyAscii_isQuote q hquote)]

/-- In front of a literal, the words up to it are marked and it is copied as it is. -/
theorem markFieldsFrom_quote (hquote : Quote.isQuote q = true) {words : List Char}
    (h : ∀ c ∈ words, Quote.isQuote c = false) (left : List Char) {literal rest : List Char}
    {tail : List Char} (htail : q :: tail = literal ++ rest)
    (hstop : literalStop (encode (left ++ (words ++ q :: tail))) (UInt8.ofNat q.toNat)
      (byteLength (left ++ words)) = .ok (byteLength (left ++ words) + byteLength literal)) :
    markFieldsFrom (left ++ (words ++ q :: tail)) (byteLength left) (byteLength left) =
      (markFieldsFrom (left ++ (words ++ q :: tail)) (byteLength (left ++ words ++ literal))
        (byteLength (left ++ words ++ literal))).map
          (FlatFile.markFieldsFrom none false words ++ literal ++ ·) := by
  have hbytes := encode_quote hquote left words tail
  have hstep := markFieldsFrom_cons hbytes (byteLength left)
  have hwords := textBetween_append (ε := Error) left words (q :: tail)
  have hliteral := textBetween_append (ε := Error) (left ++ words) literal rest
  rw [← htail, List.append_assoc] at hliteral
  rw [length_encode, char_of_isAscii (onlyAscii_isQuote q hquote), if_pos hquote, hstop,
    byteLength_append, hwords, ok_bind, markWordsFrom_eq h, ok_bind, ok_bind, ← byteLength_append,
    hliteral, ok_bind] at hstep
  rw [markFieldsFrom_words h, ← byteLength_append, hstep, byteLength_append (left ++ words)]

/-- Behind the quote that opens a literal, the next such quote is looked for. -/
theorem literalStop_eq (hquote : Quote.isQuote q = true) (left tail : List Char) :
    literalStop (encode (left ++ q :: tail)) (UInt8.ofNat q.toNat) (byteLength left) =
      .ok (match (encode tail).findIdx? (· == UInt8.ofNat q.toNat) with
        | none => (encode (left ++ q :: tail)).length
        | some offset => byteLength left + offset + 2) := by
  have hascii := onlyAscii_isQuote q hquote
  have hbehind := onFrom_append (ε := Error) (encode left ++ [UInt8.ofNat q.toNat]) (encode tail)
  rw [List.append_assoc, List.singleton_append, List.length_append, List.length_singleton,
    length_encode] at hbehind
  rw [literalStop, encode_append, encode_cons_of_isAscii hascii, hbehind, ok_bind]
  rfl

theorem findIdx?_encode_eq_none (hq : isAscii q = true) {text : List Char} (h : q ∉ text) :
    (encode text).findIdx? (· == UInt8.ofNat q.toNat) = none := by
  rw [List.findIdx?_eq_none_iff]
  exact fun b hb => beq_eq_false_iff_ne.mpr (ne_of_mem_encode hq h b hb)

theorem literalStop_closed (hquote : Quote.isQuote q = true) {content : List Char} (h : q ∉ content)
    (left rest : List Char) :
    literalStop (encode (left ++ q :: (content ++ q :: rest))) (UInt8.ofNat q.toNat)
        (byteLength left) = .ok (byteLength left + byteLength (q :: (content ++ [q]))) := by
  have hascii := onlyAscii_isQuote q hquote
  have hsize := utf8Size_of_isAscii hascii
  rw [literalStop_eq hquote, encode_append content, encode_cons_of_isAscii hascii,
    List.findIdx?_append, findIdx?_encode_eq_none hascii h, List.findIdx?_cons, beq_self_eq_true]
  simp only [if_true, Option.none_or, Option.map_some, Nat.zero_add, length_encode, byteLength_cons,
    byteLength_append, byteLength_nil, hsize]
  exact congrArg Except.ok (by omega)

theorem literalStop_open (hquote : Quote.isQuote q = true) {tail : List Char} (h : q ∉ tail)
    (left : List Char) :
    literalStop (encode (left ++ q :: tail)) (UInt8.ofNat q.toNat)
        (byteLength left) = .ok (byteLength left + byteLength (q :: tail)) := by
  rw [literalStop_eq hquote, findIdx?_encode_eq_none (onlyAscii_isQuote q hquote) h]
  simp only [length_encode, byteLength_append]

/-- Either a text has no quotes, or there is a first one. -/
theorem split_at_quote (text : List Char) :
    (∀ c ∈ text, Quote.isQuote c = false) ∨
      ∃ words q tail, text = words ++ q :: tail ∧ (∀ c ∈ words, Quote.isQuote c = false) ∧
        Quote.isQuote q = true := by
  induction text with
  | nil => exact Or.inl fun c hc => absurd hc List.not_mem_nil
  | cons c rest ih =>
      by_cases hquote : Quote.isQuote c = true
      · exact Or.inr ⟨[], c, rest, rfl, fun d hd => absurd hd List.not_mem_nil, hquote⟩
      · rw [Bool.not_eq_true] at hquote
        rcases ih with hnone | ⟨words, q, tail, rfl, hwords, hq⟩
        · exact Or.inl (List.forall_mem_cons.mpr ⟨hquote, hnone⟩)
        · exact Or.inr ⟨c :: words, q, tail, rfl, List.forall_mem_cons.mpr ⟨hquote, hwords⟩, hq⟩

/-- From the end of a literal on, the fields of the text behind it are marked. -/
theorem markFieldsFrom_encode (left right : List Char) :
    markFieldsFrom (left ++ right) (byteLength left) (byteLength left) =
      .ok (FlatFile.markFieldsFrom none false right) := by
  rcases split_at_quote right with hnone | ⟨words, q, tail, hright, hwords, hquote⟩
  · exact markFieldsFrom_end hnone left
  · rw [hright, markFieldsFrom_append_quote hquote hwords]
    by_cases hmem : q ∈ tail
    · obtain ⟨content, rest, htail, hcontent⟩ := List.eq_append_cons_of_mem hmem
      have hshorter : rest.length < right.length := by
        simp only [hright, htail, List.length_append, List.length_cons]
        omega
      have hstop := literalStop_closed hquote hcontent (left ++ words) rest
      have hnext := markFieldsFrom_encode (left ++ words ++ q :: (content ++ [q])) rest
      have hliteral : q :: tail = q :: (content ++ [q]) ++ rest := by
        rw [htail, List.cons_append, List.append_assoc, List.singleton_append]
      rw [← htail, List.append_assoc] at hstop
      rw [List.append_assoc, ← hliteral, List.append_assoc] at hnext
      rw [markFieldsFrom_quote hquote hwords left hliteral hstop, hnext, htail,
        markFieldsFrom_literal hcontent]
      simp only [Except.map, List.append_assoc, List.cons_append, List.nil_append]
    · have hstop := literalStop_open hquote hmem (left ++ words)
      have hnext := @markFieldsFrom_end [] (by simp) (left ++ words ++ q :: tail)
      rw [List.append_assoc] at hstop
      rw [List.append_nil, List.append_assoc left words] at hnext
      rw [markFieldsFrom_quote hquote hwords left (List.append_nil (q :: tail)).symm hstop,
        List.append_assoc left words, hnext, markFieldsFrom_open hmem]
      simp [Except.map, FlatFile.markFieldsFrom]
termination_by right.length

theorem markFields_eq (text : List Char) : markFields text = .ok (FlatFile.markFields text) :=
  markFieldsFrom_encode [] text

/-! ## Expressions -/

theorem clauseExpression_eq (clause : Clause) :
    clauseExpression clause = .ok (FlatFile.clauseExpression clause) := by
  cases clause with
  | bare text => rw [clauseExpression, markFields_eq]; rfl
  | _ => rfl

mutual
theorem treeExpression_eq (t : Tree) : treeExpression t = .ok (FlatFile.treeExpression t) := by
  match t with
  | .leaf clause => exact clauseExpression_eq clause
  | .all children => exact joined_eq FlatFile.andText children
  | .any children => exact joined_eq FlatFile.orText children

theorem operandExpression_eq (t : Tree) :
    operandExpression t = .ok (FlatFile.operandExpression t) := by
  match t with
  | .leaf clause => exact clauseExpression_eq clause
  | .all children => rw [operandExpression, joined_eq FlatFile.andText children]; rfl
  | .any children => rw [operandExpression, joined_eq FlatFile.orText children]; rfl

theorem joined_eq (joiner : List Char) (ts : List Tree) :
    joined joiner ts = .ok (FlatFile.joined joiner ts) := by
  match ts with
  | [] => rfl
  | t :: rest => rw [joined, operandExpression_eq t, joinedAfter_eq joiner rest]; rfl

theorem joinedAfter_eq (joiner : List Char) (ts : List Tree) :
    joinedAfter joiner ts = .ok (FlatFile.joinedAfter joiner ts) := by
  match ts with
  | [] => rfl
  | t :: rest => rw [joinedAfter, operandExpression_eq t, joinedAfter_eq joiner rest]; rfl
end

/-! ## Filters -/

theorem filterOfTree_eq (s : Storage) (c : Condition) (tree : Tree) :
    filterOfTree s c tree = lift (s.filterOfTree c tree) := by
  rw [filterOfTree, Storage.filterOfTree]
  cases s.backend with
  | flatFile => simp only [treeExpression_eq]; rfl
  | relational => cases Relational.values s.schema c tree <;> rfl
  | document => cases Document.treeDocument tree <;> rfl

/-- The filter of a condition by position is its filter, for every backend. -/
theorem filterFor_eq (s : Storage) (c : Condition) : filterFor s c = lift (s.filterFor c) := by
  rw [filterFor, Storage.filterFor, parse_eq]
  cases c.parse with
  | error e => rfl
  | ok tree =>
      cases tree with
      | none => rfl
      | some tree =>
          simp only [lift_ok, ok_bind, filterOfTree_eq]
          exact (lift_map some _).symm

end Bytewise
end RecordFilter
