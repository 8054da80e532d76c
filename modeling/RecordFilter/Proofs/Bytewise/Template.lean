/-
The tokens of a template by position are its tokens.  A fragment goes on over a gap, since no
delimiter starts there, and passes the literals in it as a whole; from one delimiter to the next the
scan then follows `CutsTo`.
-/
import RecordFilter.Proofs.Bytewise.Words
import RecordFilter.Proofs.Template.Placeholders
import RecordFilter.Proofs.Template.Tokens

namespace RecordFilter
namespace Bytewise

open Template Text

variable {q : Char}

/-! ## Fragments -/

/-- One step of a fragment: it ends at a delimiter, passes a literal as a whole, or moves on. -/
theorem fragmentEnd_cons (left : List UInt8) (b : UInt8) (right : List UInt8) :
    fragmentEnd (left ++ b :: right) left.length =
      if (paren? (char b)).isSome then .ok left.length
      else if Quote.isQuote (char b) then
        literalEnd (left ++ b :: right) b left.length >>= fragmentEnd (left ++ b :: right)
      else
        (if startsKeyword b then atSomeKeyword (left ++ b :: right) left.length else .ok false) >>=
          fun keyword =>
            if keyword then .ok left.length
            else fragmentEnd (left ++ b :: right) (left.length + 1) := by
  rw [fragmentEnd]
  split
  · rename_i hnone
    rw [getElem?_append_length] at hnone
    cases hnone
  · rename_i a ha
    rw [getElem?_append_length] at ha
    cases ha
    refine if_congr Iff.rfl rfl (if_congr Iff.rfl ?_ ?_)
    · split
      · rename_i hend
        rw [hend]
        rfl
      · rename_i hend
        rw [hend]
        rfl
    · split <;> rename_i hkeyword <;> rw [hkeyword] <;> rfl

theorem fragmentEnd_nil (left : List UInt8) : fragmentEnd left left.length = .ok left.length := by
  rw [fragmentEnd]
  split
  · rfl
  · rename_i b hb
    have hlt := lt_length_of_getElem? hb
    omega

/-- A fragment passes every character that is longer than a byte. -/
theorem fragmentEnd_long {bytes : List UInt8} (h : ∀ b ∈ bytes, isAscii (char b) = false)
    (left right : List UInt8) :
    fragmentEnd (left ++ (bytes ++ right)) left.length =
      fragmentEnd (left ++ (bytes ++ right)) (left.length + bytes.length) := by
  induction bytes generalizing left with
  | nil => rfl
  | cons b bytes ih =>
      have hb := h b List.mem_cons_self
      have hnext := ih (fun d hd => h d (List.mem_cons_of_mem b hd)) (left ++ [b])
      have hstarts : startsKeyword b = false := by
        refine Bool.eq_false_iff.mpr fun hstarts => ?_
        simp only [startsKeyword, Bool.or_eq_true, decide_eq_true_eq] at hstarts
        rcases hstarts with ((rfl | rfl) | rfl) | rfl <;> cases hb
      rw [List.append_assoc, List.singleton_append, List.length_append, List.length_singleton]
        at hnext
      rw [List.cons_append, fragmentEnd_cons, onlyAscii_paren.eq_false hb,
        onlyAscii_isQuote.eq_false hb, hstarts]
      simp only [Bool.false_eq_true, if_false, ok_bind]
      rw [hnext, List.length_cons]
      congr 1
      omega

theorem keyword?_of_delimiterAt? {before : Option Char} {c : Char} {right : List Char}
    (h : delimiterAt? before (c :: right) = none) :
    paren? c = none ∧ keyword? before (c :: right) = none := by
  rw [delimiterAt?] at h
  split at h
  · cases h
  · rename_i hparen
    exact ⟨hparen, Option.map_eq_none_iff.mp h⟩

/-- A fragment passes a character that is neither a quote nor the start of a delimiter. -/
theorem fragmentEnd_char {left right : List Char} {c : Char} (hquote : Quote.isQuote c = false)
    (hnone : delimiterAt? left.getLast? (c :: right) = none) :
    fragmentEnd (encode (left ++ c :: right)) (byteLength left) =
      fragmentEnd (encode (left ++ c :: right)) (byteLength (left ++ [c])) := by
  obtain ⟨hparen, hkeyword⟩ := keyword?_of_delimiterAt? hnone
  have hat := atSomeKeyword_encode left (c :: right)
  rw [hkeyword, Option.isSome_none] at hat
  rw [byteLength_append, byteLength_cons, byteLength_nil, Nat.add_zero]
  by_cases hc : isAscii c = true
  · rw [encode_append, encode_cons_of_isAscii hc, ← length_encode] at hat ⊢
    rw [fragmentEnd_cons, char_of_isAscii hc, hparen, hquote, hat, utf8Size_of_isAscii hc, ite_self]
    rfl
  · rw [Bool.not_eq_true] at hc
    have hlong : ∀ b ∈ String.utf8EncodeChar c, isAscii (char b) = false := fun b hb =>
      isAscii_char_of_mem hc hb
    rw [encode_append, encode_cons, ← length_encode, ← String.length_utf8EncodeChar]
    exact fragmentEnd_long hlong (encode left) (encode right)

/-- A fragment passes a literal as a whole. -/
theorem fragmentEnd_literal {left content right : List Char} (hquote : Quote.isQuote q = true)
    (h : q ∉ content) :
    fragmentEnd (encode (left ++ q :: (content ++ q :: right))) (byteLength left) =
      fragmentEnd (encode (left ++ q :: (content ++ q :: right)))
        (byteLength (left ++ q :: (content ++ [q]))) := by
  have hascii := onlyAscii_isQuote q hquote
  have hend := literalEnd_closed hquote h left right
  rw [encode_append, encode_cons_of_isAscii hascii, ← length_encode left] at hend ⊢
  rw [fragmentEnd_cons, char_of_isAscii hascii, paren?_of_isQuote hquote, hquote, hend]
  rfl

/-- A fragment ends where a literal has no end. -/
theorem fragmentEnd_open {left tail : List Char} (hquote : Quote.isQuote q = true) (h : q ∉ tail) :
    fragmentEnd (encode (left ++ q :: tail)) (byteLength left) =
      .error (.fault (.unterminatedString (byteLength left))) := by
  have hascii := onlyAscii_isQuote q hquote
  have hend := literalEnd_open hquote h left
  rw [encode_append, encode_cons_of_isAscii hascii, ← length_encode left] at hend ⊢
  rw [fragmentEnd_cons, char_of_isAscii hascii, paren?_of_isQuote hquote, hquote, hend]
  rfl

theorem delimiterAt?_of_noneAt {left right : List Char} (hleft : Quote.after none left = none)
    (h : NoneAt left right) : delimiterAt? left.getLast? right = none := by
  cases right with
  | nil => rfl
  | cons c right =>
      rw [delimiterAt?]
      split
      · rename_i kind hparen
        exact absurd (delimits_of_paren hleft hparen) (h kind [c] right rfl)
      · rw [Option.map_eq_none_iff]
        cases hkeyword : keyword? left.getLast? (c :: right) with
        | none => rfl
        | some found =>
            obtain ⟨kind, more⟩ := found
            obtain ⟨word, behind, htext, _, hdelimits⟩ := exists_keyword hleft hkeyword
            exact absurd hdelimits (h kind word behind htext)

/-- A fragment goes on over a gap, to where the gap ends. -/
theorem fragmentEnd_gap {left gap right : List Char} (hleft : Quote.after none left = none)
    (hclosed : Quote.after none (left ++ gap) = none) (hgap : Undelimited left gap right) :
    fragmentEnd (encode (left ++ (gap ++ right))) (byteLength left) =
      fragmentEnd (encode (left ++ (gap ++ right))) (byteLength (left ++ gap)) := by
  match gap with
  | [] => rw [List.append_nil]
  | c :: gap =>
      by_cases hquote : Quote.isQuote c = true
      · -- The literal ends inside of the gap.
        have hmem : c ∈ gap := by
          by_contra hmem
          rw [Quote.after_append, hleft, Quote.after_open hquote hmem] at hclosed
          cases hclosed
        obtain ⟨content, behind, hsplit, hcontent⟩ := List.eq_append_cons_of_mem hmem
        have hshorter : behind.length < gap.length := by
          rw [hsplit, List.length_append, List.length_cons]
          omega
        have hliteral : c :: gap = c :: (content ++ [c]) ++ behind := by
          rw [hsplit, List.cons_append, List.append_assoc, List.singleton_append]
        have htext : left ++ (c :: gap ++ right) =
            left ++ c :: (content ++ c :: (behind ++ right)) := by
          rw [hsplit, List.cons_append, List.append_assoc, List.cons_append]
        have htext' : left ++ (c :: gap ++ right) =
            left ++ c :: (content ++ [c]) ++ (behind ++ right) := by
          rw [hliteral]
          simp only [List.append_assoc]
        rw [hliteral, ← List.append_assoc] at hclosed
        rw [hliteral] at hgap
        have hnext := @fragmentEnd_gap _ _ right
          (by rw [Quote.after_append, hleft, Quote.after_literal hquote hcontent]) hclosed
          hgap.of_append.2
        rw [← htext', List.append_assoc, ← hliteral] at hnext
        rw [← hnext, htext]
        exact fragmentEnd_literal hquote hcontent
      · rw [Bool.not_eq_true] at hquote
        have hnone := hgap [] (c :: gap) rfl (List.cons_ne_nil c gap)
        rw [List.append_nil] at hnone
        have htext : left ++ (c :: gap ++ right) = left ++ [c] ++ (gap ++ right) := by
          rw [List.append_assoc, List.singleton_append, List.cons_append]
        have hgap' : Undelimited left ([c] ++ gap) right := hgap
        rw [← List.singleton_append, ← List.append_assoc] at hclosed
        have hnext := @fragmentEnd_gap _ _ right
          (by rw [Quote.after_append, hleft, Quote.after_cons, Quote.step_of_not_quote hquote,
            Quote.after_nil]) hclosed hgap'.of_append.2
        rw [← htext, List.append_assoc, List.singleton_append] at hnext
        rw [← hnext]
        exact fragmentEnd_char hquote (delimiterAt?_of_noneAt hleft hnone)
termination_by gap.length

/-- A keyword starts with one of the letters that a fragment stops at. -/
theorem startsKeyword_of_standsAlone {word : List Char} {d c : Char} {before : Option Char}
    {text : List Char} (hd : d = 'a' ∨ d = 'o')
    (h : standsAlone (d :: word) before (c :: text) = true) :
    isAscii c = true ∧ startsKeyword (UInt8.ofNat c.toNat) = true ∧ Quote.isQuote c = false := by
  obtain ⟨name, behind, htext, hname, _, _⟩ := standsAlone_iff.mp h
  obtain ⟨e, tail, rfl, he, _⟩ := exists_cons_of_sameLetters hname
  obtain rfl : c = e := (List.cons.inj htext).1
  have hletter : lowerAscii c = 'a' ∨ lowerAscii c = 'o' := by
    rcases hd with rfl | rfl
    · exact Or.inl he
    · exact Or.inr he
  have hascii : isAscii c = true := by
    rw [← isAscii_lowerAscii]
    rcases hletter with h | h <;> rw [h] <;> decide
  refine ⟨hascii, ?_⟩
  exact of_forall_ascii (p := fun c => lowerAscii c = 'a' ∨ lowerAscii c = 'o' →
    startsKeyword (UInt8.ofNat c.toNat) = true ∧ Quote.isQuote c = false) (by decide)
    (of_decide_eq_true hascii) hletter

theorem startsKeyword_of_keyword? {before : Option Char} {c : Char} {text : List Char}
    {found : TokenKind × Nat} (h : keyword? before (c :: text) = some found) :
    isAscii c = true ∧ startsKeyword (UInt8.ofNat c.toNat) = true ∧ Quote.isQuote c = false := by
  rw [keyword?] at h
  split at h
  · rename_i halone
    exact startsKeyword_of_standsAlone (Or.inl rfl) halone
  · split at h
    · rename_i halone
      exact startsKeyword_of_standsAlone (Or.inr rfl) halone
    · cases h

/-- A fragment ends where the gap does. -/
theorem fragmentEnd_stop {left right : List Char} (hends : EndsGap left right) :
    fragmentEnd (encode (left ++ right)) (byteLength left) = .ok (byteLength left) := by
  rcases hends with rfl | ⟨kind, word, behind, rfl, hdelimits⟩
  · rw [List.append_nil, ← length_encode]
    exact fragmentEnd_nil (encode left)
  · have hat := hdelimits.delimiter.delimiterAt?
    obtain ⟨c, tail, htext⟩ := List.exists_cons_of_ne_nil
      (List.append_ne_nil_of_left_ne_nil hdelimits.delimiter.ne_nil behind)
    rw [htext, delimiterAt?] at hat
    rw [htext]
    split at hat
    · rename_i kind' hparen
      have hascii : isAscii c = true :=
        onlyAscii_paren c (by show (paren? c).isSome = true; rw [hparen]; rfl)
      rw [encode_append, encode_cons_of_isAscii hascii, ← length_encode, fragmentEnd_cons,
        char_of_isAscii hascii, hparen]
      rfl
    · rename_i hparen
      obtain ⟨found, hkeyword, _⟩ := Option.map_eq_some_iff.mp hat
      obtain ⟨hascii, hstarts, hquote⟩ := startsKeyword_of_keyword? hkeyword
      have hsome := atSomeKeyword_encode left (c :: tail)
      rw [hkeyword] at hsome
      rw [encode_append, encode_cons_of_isAscii hascii, ← length_encode] at hsome ⊢
      rw [fragmentEnd_cons, char_of_isAscii hascii, hparen, hquote, hstarts, hsome]
      rfl

/-! ## Tokens -/

theorem isLayoutByte_of_mem {trail : List Char} (h : trail.all isLayout = true) :
    ∀ b ∈ encode trail, isLayoutByte b = true := by
  intro b hb
  obtain ⟨c, hc, hmem⟩ := List.mem_flatMap.mp hb
  have hlayout := List.all_eq_true.mp h c hc
  have hascii := onlyAscii_isLayout c hlayout
  rw [utf8EncodeChar_of_isAscii hascii, List.mem_singleton] at hmem
  rw [hmem, isLayoutByte, char_of_isAscii hascii, hlayout]

theorem trimmedEnd_cons {start : Nat} {front : List UInt8} (hstart : start ≤ front.length)
    (b : UInt8) (back : List UInt8) :
    trimmedEnd (front ++ b :: back) start (front.length + 1) =
      if isLayoutByte b then trimmedEnd (front ++ b :: back) start front.length
      else .ok (front.length + 1) := by
  rw [trimmedEnd, if_pos (Nat.lt_succ_of_le hstart), minus_add, ok_bind, itemAt_append]
  rfl

/-- Trimming takes the layout off the end. -/
theorem trimmedEnd_append {kept trail : List UInt8} (left right : List UInt8)
    (hkept : kept ≠ []) (hlast : ∀ b ∈ kept.getLast?, isLayoutByte b = false)
    (htrail : ∀ b ∈ trail, isLayoutByte b = true) :
    trimmedEnd (left ++ (kept ++ (trail ++ right))) left.length
        (left.length + kept.length + trail.length) = .ok (left.length + kept.length) := by
  induction trail using List.reverseRecOn generalizing right with
  | nil =>
      obtain ⟨init, b, rfl⟩ : ∃ init b, kept = init ++ [b] :=
        ⟨_, _, (List.dropLast_concat_getLast hkept).symm⟩
      have hb : isLayoutByte b = false := hlast b List.getLast?_concat
      have hstep := @trimmedEnd_cons left.length (left ++ init)
        (by rw [List.length_append]; omega) b right
      rw [hb, List.length_append] at hstep
      simp only [List.append_assoc, List.nil_append, List.singleton_append, List.length_append,
        List.length_singleton, List.length_nil, Nat.add_zero] at hstep ⊢
      rw [← Nat.add_assoc, hstep]
      rfl
  | append_singleton trail b ih =>
      have hb : isLayoutByte b = true := htrail b (List.mem_append_right _ List.mem_cons_self)
      have hrest := ih (b :: right) fun d hd => htrail d (List.mem_append_left _ hd)
      have hstep := @trimmedEnd_cons left.length (left ++ (kept ++ trail))
        (by rw [List.length_append]; omega) b right
      rw [hb, if_pos rfl] at hstep
      simp only [List.append_assoc, List.singleton_append, List.length_append,
        List.length_singleton] at hstep hrest ⊢
      rw [← hrest, ← Nat.add_assoc, Nat.add_assoc left.length kept.length]
      exact hstep

/-- The layout in front of a token is skipped. -/
theorem nextToken_layout {lead : List Char} (h : lead.all isLayout = true) (left right : List Char) :
    nextToken (encode (left ++ (lead ++ right))) (byteLength left) =
      nextToken (encode (left ++ (lead ++ right))) (byteLength (left ++ lead)) := by
  have hskip := skipWhile_layout left (lead ++ right)
  have hskip' := skipWhile_layout (left ++ lead) right
  rw [List.append_assoc] at hskip'
  rw [List.takeWhile_append_of_pos (List.all_eq_true.mp h), byteLength_append, ← Nat.add_assoc,
    ← byteLength_append, ← hskip'] at hskip
  simp only [nextToken, hskip]

theorem nextToken_nil (left : List Char) : nextToken (encode left) (byteLength left) = .ok none := by
  have hskip := skipWhile_layout left []
  rw [List.append_nil, List.takeWhile_nil, byteLength_nil, Nat.add_zero] at hskip
  have hnone : (encode left)[byteLength left]? = none := by
    rw [List.getElem?_eq_none_iff, length_encode]
  simp only [nextToken, hskip, hnone]

theorem paren?_char {c : Char} {b : UInt8} {tail : List UInt8} {right : List Char}
    (h : encode (c :: right) = b :: tail) : paren? (char b) = paren? c := by
  by_cases hc : isAscii c = true
  · rw [encode_cons_of_isAscii hc] at h
    rw [← (List.cons.inj h).1, char_of_isAscii hc]
  · rw [Bool.not_eq_true] at hc
    have hb : isAscii (char b) = false := by
      obtain ⟨d, more, hbytes⟩ := List.exists_cons_of_ne_nil (utf8EncodeChar_ne_nil c)
      rw [encode_cons, hbytes, List.cons_append] at h
      rw [← (List.cons.inj h).1]
      exact isAscii_char_of_mem hc (by rw [hbytes]; exact List.mem_cons_self)
    have hnone : ∀ {d : Char}, isAscii d = false → paren? d = none := fun hd =>
      Option.isSome_eq_false_iff.mp (onlyAscii_paren.eq_false hd) |> Option.isNone_iff_eq_none.mp
    rw [hnone hb, hnone hc]

/-- Where no layout stands, the token is the delimiter there, or else a fragment. -/
theorem nextToken_cons {c : Char} (hc : isLayout c = false) (left right : List Char) :
    nextToken (encode (left ++ c :: right)) (byteLength left) =
      match delimiterAt? left.getLast? (c :: right) with
      | some (kind, count) =>
          .ok (some ({ kind, start := byteLength left, stop := byteLength left + count },
            byteLength left + count))
      | none =>
          fragmentEnd (encode (left ++ c :: right)) (byteLength left) >>= fun next =>
            trimmedEnd (encode (left ++ c :: right)) (byteLength left) next >>= fun stop =>
              .ok (some ({ kind := .fragment, start := byteLength left, stop }, next)) := by
  have hskip := skipWhile_layout left (c :: right)
  rw [List.takeWhile_cons_of_neg (by rw [hc]; exact Bool.false_ne_true), byteLength_nil,
    Nat.add_zero] at hskip
  obtain ⟨b, tail, hbytes⟩ : ∃ b tail, encode (c :: right) = b :: tail := by
    obtain ⟨b, more, hchar⟩ := List.exists_cons_of_ne_nil (utf8EncodeChar_ne_nil c)
    exact ⟨b, more ++ encode right, by rw [encode_cons, hchar, List.cons_append]⟩
  have hget : (encode (left ++ c :: right))[byteLength left]? = some b := by
    rw [encode_append, ← length_encode, getElem?_append_length, hbytes, List.head?_cons]
  have hand := @atKeyword_encode ['a', 'n', 'd'] (by decide) left (c :: right)
  have hor := @atKeyword_encode ['o', 'r'] (by decide) left (c :: right)
  simp only [nextToken, hskip, hget, paren?_char hbytes, hand, hor, ok_bind, delimiterAt?, keyword?]
  cases paren? c with
  | some kind => rfl
  | none =>
      by_cases hand : standsAlone ['a', 'n', 'd'] left.getLast? (c :: right) = true
      · simp only [hand, if_true]
        rfl
      · by_cases hor : standsAlone ['o', 'r'] left.getLast? (c :: right) = true
        · simp only [hand, hor, if_true]
          rfl
        · simp only [hand, hor]
          rfl

theorem byteLength_of_isAscii {text : List Char} (h : text.all isAscii = true) :
    byteLength text = text.length := by
  rw [← length_encode, length_encode_of_ascii h]

theorem all_isAscii_of_delimiter {before behind : Option Char} {kind : TokenKind}
    {word : List Char} (h : Delimiter before kind word behind) : word.all isAscii = true := by
  cases h with
  | opening => decide
  | closing => decide
  | and hword _ _ => exact all_isAscii_of_sameLetters (by decide) hword
  | or hword _ _ => exact all_isAscii_of_sameLetters (by decide) hword

theorem exists_cons_of_delimiter {before behind : Option Char} {kind : TokenKind}
    {word : List Char} (h : Delimiter before kind word behind) :
    ∃ c rest, word = c :: rest ∧ isLayout c = false := by
  have hletter : ∀ {c : Char} {rest : List Char}, (c :: rest).all isAsciiWord = true →
      isLayout c = false := by
    intro c rest hall
    rw [List.all_cons, Bool.and_eq_true] at hall
    exact of_forall_ascii (p := fun c => isAsciiWord c = true → isLayout c = false) (by decide)
      (toNat_lt_of_isAsciiWord hall.1) hall.1
  cases h with
  | opening => exact ⟨'(', [], rfl, by decide⟩
  | closing => exact ⟨')', [], rfl, by decide⟩
  | and hword _ _ =>
      obtain ⟨c, rest, rfl, _, _⟩ := exists_cons_of_sameLetters hword
      exact ⟨c, rest, rfl, hletter (all_word_of_and hword)⟩
  | or hword _ _ =>
      obtain ⟨c, rest, rfl, _, _⟩ := exists_cons_of_sameLetters hword
      exact ⟨c, rest, rfl, hletter (all_word_of_or hword)⟩

/-- The token of a delimiter. -/
theorem nextToken_delimiter {kind : TokenKind} {left word right : List Char}
    (h : Delimits kind left word right) :
    nextToken (encode (left ++ (word ++ right))) (byteLength left) =
      .ok (some ({ kind, start := byteLength left, stop := byteLength left + byteLength word },
        byteLength (left ++ word))) := by
  have hat := h.delimiter.delimiterAt?
  have hlength := byteLength_of_isAscii (all_isAscii_of_delimiter h.delimiter)
  obtain ⟨c, rest, rfl, hc⟩ := exists_cons_of_delimiter h.delimiter
  rw [List.cons_append] at hat ⊢
  rw [nextToken_cons hc, hat, byteLength_append, hlength]

/-- Layout opens no literal. -/
theorem after_of_layout {left lead : List Char} (hleft : Quote.after none left = none)
    (h : lead.all isLayout = true) : Quote.after none (left ++ lead) = none := by
  have hplain := Quote.all_plain_of_class (p := isLayout) (by decide) (by decide) (by decide) h
  rw [Quote.after_append, hleft, Quote.after_of_plain hplain]

/-- In a gap that is not all layout a fragment is looked for, which goes on to the end of the
gap. -/
theorem nextToken_gap {left gap right lead kept : List Char} (hleft : Quote.after none left = none)
    (hclosed : Quote.after none (left ++ gap) = none) (hgap : Undelimited left gap right)
    (htrims : Trims gap lead kept) :
    nextToken (encode (left ++ (gap ++ right))) (byteLength left) =
      fragmentEnd (encode (left ++ (gap ++ right))) (byteLength (left ++ gap)) >>= fun next =>
        trimmedEnd (encode (left ++ (gap ++ right))) (byteLength (left ++ lead)) next >>= fun stop =>
          .ok (some ({ kind := .fragment, start := byteLength (left ++ lead), stop }, next)) := by
  obtain ⟨trail, rfl, htrail⟩ := htrims.text_eq
  obtain ⟨c, rest, rfl⟩ := List.exists_cons_of_ne_nil htrims.kept_ne_nil
  have hc : isLayout c = false := htrims.head_kept c rfl
  have hlead := after_of_layout hleft htrims.lead_layout
  obtain ⟨_, hinside⟩ := hgap.of_append
  have hnone := hinside [] (c :: rest ++ trail) rfl (List.cons_ne_nil c _)
  rw [List.append_nil] at hnone
  rw [← List.append_assoc left] at hclosed
  have hend := fragmentEnd_gap hlead hclosed hinside
  rw [List.append_assoc lead, nextToken_layout htrims.lead_layout, ← List.append_assoc left lead]
  rw [List.append_assoc left lead (c :: rest ++ trail)] at hend
  rw [← hend]
  simp only [List.cons_append] at hnone ⊢
  rw [nextToken_cons hc, delimiterAt?_of_noneAt hlead hnone]

/-- The token of a gap is its fragment. -/
theorem nextToken_fragment {left gap right lead kept : List Char}
    (hleft : Quote.after none left = none) (hclosed : Quote.after none (left ++ gap) = none)
    (hgap : Undelimited left gap right) (hends : EndsGap (left ++ gap) right)
    (htrims : Trims gap lead kept) :
    nextToken (encode (left ++ (gap ++ right))) (byteLength left) =
      .ok (some ({ kind := .fragment, start := byteLength left + byteLength lead
                   stop := byteLength left + byteLength lead + byteLength kept },
        byteLength (left ++ gap))) := by
  have hstop := fragmentEnd_stop hends
  rw [List.append_assoc] at hstop
  rw [nextToken_gap hleft hclosed hgap htrims, hstop, ok_bind]
  obtain ⟨trail, rfl, htrail⟩ := htrims.text_eq
  have hlast : ∀ b ∈ (encode kept).getLast?, isLayoutByte b = false := by
    intro b hb
    have hany := any_getLast?_encode onlyAscii_isLayout kept
    rw [hb, Option.any_some] at hany
    rw [isLayoutByte, hany, Option.any_eq_false]
    intro c hc
    rw [htrims.last_kept c hc]
  have hne : encode kept ≠ [] := by
    obtain ⟨c, rest, hkept⟩ := List.exists_cons_of_ne_nil htrims.kept_ne_nil
    rw [hkept, encode_cons]
    exact List.append_ne_nil_of_left_ne_nil (utf8EncodeChar_ne_nil c) _
  have htrim := trimmedEnd_append (encode (left ++ lead)) (encode right) hne hlast
    (isLayoutByte_of_mem htrail)
  simp only [encode_append, List.append_assoc, List.length_append, length_encode] at htrim
  simp only [encode_append, List.append_assoc, byteLength_append, ← Nat.add_assoc]
  rw [htrim]
  rfl

/-! ## All tokens -/

theorem tokensFrom_eq (bytes : List UInt8) (current : Nat) :
    tokensFrom bytes current =
      nextToken bytes current >>= fun found =>
        match found with
        | none => .ok []
        | some (token, next) => (tokensFrom bytes next).map (token :: ·) := by
  rw [tokensFrom]
  split <;> rename_i hnext <;> rw [hnext] <;> rfl

theorem map_nil_append {ε α : Type} (x : Except ε (List α)) : x.map ([] ++ ·) = x := by
  cases x <;> rfl

/-- The tokens from a gap on are its fragment and the tokens behind it. -/
theorem tokensFrom_gap {left gap right : List Char} (hleft : Quote.after none left = none)
    (hclosed : Quote.after none (left ++ gap) = none) (hgap : Undelimited left gap right)
    (hends : EndsGap (left ++ gap) right) :
    tokensFrom (encode (left ++ (gap ++ right))) (byteLength left) =
      (tokensFrom (encode (left ++ (gap ++ right))) (byteLength (left ++ gap))).map
        ((fragment? (byteLength left) gap).toList ++ ·) := by
  by_cases hnil : trim isLayout gap = []
  · have hfragment : fragment? (byteLength left) gap = none := by
      rw [fragment?, hnil]
      rfl
    rw [hfragment, tokensFrom_eq, nextToken_layout (trim_eq_nil_iff.mp hnil), ← tokensFrom_eq]
    exact (map_nil_append _).symm
  · have htrims := trims_trim hnil
    have hfragment := (@mem_fragment? (byteLength left) _ _).mpr ⟨_, _, htrims, rfl⟩
    rw [Option.mem_def] at hfragment
    rw [tokensFrom_eq, nextToken_fragment hleft hclosed hgap hends htrims, ok_bind, hfragment]
    rfl

theorem tokensFrom_delimiter {kind : TokenKind} {left word right : List Char}
    (h : Delimits kind left word right) :
    tokensFrom (encode (left ++ (word ++ right))) (byteLength left) =
      (tokensFrom (encode (left ++ (word ++ right))) (byteLength (left ++ word))).map
        ({ kind, start := byteLength left, stop := byteLength left + byteLength word } :: ·) := by
  rw [tokensFrom_eq, nextToken_delimiter h]
  rfl

/-- In front of a literal that has no end there is no token left. -/
theorem tokensFrom_open {left gap tail : List Char} {q : Char} (hleft : Quote.after none left = none)
    (hclosed : Quote.after none (left ++ gap) = none) (hquote : Quote.isQuote q = true)
    (htail : q ∉ tail) (hgap : Undelimited left gap (q :: tail)) :
    tokensFrom (encode (left ++ (gap ++ q :: tail))) (byteLength left) =
      .error (.fault (.unterminatedString (byteLength (left ++ gap)))) := by
  have hopen := @fragmentEnd_open q (left ++ gap) tail hquote htail
  rw [List.append_assoc] at hopen
  rw [tokensFrom_eq]
  by_cases hnil : trim isLayout gap = []
  · have hlayout : isLayout q = false := by
      simp only [Quote.isQuote, Bool.or_eq_true, beq_iff_eq] at hquote
      rcases hquote with rfl | rfl <;> decide
    have hcons := nextToken_cons hlayout (left ++ gap) tail
    rw [delimiterAt?_of_quote hquote, List.append_assoc, hopen] at hcons
    rw [nextToken_layout (trim_eq_nil_iff.mp hnil), hcons]
    rfl
  · rw [nextToken_gap hleft hclosed hgap (trims_trim hnil), hopen]
    rfl

/-- What a cut gives, by position. -/
def outcome (left right : List Char) (cut : Cut) : Except (Stop Error) (List Token) :=
  match cut.unclosed with
  | none => .ok ((place (byteLength left) cut.pieces).map Placed.token)
  | some tail =>
      .error (.fault (.unterminatedString (byteLength (left ++ right) - byteLength tail)))

/-- The tokens by position are those of the cut. -/
theorem tokensFrom_encode {left right : List Char} {cut : Cut} (h : CutsTo left right cut)
    (hleft : Quote.after none left = none) :
    tokensFrom (encode (left ++ right)) (byteLength left) = outcome left right cut := by
  induction h with
  | @last left gap hclosed hgap =>
      have hfirst := tokensFrom_gap hleft hclosed hgap (Or.inl rfl)
      rw [List.append_nil, tokensFrom_eq _ (byteLength (left ++ gap)), nextToken_nil] at hfirst
      rw [hfirst, outcome, Cut.unclosed_push, map_token_place, Cut.front_push, Cut.behind_push]
      show _ = Except.ok ((fragment? (byteLength left) (gap ++ [])).toList ++ [])
      rw [List.append_nil gap]
      rfl
  | @opened left gap tail q hclosed hquote htail hgap =>
      have hlength : byteLength (left ++ (gap ++ q :: tail)) - byteLength (q :: tail) =
          byteLength (left ++ gap) := by
        rw [← List.append_assoc, byteLength_append, Nat.add_sub_cancel]
      rw [tokensFrom_open hleft hclosed hquote htail hgap, outcome, Cut.unclosed_push]
      exact (congrArg (fun n => Except.error (Stop.fault (Error.unterminatedString n)))
        hlength).symm
  | @delimiter left gap word rest kind cut hgap hdelimits _ ih =>
      have hends : EndsGap (left ++ gap) (word ++ rest) := Or.inr ⟨kind, word, rest, rfl, hdelimits⟩
      have hfirst := tokensFrom_gap hleft hdelimits.unquoted hgap hends
      have hsecond := tokensFrom_delimiter hdelimits
      have hrest := ih hdelimits.after_eq_none
      rw [List.append_assoc (left ++ gap)] at hrest
      rw [hrest, List.append_assoc left gap] at hsecond
      rw [hfirst, hsecond, outcome, outcome, Cut.unclosed_push, Cut.unclosed_pushDelimiter,
        map_token_place _ (Cut.push _ _), Cut.front_push, Cut.behind_push, Cut.front_pushDelimiter,
        Cut.behind_pushDelimiter]
      cases cut.unclosed with
      | none =>
          simp only [List.append_nil, place, List.map_cons, byteLength_append]
          rfl
      | some tail =>
          simp only [List.append_assoc]
          rfl

/-- The tokens of a template by position are its tokens. -/
theorem tokens_eq (template : List Char) : tokens template = lift (Template.tokens template) := by
  have htokens : tokens template = outcome [] template (cut template) :=
    tokensFrom_encode (cutsTo_cutFrom [] template rfl) rfl
  rw [htokens, outcome, Template.tokens, unclosedAt?, readable]
  cases (cut template).unclosed <;> rfl

/-- The text of a token is where the token says. -/
theorem exists_text_of_spans {left middle right : List Char} {token : Token}
    (h : Spans left middle right token) :
    ∃ front text back, left ++ (middle ++ right) = front ++ (text ++ back) ∧
      token.start = byteLength front ∧ token.stop = byteLength front + byteLength text := by
  cases h with
  | delimiter _ => exact ⟨left, middle, right, rfl, rfl, rfl⟩
  | @fragment lead kept _ htrims =>
      obtain ⟨trail, rfl, _⟩ := htrims.text_eq
      refine ⟨left ++ lead, kept, trail ++ right, ?_, ?_, ?_⟩
      · simp only [List.append_assoc]
      · rw [byteLength_append]
      · rw [byteLength_append]

theorem tokenText_eq {template : List Char} {toks : List Token}
    (h : Template.tokens template = .ok toks) {token : Token} (hmem : token ∈ toks) :
    tokenText template token = lift (Template.tokenText template token) := by
  obtain ⟨hclosed, rfl⟩ := closed_of_tokens h
  obtain ⟨left, middle, right, htemplate, hspans⟩ := (mem_placed hclosed token).mp hmem
  obtain ⟨front, text, back, htext, hstart, hstop⟩ := exists_text_of_spans hspans
  rw [tokenText, Template.tokenText, textBetween, htemplate, htext, hstart, hstop, slice?_append]
  rfl

end Bytewise
end RecordFilter
