/-
Which fragments are clauses.  A comparison has an identifier on the left, and on the right what
`Admits` lists: a placeholder, a literal or a field.  A fragment without an operator is kept as it
is if it has no placeholder.

Reading takes a little more than that.  A right side counts as one literal if it starts and ends
with the same quote, also if that quote stands inside as well and ends the literal early, as in
`'a' 'b'`.  These right sides are `Overquotes`, and `read_grammar` says that they are the only ones
that the grammar does not have.
-/
import RecordFilter.Proofs.Clause.Binding

namespace RecordFilter

/-! ## Places outside literals -/

namespace Quote

/-- What stands somewhere outside the literals of a text, behind the character in front of it,
passes a test. -/
def StandsFrom (test : Option Char → List Char → Bool) (before opened : Option Char)
    (text : List Char) : Prop :=
  ∃ front back, text = front ++ back ∧ after opened front = none ∧
    test (front.getLast?.or before) back = true

variable {test : Option Char → List Char → Bool} {before opened : Option Char}

theorem standsFrom_nil :
    StandsFrom test before opened [] ↔ opened = none ∧ test before [] = true := by
  constructor
  · rintro ⟨front, back, htext, hafter, htest⟩
    obtain ⟨rfl, rfl⟩ := List.nil_eq_append_iff.mp htext
    exact ⟨hafter, htest⟩
  · rintro ⟨hopened, htest⟩
    exact ⟨[], [], rfl, hopened, htest⟩

theorem standsFrom_cons {c : Char} {rest : List Char} :
    StandsFrom test before opened (c :: rest) ↔
      (opened = none ∧ test before (c :: rest) = true) ∨
        StandsFrom test (some c) (step opened c) rest := by
  constructor
  · rintro ⟨front, back, htext, hafter, htest⟩
    cases front with
    | nil =>
        cases htext
        exact Or.inl ⟨hafter, htest⟩
    | cons d front =>
        cases htext
        rw [getLast?_cons_or] at htest
        exact Or.inr ⟨front, back, rfl, hafter, htest⟩
  · rintro (⟨hopened, htest⟩ | ⟨front, back, rfl, hafter, htest⟩)
    · exact ⟨[], c :: rest, rfl, hopened, htest⟩
    · exact ⟨c :: front, back, rfl, hafter, (getLast?_cons_or c front before).symm ▸ htest⟩

/-- There is a placeholder outside the literals of a text. -/
def Asks (text : List Char) : Prop :=
  StandsFrom (fun _ back => back.head? == some '?') none none text

theorem placeholdersFrom_eq_zero_iff {text : List Char} :
    placeholdersFrom opened text = 0 ↔
      ¬ StandsFrom (fun _ back => back.head? == some '?') before opened text := by
  induction text generalizing before opened with
  | nil => simp [placeholdersFrom, standsFrom_nil]
  | cons c rest ih =>
      rw [placeholdersFrom, standsFrom_cons, Nat.add_eq_zero_iff, ih, not_or]
      refine and_congr_left' ?_
      cases opened <;> simp

theorem placeholders_eq_zero_iff {text : List Char} : placeholders text = 0 ↔ ¬ Asks text :=
  placeholdersFrom_eq_zero_iff

end Quote

namespace Operator

/-- There is an operator outside the literals of a text. -/
def Stands (text : List Char) : Prop :=
  Quote.StandsFrom (fun before back => (spellingAt? before back).isSome) none none text

theorem spellingAt?_nil (before : Option Char) : spellingAt? before [] = none := rfl

theorem findFrom_eq_none_iff {offset : Nat} {before opened : Option Char} {text : List Char} :
    findFrom offset before opened text = none ↔
      ¬ Quote.StandsFrom (fun before back => (spellingAt? before back).isSome) before opened
        text := by
  induction text generalizing offset before opened with
  | nil => simp [findFrom, Quote.standsFrom_nil, spellingAt?_nil]
  | cons c rest ih =>
      rw [findFrom, Quote.standsFrom_cons, not_or]
      cases opened with
      | none =>
          cases hspelling : spellingAt? before (c :: rest) <;> simp [ih]
      | some q => simp [ih]

theorem find?_eq_none_iff {text : List Char} : find? text = none ↔ ¬ Stands text :=
  findFrom_eq_none_iff

end Operator
/-- LIKE can make a pattern of the value. -/
def Value.makesPattern : Value → Bool
  | .str _ | .int _ | .float _ => true
  | .null | .bool _ | .list _ | .map _ => false

/-- The value can be an operand.  Only LIKE is particular about that. -/
def Operator.Takes (operator : Operator) (v : Value) : Prop :=
  operator = .like → v.makesPattern = true

namespace Clause

open Text

/-! ## Literals -/

def literalWords : List (List Char × Value) :=
  [(['n', 'u', 'l', 'l'], .null), (['t', 'r', 'u', 'e'], .bool true),
    (['f', 'a', 'l', 's', 'e'], .bool false)]

/-- A text is a literal with a value. -/
inductive Denotes : List Char → Value → Prop
  | quoted {q : Char} {content : List Char} (hquote : Quote.isQuote q = true)
      (hcontent : q ∉ content) : Denotes (q :: (content ++ [q])) (.str (String.ofList content))
  | word {text word : List Char} {v : Value} (hword : (word, v) ∈ literalWords)
      (hsame : sameLetters text word = true) : Denotes text v
  | number {text : List Char} {v : Value} (hnumber : Value.readNumber? text = some v) :
      Denotes text v

/-- A text between two quotes has the same quote inside, so that the first literal in it is not all
of it. -/
def Overquotes (text : List Char) : Prop :=
  ∃ q content, Quote.isQuote q = true ∧ text = q :: (content ++ [q]) ∧ q ∈ content

theorem quoted?_eq_some_iff {text content : List Char} :
    quoted? text = some content ↔
      ∃ q, Quote.isQuote q = true ∧ text = q :: (content ++ [q]) := by
  cases text with
  | nil => simp [quoted?]
  | cons q rest =>
      rw [quoted?, Option.ite_none_right_eq_some, Bool.and_eq_true, beq_iff_eq]
      constructor
      · rintro ⟨⟨hquote, hlast⟩, hcontent⟩
        cases hcontent
        exact ⟨q, hquote, by rw [List.dropLast_append_getLast? q hlast]⟩
      · rintro ⟨q, hquote, htext⟩
        cases htext
        exact ⟨⟨hquote, by simp⟩, by simp⟩

theorem not_plain_of_isQuote {q : Char} (h : Quote.isQuote q = true) (rest : List Char) :
    (q :: rest).all Quote.plain = false := by
  rw [List.all_cons, Quote.plain, h]
  rfl

/-- A plain text is no quoted one. -/
theorem quoted?_of_plain {text : List Char} (h : text.all Quote.plain = true) :
    quoted? text = none := by
  rw [Option.eq_none_iff_forall_ne_some]
  intro content hcontent
  obtain ⟨q, hquote, rfl⟩ := quoted?_eq_some_iff.mp hcontent
  rw [not_plain_of_isQuote hquote] at h
  cases h

theorem wordValue?_eq_some_iff {text : List Char} {v : Value} :
    wordValue? text = some v ↔
      ∃ word, (word, v) ∈ literalWords ∧ sameLetters text word = true := by
  rw [wordValue?]
  constructor
  · intro h
    split at h
    · rename_i hsame
      cases h
      exact ⟨_, List.mem_cons_self, hsame⟩
    · split at h
      · rename_i hsame
        cases h
        exact ⟨_, by simp [literalWords], hsame⟩
      · split at h
        · rename_i hsame
          cases h
          exact ⟨_, by simp [literalWords], hsame⟩
        · cases h
  · rintro ⟨word, hword, hsame⟩
    -- The text is one of the words in lower case, and the three of them differ.
    simp only [sameLetters, beq_iff_eq] at hsame ⊢
    rw [hsame]
    simp only [literalWords, List.mem_cons, List.not_mem_nil, or_false, Prod.mk.injEq] at hword
    rcases hword with ⟨rfl, rfl⟩ | ⟨rfl, rfl⟩ | ⟨rfl, rfl⟩ <;> rfl

theorem startsNumber_of_letter {c : Char} (h : isAsciiLetter (lowerAscii c) = true) :
    Value.startsNumber c = false := by
  have hword : isAsciiWord (lowerAscii c) = true := by
    rw [isAsciiWord, h]
    rfl
  exact of_forall_ascii
    (p := fun c => isAsciiLetter (lowerAscii c) = true → Value.startsNumber c = false)
    (by decide +kernel) (toNat_lt_of_isAsciiWord (isAsciiWord_of_lowerAscii hword)) h

/-- A word is no number, since it has letters only. -/
theorem readNumber?_of_word {text word : List Char} {v : Value} (hword : (word, v) ∈ literalWords)
    (hsame : sameLetters text word = true) : Value.readNumber? text = none := by
  have hall : (literalWords.all fun entry => (lower entry.1).all isAsciiLetter) = true := rfl
  have hletters := List.all_eq_true.mp hall _ hword
  have hstart : ∀ c ∈ text, Value.startsNumber c = false := by
    intro c hc
    rw [sameLetters, beq_iff_eq] at hsame
    rw [← hsame] at hletters
    exact startsNumber_of_letter (List.all_eq_true.mp hletters _ (List.mem_map_of_mem hc))
  rw [Value.readNumber?]
  cases htrim : trim isBlank text with
  | nil => rfl
  | cons c rest =>
      have hc : c ∈ text := mem_of_mem_trim (htrim ▸ List.mem_cons_self)
      simp [hstart c hc]

theorem literal?_of_denotes {text : List Char} {v : Value} (h : Denotes text v) :
    literal? text = some v := by
  cases h with
  | @quoted q content hquote hcontent =>
      rw [literal?, quoted?_eq_some_iff.mpr ⟨q, hquote, rfl⟩]
  | word hword hsame =>
      have hvalue := wordValue?_eq_some_iff.mpr ⟨_, hword, hsame⟩
      rw [literal?, quoted?_of_plain (wordValue?_plain hvalue), hvalue]
  | number hnumber =>
      have hvalue : wordValue? text = none := by
        rw [Option.eq_none_iff_forall_ne_some]
        intro w hw
        obtain ⟨word, hword, hsame⟩ := wordValue?_eq_some_iff.mp hw
        rw [readNumber?_of_word hword hsame] at hnumber
        cases hnumber
      rw [literal?, quoted?_of_plain (readNumber?_plain hnumber), hvalue, hnumber]

theorem literal?_of_quotes {q : Char} {content : List Char} (h : Quote.isQuote q = true) :
    literal? (q :: (content ++ [q])) = some (.str (String.ofList content)) := by
  rw [literal?, quoted?_eq_some_iff.mpr ⟨q, h, rfl⟩]

/-- What is taken as a literal is one, or else there is a quote too many in it. -/
theorem denotes_or_overquotes {text : List Char} {v : Value} (h : literal? text = some v) :
    Denotes text v ∨ Overquotes text := by
  rw [literal?] at h
  split at h
  · rename_i content hquoted
    cases h
    obtain ⟨q, hquote, rfl⟩ := quoted?_eq_some_iff.mp hquoted
    by_cases hcontent : q ∈ content
    · exact Or.inr ⟨q, content, hquote, rfl, hcontent⟩
    · exact Or.inl (.quoted hquote hcontent)
  · split at h
    · rename_i w hw
      cases h
      obtain ⟨word, hword, hsame⟩ := wordValue?_eq_some_iff.mp hw
      exact Or.inl (.word hword hsame)
    · exact Or.inl (.number h)

theorem not_plain_of_overquotes {text : List Char} (h : Overquotes text) :
    text.all Quote.plain = false := by
  obtain ⟨q, content, hquote, rfl, _⟩ := h
  exact not_plain_of_isQuote hquote _

theorem overquotes_iff {q : Char} {content : List Char} (h : Quote.isQuote q = true) :
    Overquotes (q :: (content ++ [q])) ↔ q ∈ content := by
  constructor
  · rintro ⟨r, other, _, htext, hmem⟩
    obtain ⟨rfl, hrest⟩ := List.cons.inj htext
    obtain ⟨rfl, _⟩ := List.append_inj' hrest rfl
    exact hmem
  · intro hmem
    exact ⟨q, content, h, rfl, hmem⟩

theorem Denotes.not_overquotes {text : List Char} {v : Value} (h : Denotes text v) :
    ¬ Overquotes text := by
  intro hover
  have hplain := not_plain_of_overquotes hover
  cases h with
  | quoted hquote hcontent => exact hcontent ((overquotes_iff hquote).mp hover)
  | word hword hsame =>
      rw [wordValue?_plain (wordValue?_eq_some_iff.mpr ⟨_, hword, hsame⟩)] at hplain
      cases hplain
  | number hnumber =>
      rw [readNumber?_plain hnumber] at hplain
      cases hplain

/-! ## Right sides -/

/-- What may stand to the right of an operator. -/
inductive Admits (operator : Operator) (values : List Value) : List Char → Prop
  | placeholder {v : Value} {rest : List Value} (hvalues : values = v :: rest)
      (htakes : operator.Takes v) : Admits operator values ['?']
  | literal {text : List Char} {v : Value} (hliteral : Denotes text v)
      (htakes : operator.Takes v) : Admits operator values text
  | field {text : List Char} (hname : isIdentifier text = true) (hlike : operator ≠ .like) :
      Admits operator values text

/-- A right side that has been read makes a clause. -/
def Accepts (operator : Operator) (values : List Value) : RightSide → Prop
  | .placeholder => ∃ v rest, values = v :: rest ∧ operator.Takes v
  | .literal v => operator.Takes v
  | .field _ => operator ≠ .like

variable {operator : Operator} {values : List Value} {text : List Char}

theorem Admits.not_overquotes (h : Admits operator values text) : ¬ Overquotes text := by
  intro hover
  cases h with
  | placeholder hvalues htakes =>
      obtain ⟨q, content, _, htext, _⟩ := hover
      have hnil := (List.cons.inj htext).2
      simp at hnil
  | literal hliteral htakes => exact hliteral.not_overquotes hover
  | field hname hlike =>
      have hplain := not_plain_of_overquotes hover
      rw [isIdentifier_plain hname] at hplain
      cases hplain

theorem rightSide?_of_literal {v : Value} (h : literal? text = some v) :
    rightSide? text = some (.literal v) := by
  have hmark : text ≠ ['?'] := by
    rintro rfl
    cases h
  rw [rightSide?, if_neg hmark, h]

theorem rightSide?_eq_placeholder_iff :
    rightSide? text = some .placeholder ↔ text = ['?'] := by
  rw [rightSide?]
  split
  · rename_i hmark
    exact iff_of_true rfl hmark
  · rename_i hmark
    refine iff_of_false ?_ hmark
    split
    · simp
    · split <;> simp

theorem exists_side_of_overquotes (h : Overquotes text) :
    ∃ side, rightSide? text = some side ∧ Accepts operator values side := by
  obtain ⟨q, content, hquote, rfl, _⟩ := h
  exact ⟨_, rightSide?_of_literal (literal?_of_quotes hquote), fun _ => rfl⟩

theorem exists_side_of_admits (h : Admits operator values text) :
    ∃ side, rightSide? text = some side ∧ Accepts operator values side := by
  cases h with
  | placeholder hvalues htakes => exact ⟨.placeholder, rfl, _, _, hvalues, htakes⟩
  | literal hliteral htakes =>
      exact ⟨_, rightSide?_of_literal (literal?_of_denotes hliteral), htakes⟩
  | field hname hlike =>
      -- A name can also be a word, which LIKE would not take.
      cases hvalue : literal? text with
      | some v => exact ⟨_, rightSide?_of_literal hvalue, fun h => absurd h hlike⟩
      | none =>
          have hmark : text ≠ ['?'] := by
            rintro rfl
            cases hname
          refine ⟨.field (String.ofList text), ?_, hlike⟩
          rw [rightSide?, if_neg hmark, hvalue]
          exact if_pos hname

/-- The right sides that are read are those of the grammar and the overquoted ones. -/
theorem exists_side_iff :
    (∃ side, rightSide? text = some side ∧ Accepts operator values side) ↔
      Admits operator values text ∨ Overquotes text := by
  constructor
  · rintro ⟨side, hside, haccepts⟩
    rw [rightSide?] at hside
    split at hside
    · rename_i hmark
      cases hside
      obtain ⟨v, rest, hvalues, htakes⟩ := haccepts
      rw [hmark]
      exact Or.inl (.placeholder hvalues htakes)
    · split at hside
      · rename_i v hliteral
        cases hside
        exact (denotes_or_overquotes hliteral).imp (fun hdenotes => .literal hdenotes haccepts) id
      · split at hside
        · rename_i hname
          cases hside
          exact Or.inl (.field hname haccepts)
        · cases hside
  · rintro (hadmits | hover)
    · exact exists_side_of_admits hadmits
    · exact exists_side_of_overquotes hover

/-! ## Two sides -/

theorem exists_comparison_iff {field : String} {v : Value} {source : Source} :
    (∃ clause, comparison field operator v source = .ok clause) ↔ operator.Takes v := by
  cases operator with
  | like => cases v <;> simp [comparison, likePattern, Operator.Takes, Value.makesPattern]
  | eq | ne | lt | le | gt | ge => simp [comparison, Operator.Takes]

theorem exists_makes_iff {field : String} {side : RightSide} :
    (∃ clause left, Makes field operator side values clause left) ↔
      Accepts operator values side := by
  constructor
  · rintro ⟨clause, left, hmakes⟩
    cases hmakes with
    | placeholder hmade => exact ⟨_, _, rfl, exists_comparison_iff.mp ⟨clause, hmade⟩⟩
    | literal hmade => exact exists_comparison_iff.mp ⟨clause, hmade⟩
    | field hlike => exact hlike
  · intro haccepts
    cases side with
    | placeholder =>
        obtain ⟨v, rest, rfl, htakes⟩ := haccepts
        obtain ⟨clause, hclause⟩ := exists_comparison_iff.mpr htakes
        exact ⟨clause, rest, .placeholder hclause⟩
    | literal v =>
        obtain ⟨clause, hclause⟩ := exists_comparison_iff.mpr haccepts
        exact ⟨clause, values, .literal hclause⟩
    | field name => exact ⟨_, values, .field haccepts⟩

theorem exists_ofSides_iff {fragment front back : List Char} :
    (∃ clause left, ofSides fragment front operator back values = .ok (clause, left)) ↔
      isIdentifier (trim isBlank front) = true ∧
        (Admits operator values (trim isBlank back) ∨ Overquotes (trim isBlank back)) := by
  rw [← exists_side_iff]
  constructor
  · rintro ⟨clause, left, h⟩
    obtain ⟨hname, side, hside, hmakes⟩ := ofSides_eq_ok_iff.mp h
    exact ⟨hname, side, hside, exists_makes_iff.mp ⟨clause, left, hmakes⟩⟩
  · rintro ⟨hname, side, hside, haccepts⟩
    obtain ⟨clause, left, hmakes⟩ := exists_makes_iff.mpr haccepts
    exact ⟨clause, left, ofSides_eq_ok_iff.mpr ⟨hname, side, hside, hmakes⟩⟩

/-- The clause is not a fragment that was kept as it is. -/
def compares : Clause → Bool
  | .compare _ _ _ _ | .fields _ _ _ => true
  | .bare _ => false

theorem Carries.compares {clause : Clause} {v : Value} (h : Carries clause v) :
    clause.compares = true := by
  cases clause with
  | compare | fields => rfl
  | bare => cases h

theorem compares_of_ofSides {fragment front back : List Char} {clause : Clause}
    {left : List Value} (h : ofSides fragment front operator back values = .ok (clause, left)) :
    clause.compares = true := by
  obtain ⟨_, side, _, hmakes⟩ := ofSides_eq_ok_iff.mp h
  cases hmakes with
  | placeholder hmade | literal hmade => exact (comparison_eq_ok hmade).1.compares
  | field hlike => rfl

/-! ## Fragments -/

/-- The sides of a fragment, and the operator between them. -/
def sides? (fragment : List Char) : Option (List Char × Operator × List Char) :=
  let fragment := trim isBlank fragment
  (Operator.find? fragment).bind fun found =>
    match slice? fragment 0 found.start, sliceFrom? fragment found.stop with
    | some front, some back => some (front, found.operator, back)
    | _, _ => none

/-- The fragment is a comparison by the grammar. -/
def Conforms (fragment : List Char) (values : List Value) : Prop :=
  ∃ front operator back, sides? fragment = some (front, operator, back) ∧
    isIdentifier (trim isBlank front) = true ∧ Admits operator values (trim isBlank back)

/-- The fragment compares a field with what is not one literal and is still taken as one. -/
def Overquoted (fragment : List Char) : Prop :=
  ∃ front operator back, sides? fragment = some (front, operator, back) ∧
    isIdentifier (trim isBlank front) = true ∧ Overquotes (trim isBlank back)

variable {fragment : List Char}

/-- The sides of a fragment are what stands in front of its first operator and behind it. -/
theorem exists_found_of_sides? {front back : List Char} {operator : Operator}
    (h : sides? fragment = some (front, operator, back)) :
    ∃ found, Operator.find? (trim isBlank fragment) = some found ∧ found.operator = operator ∧
      slice? (trim isBlank fragment) 0 found.start = some front ∧
      sliceFrom? (trim isBlank fragment) found.stop = some back := by
  obtain ⟨found, hfind, hsome⟩ := Option.bind_eq_some_iff.mp h
  split at hsome
  · rename_i hfront hback
    cases hsome
    exact ⟨found, hfind, rfl, hfront, hback⟩
  · cases hsome

/-- A fragment without an operator has no sides, and one with an operator is read by them. -/
theorem read_by_sides (fragment : List Char) (values : List Value) :
    (Operator.find? (trim isBlank fragment) = none ∧ sides? fragment = none) ∨
      ∃ front operator back, Operator.find? (trim isBlank fragment) ≠ none ∧
        sides? fragment = some (front, operator, back) ∧
        read fragment values = ofSides (trim isBlank fragment) front operator back values := by
  cases hfind : Operator.find? (trim isBlank fragment) with
  | none => exact Or.inl ⟨rfl, by simp [sides?, hfind]⟩
  | some found =>
      obtain ⟨front, word, back, s, _, _, _, _, _, hfront, hback⟩ := Operator.exists_split hfind
      refine Or.inr ⟨front, found.operator, back, Option.some_ne_none found, ?_, ?_⟩
      · simp [sides?, hfind, hfront, hback]
      · simp only [read, hfind, hfront, hback]

theorem read_without_operator (h : Operator.find? (trim isBlank fragment) = none) :
    read fragment values =
      if 0 < Quote.placeholders (trim isBlank fragment) then
        .error (.malformedClause (String.ofList (trim isBlank fragment)))
      else .ok (.bare (String.ofList (trim isBlank fragment)), values) := by
  simp only [read, h]

section Sides

variable {front back : List Char} (hsides : sides? fragment = some (front, operator, back))

include hsides

theorem read_of_sides (values : List Value) :
    read fragment values = ofSides (trim isBlank fragment) front operator back values := by
  rcases read_by_sides fragment values with ⟨_, hnone⟩ | ⟨_, _, _, _, hsome, hread⟩
  · cases hsides.symm.trans hnone
  · cases hsides.symm.trans hsome
    exact hread

theorem conforms_iff :
    Conforms fragment values ↔
      isIdentifier (trim isBlank front) = true ∧ Admits operator values (trim isBlank back) := by
  constructor
  · rintro ⟨front, operator, back, h, hname, hadmits⟩
    cases hsides.symm.trans h
    exact ⟨hname, hadmits⟩
  · rintro ⟨hname, hadmits⟩
    exact ⟨front, operator, back, hsides, hname, hadmits⟩

theorem overquoted_iff :
    Overquoted fragment ↔
      isIdentifier (trim isBlank front) = true ∧ Overquotes (trim isBlank back) := by
  constructor
  · rintro ⟨front, operator, back, h, hname, hover⟩
    cases hsides.symm.trans h
    exact ⟨hname, hover⟩
  · rintro ⟨hname, hover⟩
    exact ⟨front, operator, back, hsides, hname, hover⟩

end Sides

theorem not_conforms_of_overquoted (h : Overquoted fragment) : ¬ Conforms fragment values := by
  obtain ⟨front, operator, back, hsides, _, hover⟩ := h
  rw [conforms_iff hsides]
  rintro ⟨_, hadmits⟩
  exact hadmits.not_overquotes hover

theorem exists_read_iff :
    (∃ clause left, read fragment values = .ok (clause, left) ∧ clause.compares = true) ↔
      Conforms fragment values ∨ Overquoted fragment := by
  rcases read_by_sides fragment values with ⟨hfind, hsides⟩ |
    ⟨front, operator, back, _, hsides, hread⟩
  · refine iff_of_false ?_ (by simp [Conforms, Overquoted, hsides])
    rintro ⟨clause, left, hread, hcompares⟩
    rw [read_without_operator hfind] at hread
    split at hread
    · cases hread
    · cases hread
      cases hcompares
  · rw [conforms_iff hsides, overquoted_iff hsides, ← and_or_left,
      ← @exists_ofSides_iff _ _ (trim isBlank fragment), hread]
    constructor
    · rintro ⟨clause, left, hok, _⟩
      exact ⟨clause, left, hok⟩
    · rintro ⟨clause, left, hok⟩
      exact ⟨clause, left, hok, compares_of_ofSides hok⟩

theorem read_eq_bare_iff {kept : String} {left : List Value} :
    read fragment values = .ok (.bare kept, left) ↔
      kept = String.ofList (trim isBlank fragment) ∧ left = values ∧
        ¬ Operator.Stands (trim isBlank fragment) ∧ ¬ Quote.Asks (trim isBlank fragment) := by
  rw [← Operator.find?_eq_none_iff, ← Quote.placeholders_eq_zero_iff]
  rcases read_by_sides fragment values with ⟨hfind, _⟩ | ⟨front, operator, back, hfind, _, hread⟩
  · rw [read_without_operator hfind]
    by_cases hcount : Quote.placeholders (trim isBlank fragment) = 0
    · simp [hcount, hfind, eq_comm]
    · simp [hcount, Nat.pos_iff_ne_zero]
  · refine iff_of_false ?_ fun h => hfind h.2.2.1
    intro hok
    cases compares_of_ofSides (hread.symm.trans hok)

/-! ## What is read -/

/-- The right side of a fragment starts and ends with a quote, and this is what is in between. -/
def Quotes (fragment : List Char) (q : Char) (content : List Char) : Prop :=
  ∃ front operator back, sides? fragment = some (front, operator, back) ∧
    Quote.isQuote q = true ∧ trim isBlank back = q :: (content ++ [q])

theorem carries_of_ofSides {front back : List Char} {v : Value} {clause : Clause}
    {left : List Value} (hside : rightSide? (trim isBlank back) = some (.literal v))
    (h : ofSides fragment front operator back values = .ok (clause, left)) :
    Carries clause v ∧ isBound clause = false := by
  obtain ⟨_, side, hmade, hmakes⟩ := ofSides_eq_ok_iff.mp h
  cases hside.symm.trans hmade
  cases hmakes with
  | literal hmade => exact comparison_eq_ok hmade

/-- A text between quotes is the operand, and it has the quote inside only if the fragment is
overquoted. -/
theorem carries_of_quotes {q : Char} {content : List Char} (hquotes : Quotes fragment q content)
    {clause : Clause} {left : List Value} (h : read fragment values = .ok (clause, left)) :
    Carries clause (.str (String.ofList content)) ∧ isBound clause = false ∧
      (q ∈ content ↔ Overquoted fragment) := by
  obtain ⟨front, operator, back, hsides, hquote, hback⟩ := hquotes
  have hok := (read_of_sides hsides values).symm.trans h
  have hside : rightSide? (trim isBlank back) =
      some (.literal (.str (String.ofList content))) := by
    rw [hback]
    exact rightSide?_of_literal (literal?_of_quotes hquote)
  obtain ⟨hcarries, hbound⟩ := carries_of_ofSides hside hok
  have hname := (exists_ofSides_iff.mp ⟨clause, left, hok⟩).1
  refine ⟨hcarries, hbound, ?_⟩
  rw [overquoted_iff hsides, hback, overquotes_iff hquote]
  exact ⟨fun hmem => ⟨hname, hmem⟩, fun hover => hover.2⟩

theorem error_of_comparison {field : String} {v : Value} {source : Source} {e : Error}
    (h : comparison field operator v source = .error e) :
    operator = .like ∧ v.makesPattern = false ∧ e = .typeMismatch field v.typeName := by
  cases operator with
  | like =>
      refine ⟨rfl, ?_⟩
      cases v with
      | str | int | float => cases h
      | null | bool | list | map =>
          cases h
          exact ⟨rfl, rfl⟩
  | eq | ne | lt | le | gt | ge => cases h

theorem error_of_map {field : String} {v : Value} {source : Source} {left : List Value}
    {e : Error}
    (h : (comparison field operator v source).map (fun clause => (clause, left)) = .error e) :
    operator = .like ∧ v.makesPattern = false ∧ e = .typeMismatch field v.typeName := by
  cases hcomparison : comparison field operator v source with
  | ok clause =>
      rw [hcomparison] at h
      cases h
  | error e =>
      rw [hcomparison] at h
      cases h
      exact error_of_comparison hcomparison

/-- Sides that make no clause name the fragment, or the value that LIKE can make no pattern of. -/
theorem error_of_ofSides {front back : List Char} {e : Error}
    (h : ofSides fragment front operator back values = .error e) :
    e = .malformedClause (String.ofList fragment) ∨
      operator = .like ∧ ∃ v : Value, v.makesPattern = false ∧
        e = .typeMismatch (String.ofList (trim isBlank front)) v.typeName := by
  rw [ofSides] at h
  dsimp only at h
  split at h
  · cases h
    exact Or.inl rfl
  · split at h
    · cases h
      exact Or.inl rfl
    · cases h
      exact Or.inl rfl
    · obtain ⟨hlike, hpattern, he⟩ := error_of_map h
      exact Or.inr ⟨hlike, _, hpattern, he⟩
    · obtain ⟨hlike, hpattern, he⟩ := error_of_map h
      exact Or.inr ⟨hlike, _, hpattern, he⟩
    · split at h
      · cases h
        exact Or.inl rfl
      · cases h

theorem error_of_read {e : Error} (h : read fragment values = .error e) :
    e = .malformedClause (String.ofList (trim isBlank fragment)) ∨
      ∃ front back, sides? fragment = some (front, .like, back) ∧
        ∃ v : Value, v.makesPattern = false ∧
          e = .typeMismatch (String.ofList (trim isBlank front)) v.typeName := by
  rcases read_by_sides fragment values with ⟨hfind, _⟩ | ⟨front, operator, back, _, hsides, hread⟩
  · rw [read_without_operator hfind] at h
    split at h
    · cases h
      exact Or.inl rfl
    · cases h
  · rcases error_of_ofSides (hread.symm.trans h) with he | ⟨rfl, hpattern⟩
    · exact Or.inl he
    · exact Or.inr ⟨front, back, hsides, hpattern⟩

/-- A fragment is read as a comparison if it is one by the grammar or else overquoted, and kept as
it is if it has neither an operator nor a placeholder outside its literals.  Every other fragment is
an error.  What stands between quotes is the operand, and there is no such quote in it unless the
fragment is overquoted. -/
theorem read_grammar (fragment : List Char) (values : List Value) :
    ((∃ clause left, read fragment values = .ok (clause, left) ∧ clause.compares = true) ↔
        Conforms fragment values ∨ Overquoted fragment) ∧
      (Overquoted fragment → ¬ Conforms fragment values) ∧
      (∀ kept left, read fragment values = .ok (.bare kept, left) ↔
        kept = String.ofList (trim isBlank fragment) ∧ left = values ∧
          ¬ Operator.Stands (trim isBlank fragment) ∧ ¬ Quote.Asks (trim isBlank fragment)) ∧
      (∀ e, read fragment values = .error e →
        e = .malformedClause (String.ofList (trim isBlank fragment)) ∨
          ∃ front back, sides? fragment = some (front, .like, back) ∧
            ∃ v : Value, v.makesPattern = false ∧
              e = .typeMismatch (String.ofList (trim isBlank front)) v.typeName) ∧
      ∀ q content clause left, Quotes fragment q content →
        read fragment values = .ok (clause, left) →
          Carries clause (.str (String.ofList content)) ∧ isBound clause = false ∧
            (q ∈ content ↔ Overquoted fragment) :=
  ⟨exists_read_iff, not_conforms_of_overquoted, fun _ _ => read_eq_bare_iff,
    fun _ => error_of_read, fun _ _ _ _ hquotes => carries_of_quotes hquotes⟩

/-- One literal, with what would be a placeholder elsewhere. -/
theorem read_grammar_of_literal :
    (∃ clause left, read "x like 'a?'".toList [] = .ok (clause, left) ∧
        Carries clause (.str "a?")) ∧ ¬ Overquoted "x like 'a?'".toList := by
  have hread : read "x like 'a?'".toList [] =
      .ok (.compare "x" .like (.pattern (Pattern.ofLike ['a', '?'])) .written, []) := rfl
  have hquotes : Quotes "x like 'a?'".toList '\'' ['a', '?'] :=
    ⟨"x ".toList, .like, " 'a?'".toList, rfl, rfl, rfl⟩
  obtain ⟨_, _, _, _, hcontent⟩ := read_grammar "x like 'a?'".toList []
  obtain ⟨hcarries, _, hover⟩ := hcontent _ _ _ _ hquotes hread
  refine ⟨⟨_, _, hread, hcarries⟩, ?_⟩
  rw [← hover]
  decide

/-- Two literals are read as one. -/
theorem not_conforms_of_two_literals :
    ¬ ∀ fragment values,
      (∃ clause left, read fragment values = .ok (clause, left) ∧ clause.compares = true) →
        Conforms fragment values := by
  intro hall
  have hread : read "x = 'a' 'b'".toList [] =
      .ok (.compare "x" .eq (.value (.str "a' 'b")) .written, []) := rfl
  have hover : Overquoted "x = 'a' 'b'".toList :=
    ⟨"x ".toList, .eq, " 'a' 'b'".toList, rfl, rfl, '\'', "a' 'b".toList, rfl, rfl, by decide⟩
  exact not_conforms_of_overquoted hover (hall _ _ ⟨_, _, hread, rfl⟩)

end Clause
end RecordFilter
