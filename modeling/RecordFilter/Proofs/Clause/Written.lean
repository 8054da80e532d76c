/-
The text of a clause and what reads it back.  A clause with a placeholder, or one that compares two
fields, is written as two words with the operator between them, or with a question mark in place of
the second word.  Such a text stays whole when a template is cut, by `cutFrom_text`, and reading it
gives the clause back, by `read_text_of_carries` and `read_text_of_fields`.
-/
import RecordFilter.Proofs.Clause.Binding
import RecordFilter.Proofs.Template.Cutting

namespace RecordFilter

namespace Text

theorem isLayout_of_not_blank {c : Char} (h : isBlank c = false) : isLayout c = false := by
  refine Bool.eq_false_iff.mpr fun hlayout => ?_
  rw [isBlank_of_isLayout hlayout] at h
  cases h

end Text

namespace Operator

open Text

def spaced (operator : Operator) : List Char :=
  ' ' :: (operator.symbol.toList ++ [' '])

theorem apart_spaced (operator : Operator) (rest : List Char) :
    Apart (operator.spaced ++ rest) :=
  apart_cons (by decide) _

theorem plain_spaced (operator : Operator) : operator.spaced.all Quote.plain = true := by
  cases operator <;> decide

/-- No spelling starts inside a word, unless it is the word LIKE. -/
theorem spellingAt?_eq_none {c : Char} {before : Option Char} {rest : List Char}
    (hword : isAsciiWord c = true)
    (hlike : standsAlone ['l', 'i', 'k', 'e'] before (c :: rest) = false) :
    spellingAt? before (c :: rest) = none := by
  have hne : ∀ d, isAsciiWord d = false → (d == c) = false := by
    intro d hd
    refine beq_eq_false_iff_ne.mpr ?_
    rintro rfl
    rw [hword] at hd
    cases hd
  have hlt : ('<' == c) = false := hne '<' (by decide)
  have hgt : ('>' == c) = false := hne '>' (by decide)
  have hbang : ('!' == c) = false := hne '!' (by decide)
  have heq : ('=' == c) = false := hne '=' (by decide)
  rw [spellingAt?, List.find?_eq_none]
  intro s hs
  simp only [spellings, List.mem_cons, List.not_mem_nil, or_false] at hs
  rcases hs with rfl | rfl | rfl | rfl | rfl | rfl | rfl | rfl | rfl <;>
    simp [Spelling.standsAt, List.isPrefixOf, hlike, hlt, hgt, hbang, heq]

theorem findFrom_step {c : Char} {before : Option Char} {rest : List Char} (offset : Nat)
    (hword : isAsciiWord c = true)
    (hlike : standsAlone ['l', 'i', 'k', 'e'] before (c :: rest) = false) :
    findFrom offset before none (c :: rest) = findFrom (offset + c.utf8Size) (some c) none rest := by
  have hplain : Quote.plain c = true :=
    Quote.plain_of_class (by decide) (by decide) (by decide) hword
  simp only [findFrom, Option.isNone_none, if_true, spellingAt?_eq_none hword hlike,
    Quote.step_of_plain hplain]

theorem findFrom_inWord {before : Option Char} {name : List Char} (offset : Nat)
    (hname : name.all isAsciiWord = true) (hbefore : isAsciiWordAt before = true)
    (rest : List Char) :
    ∃ last, findFrom offset before none (name ++ rest) =
      findFrom (offset + byteLength name) last none rest := by
  induction name generalizing offset before with
  | nil => exact ⟨before, rfl⟩
  | cons c name ih =>
      rw [List.all_cons, Bool.and_eq_true] at hname
      have hnext : isAsciiWordAt (some c) = true := hname.1
      obtain ⟨last, hlast⟩ := ih (offset + c.utf8Size) hname.2 hnext
      refine ⟨last, ?_⟩
      rw [List.cons_append, findFrom_step offset hname.1 (standsAlone_of_wordBefore hbefore _ _),
        hlast, byteLength_cons, Nat.add_assoc]

theorem findFrom_word {name rest : List Char} (hname : name.all isAsciiWord = true)
    (hlike : sameLetters name ['l', 'i', 'k', 'e'] = false) (hrest : Apart rest) :
    ∃ last, findFrom 0 none none (name ++ rest) = findFrom (byteLength name) last none rest := by
  cases name with
  | nil => exact ⟨none, rfl⟩
  | cons c name =>
      have hnot : standsAlone ['l', 'i', 'k', 'e'] none (c :: name ++ rest) = false := by
        refine Bool.eq_false_iff.mpr fun h => ?_
        rw [standsAlone_append (by decide) hname hrest h] at hlike
        cases hlike
      rw [List.all_cons, Bool.and_eq_true] at hname
      have hnext : isAsciiWordAt (some c) = true := hname.1
      obtain ⟨last, hlast⟩ := findFrom_inWord (0 + c.utf8Size) hname.2 hnext rest
      refine ⟨last, ?_⟩
      rw [List.cons_append] at hnot ⊢
      rw [findFrom_step 0 hname.1 hnot, hlast, byteLength_cons, Nat.zero_add]

theorem findFrom_spaced (operator : Operator) (offset : Nat) (before : Option Char)
    (rest : List Char) :
    findFrom offset before none (operator.spaced ++ rest) =
      some { start := offset + 1
             stop := offset + 1 + byteLength operator.symbol.toList
             operator } := by
  cases operator <;> rfl

end Operator

namespace Clause

open Text Template

/-- An identifier that is none of the words that a condition gives a meaning to. -/
def IsName (name : String) : Prop :=
  isIdentifier name.toList = true ∧
    ∀ word ∈ [['a', 'n', 'd'], ['o', 'r'], ['l', 'i', 'k', 'e']],
      sameLetters name.toList word = false

/-- A clause that can be written in a template: its operand was bound, or it compares two fields of
which the second is not the word of a literal. -/
def Printable : Clause → Prop
  | .compare field _ _ .placeholder => IsName field
  | .fields left operator right => IsName left ∧ IsName right ∧ operator ≠ .like ∧
      ∀ word ∈ [['n', 'u', 'l', 'l'], ['t', 'r', 'u', 'e'], ['f', 'a', 'l', 's', 'e']],
        sameLetters right.toList word = false
  | _ => False

/-! ## Names -/

section Names

variable {name : List Char} (h : isIdentifier name = true)

include h

theorem isIdentifier_word : name.all isAsciiWord = true := by
  cases name with
  | nil => rfl
  | cons c rest =>
      rw [isIdentifier, Bool.and_eq_true] at h
      exact h.2

theorem isIdentifier_ne_nil : name ≠ [] := by
  rintro rfl
  cases h

theorem isIdentifier_not_blank : ∀ c ∈ name, isBlank c = false := fun c hc =>
  isBlank_of_isAsciiWord (List.all_eq_true.mp (isIdentifier_word h) c hc)

theorem isIdentifier_not_blank_head : ∀ c ∈ name.head?, isBlank c = false := fun c hc =>
  isIdentifier_not_blank h c (List.mem_of_mem_head? hc)

theorem isIdentifier_not_blank_last : ∀ c ∈ name.getLast?, isBlank c = false := fun c hc =>
  isIdentifier_not_blank h c (List.mem_of_getLast? hc)

end Names

theorem IsName.not_keyword {name : String} (h : IsName name) : isKeyword name.toList = false := by
  rw [isKeyword, h.2 _ (by simp), h.2 _ (by simp)]
  rfl

theorem IsName.not_like {name : String} (h : IsName name) :
    sameLetters name.toList ['l', 'i', 'k', 'e'] = false :=
  h.2 _ (by simp)

/-! ## Reading two words -/

theorem toList_written (left : String) (operator : Operator) (right : String) :
    (left ++ " " ++ operator.symbol ++ " " ++ right).toList =
      left.toList ++ (operator.spaced ++ right.toList) := by
  simp [Operator.spaced]

section Sides

variable {left : List Char} (hleft : isIdentifier left = true)

include hleft

/-- A word that is not LIKE, an operator and some text are read as the sides of the operator. -/
theorem read_written (hlike : sameLetters left ['l', 'i', 'k', 'e'] = false) {operator : Operator}
    {right : List Char} (hne : right ≠ []) (hlast : ∀ c ∈ right.getLast?, isBlank c = false)
    (values : List Value) :
    read (left ++ (operator.spaced ++ right)) values =
      ofSides (left ++ (operator.spaced ++ right)) (left ++ [' ']) operator (' ' :: right)
        values := by
  have htrim : trim isBlank ([] ++ ((left ++ (operator.spaced ++ right)) ++ [])) =
      left ++ (operator.spaced ++ right) := by
    refine trim_append rfl rfl ?_ ?_
    · rw [List.head?_append_of_ne_nil _ (isIdentifier_ne_nil hleft)]
      exact isIdentifier_not_blank_head hleft
    · rw [List.getLast?_append_of_ne_nil _ (by simp [hne]),
        List.getLast?_append_of_ne_nil _ hne]
      exact hlast
  rw [List.nil_append, List.append_nil] at htrim
  obtain ⟨before, hbefore⟩ := Operator.findFrom_word (isIdentifier_word hleft) hlike
    (Operator.apart_spaced operator right)
  have hfind : Operator.find? (left ++ (operator.spaced ++ right)) =
      some { start := byteLength left + 1
             stop := byteLength left + 1 + byteLength operator.symbol.toList
             operator } := by
    rw [Operator.find?, hbefore, Operator.findFrom_spaced]
  have hblank : ' '.utf8Size = 1 := rfl
  have hfront : slice? (left ++ (operator.spaced ++ right)) 0 (byteLength left + 1) =
      some (left ++ [' ']) := by
    have hslice := slice?_append [] (left ++ [' ']) (operator.symbol.toList ++ ' ' :: right)
    rw [byteLength_append, byteLength_nil, Nat.zero_add, List.nil_append] at hslice
    simpa [Operator.spaced, hblank] using hslice
  have hback : sliceFrom? (left ++ (operator.spaced ++ right))
      (byteLength left + 1 + byteLength operator.symbol.toList) = some (' ' :: right) := by
    have hdrop := drop?_append (left ++ ' ' :: operator.symbol.toList) (' ' :: right)
    rw [byteLength_append, byteLength_cons, ← Nat.add_assoc] at hdrop
    simpa [Operator.spaced, sliceFrom?, hblank] using hdrop
  simp only [read, htrim, hfind, hfront, hback]

theorem trim_left : trim isBlank (left ++ [' ']) = left := by
  have htrim : trim isBlank ([] ++ (left ++ [' '])) = left :=
    trim_append rfl rfl (isIdentifier_not_blank_head hleft) (isIdentifier_not_blank_last hleft)
  exact htrim

end Sides

theorem trim_right {right : List Char} (hhead : ∀ c ∈ right.head?, isBlank c = false)
    (hlast : ∀ c ∈ right.getLast?, isBlank c = false) :
    trim isBlank (' ' :: right) = right := by
  have htrim : trim isBlank ([' '] ++ (right ++ [])) = right := trim_append rfl rfl hhead hlast
  rw [List.append_nil] at htrim
  exact htrim

theorem read_placeholder {left : String} (hleft : IsName left) (operator : Operator) (v : Value)
    (values : List Value) :
    read (left.toList ++ (operator.spaced ++ ['?'])) (v :: values) =
      (comparison left operator v .placeholder).map fun clause => (clause, values) := by
  have hside : rightSide? (trim isBlank [' ', '?']) = some .placeholder := rfl
  have hlast : ∀ c ∈ ['?'].getLast?, isBlank c = false := by
    intro c hc
    cases hc
    rfl
  rw [read_written hleft.1 hleft.not_like (by simp) hlast, ofSides, trim_left hleft.1, hside,
    hleft.1]
  simp only [Bool.not_true, Bool.false_eq_true, if_false, String.ofList_toList]

theorem rightSide?_of_isName {name : String} (h : IsName name)
    (hwords : ∀ word ∈ [['n', 'u', 'l', 'l'], ['t', 'r', 'u', 'e'], ['f', 'a', 'l', 's', 'e']],
      sameLetters name.toList word = false) :
    rightSide? name.toList = some (.field name) := by
  have hidentifier := h.1
  have hall := isIdentifier_word h.1
  have hword : wordValue? name.toList = none := by
    rw [wordValue?, hwords _ (by simp), hwords _ (by simp), hwords _ (by simp)]
    rfl
  have htrim : trim isBlank ([] ++ (name.toList ++ [])) = name.toList :=
    trim_append rfl rfl (isIdentifier_not_blank_head h.1) (isIdentifier_not_blank_last h.1)
  rw [List.nil_append, List.append_nil] at htrim
  have hmark : name.toList ≠ ['?'] := by
    intro heq
    rw [heq] at hall
    revert hall
    decide
  have hquoted : quoted? name.toList = none := by
    cases htext : name.toList with
    | nil => rfl
    | cons c rest =>
        rw [htext, List.all_cons, Bool.and_eq_true] at hall
        rw [quoted?, isQuote_of_isAsciiWord hall.1]
        rfl
  have hnumber : Value.readNumber? name.toList = none := by
    rw [Value.readNumber?, htrim]
    cases htext : name.toList with
    | nil => rfl
    | cons c rest =>
        rw [htext, List.all_cons, Bool.and_eq_true] at hall
        rw [htext, isIdentifier, Bool.and_eq_true, Bool.not_eq_true'] at hidentifier
        have hsign : ∀ d, isAsciiWord d = false → (c == d) = false := by
          intro d hd
          refine beq_eq_false_iff_ne.mpr ?_
          rintro rfl
          rw [hall.1] at hd
          cases hd
        have hstart : Value.startsNumber c = false := by
          rw [Value.startsNumber, hidentifier.1, hsign '-' (by decide), hsign '+' (by decide),
            hsign '.' (by decide)]
          rfl
        simp only [hstart, Bool.false_and, Bool.false_eq_true, if_false]
  rw [rightSide?, if_neg hmark, literal?, hquoted, hword, hnumber]
  simp only [hidentifier, if_true, String.ofList_toList]

theorem comparison_of_carries {field : String} {operator : Operator} {operand : Operand} {v : Value}
    (h : Carries (.compare field operator operand .placeholder) v) :
    comparison field operator v .placeholder =
      .ok (.compare field operator operand .placeholder) := by
  cases operator with
  | like =>
      obtain ⟨p, hp, rfl⟩ := h
      rw [comparison, hp]
  | eq | ne | lt | le | gt | ge =>
      obtain rfl : operand = .value v := h
      rfl

theorem read_names {left right : String} {operator : Operator} (hleft : IsName left)
    (hright : IsName right)
    (hwords : ∀ word ∈ [['n', 'u', 'l', 'l'], ['t', 'r', 'u', 'e'], ['f', 'a', 'l', 's', 'e']],
      sameLetters right.toList word = false)
    (hoperator : operator ≠ .like) (values : List Value) :
    read (left.toList ++ (operator.spaced ++ right.toList)) values =
      .ok (.fields left operator right, values) := by
  have hlast := isIdentifier_not_blank_last hright.1
  rw [read_written hleft.1 hleft.not_like (isIdentifier_ne_nil hright.1) hlast, ofSides,
    trim_left hleft.1, trim_right (isIdentifier_not_blank_head hright.1) hlast,
    rightSide?_of_isName hright hwords, hleft.1]
  simp only [Bool.not_true, Bool.false_eq_true, if_false, String.ofList_toList, hoperator]

/-! ## Reading a clause back -/

theorem read_text_of_carries {clause : Clause} {v : Value} (h : clause.Printable)
    (hbound : isBound clause = true) (hcarries : Carries clause v) (values : List Value) :
    read clause.text.toList (v :: values) = .ok (clause, values) := by
  match clause, hbound with
  | .compare field operator operand .placeholder, _ =>
      have htext : (text (.compare field operator operand .placeholder)).toList =
          field.toList ++ (operator.spaced ++ ['?']) := toList_written field operator "?"
      rw [htext, read_placeholder h, comparison_of_carries hcarries]
      rfl

theorem read_text_of_fields {clause : Clause} (h : clause.Printable)
    (hbound : isBound clause = false) (values : List Value) :
    read clause.text.toList values = .ok (clause, values) := by
  cases clause with
  | compare field operator operand source =>
      cases source with
      | placeholder => cases hbound
      | written => exact h.elim
  | fields left operator right =>
      obtain ⟨hleft, hright, hoperator, hwords⟩ := h
      have htext : (text (.fields left operator right)).toList =
          left.toList ++ (operator.spaced ++ right.toList) := toList_written left operator right
      rw [htext, read_names hleft hright hwords hoperator]
  | bare text => exact h.elim

/-! ## The text of a clause -/

/-- A printable clause is written as a name, an operator and either a placeholder or a name. -/
theorem exists_written {clause : Clause} (h : clause.Printable) :
    ∃ (left : String) (operator : Operator) (right : List Char),
      clause.text.toList = left.toList ++ (operator.spaced ++ right) ∧ IsName left ∧
        ((right = ['?'] ∧ isBound clause = true) ∨
          ∃ name : String, right = name.toList ∧ IsName name ∧ isBound clause = false) := by
  cases clause with
  | compare field operator operand source =>
      cases source with
      | placeholder =>
          exact ⟨field, operator, ['?'], toList_written field operator "?", h, Or.inl ⟨rfl, rfl⟩⟩
      | written => exact h.elim
  | fields left operator right =>
      exact ⟨left, operator, right.toList, toList_written left operator right, h.1,
        Or.inr ⟨right, rfl, h.2.1, rfl⟩⟩
  | bare text => exact h.elim

/-- The text of a printable clause has a placeholder exactly if the clause was bound. -/
theorem placeholders_text {clause : Clause} (h : clause.Printable) :
    Quote.placeholders clause.text.toList = if isBound clause then 1 else 0 := by
  obtain ⟨left, operator, right, htext, hleft, hright⟩ := exists_written h
  rw [htext, Quote.placeholders_append_of_plain (isIdentifier_plain hleft.1),
    Quote.placeholders_append_of_plain operator.plain_spaced]
  rcases hright with ⟨rfl, hbound⟩ | ⟨name, rfl, hname, hbound⟩
  · rw [hbound]
    rfl
  · rw [hbound]
    exact Quote.placeholdersFrom_of_plain (isIdentifier_plain hname.1) none

theorem text_trimmed {clause : Clause} (h : clause.Printable) :
    clause.text.toList ≠ [] ∧ (∀ c ∈ clause.text.toList.head?, isBlank c = false) ∧
      ∀ c ∈ clause.text.toList.getLast?, isBlank c = false := by
  obtain ⟨left, operator, right, htext, hleft, hright⟩ := exists_written h
  have hne : right ≠ [] := by
    rcases hright with ⟨rfl, _⟩ | ⟨name, rfl, hname, _⟩
    · exact List.cons_ne_nil _ _
    · exact isIdentifier_ne_nil hname.1
  have hlast : ∀ c ∈ right.getLast?, isBlank c = false := by
    rcases hright with ⟨rfl, _⟩ | ⟨name, rfl, hname, _⟩
    · intro c hc
      cases hc
      rfl
    · exact isIdentifier_not_blank_last hname.1
  have hspaced : operator.spaced ++ right ≠ [] := List.append_ne_nil_of_right_ne_nil _ hne
  rw [htext]
  have hleftNe := isIdentifier_ne_nil hleft.1
  refine ⟨List.append_ne_nil_of_left_ne_nil hleftNe _, ?_, ?_⟩
  · rw [List.head?_append_of_ne_nil _ hleftNe]
    exact isIdentifier_not_blank_head hleft.1
  · rw [List.getLast?_append_of_ne_nil _ hspaced, List.getLast?_append_of_ne_nil _ hne]
    exact hlast

theorem cutFrom_spaced (operator : Operator) (before : Option Char) (rest : List Char) :
    cutFrom 0 before none (operator.spaced ++ rest) =
      (cutFrom 0 (some ' ') none rest).push operator.spaced := by
  cases operator <;> rfl

theorem cutFrom_text {clause : Clause} {rest : List Char} (h : clause.Printable)
    (hrest : Apart rest) (before : Option Char) :
    cutFrom 0 before none (clause.text.toList ++ rest) = (cut rest).push clause.text.toList := by
  obtain ⟨left, operator, right, htext, hleft, hright⟩ := exists_written h
  have hcut : cutFrom 0 (some ' ') none (right ++ rest) = (cut rest).push right := by
    rcases hright with ⟨rfl, _⟩ | ⟨name, rfl, hname, _⟩
    · rw [List.singleton_append, cutFrom_char rfl rfl rfl, cutFrom_of_apart hrest]
      rfl
    · exact cutFrom_word (isIdentifier_word hname.1) hname.not_keyword hrest _
  rw [htext, List.append_assoc, List.append_assoc,
    cutFrom_word (isIdentifier_word hleft.1) hleft.not_keyword (operator.apart_spaced _), cut,
    cutFrom_spaced, hcut, Cut.push_append, Cut.push_append]

end Clause
end RecordFilter
