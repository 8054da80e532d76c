/-
The expression of a clause is read back as the clause.  What a literal holds does not matter, since
a quoted text is one term of the expression; but a number that is written without a fraction is read
as an integer.
-/
import RecordFilter.Proofs.Condition.Leaves
import RecordFilter.Proofs.FlatFile.Meaning
import RecordFilter.Proofs.Number.Numeral

namespace RecordFilter

open Number

/-- A clause is read as itself; but a literal that is a number with a fraction may be read as an
integer that compares equal to it. -/
inductive Clause.ReadAs : Clause → Clause → Prop where
  | same (clause : Clause) : ReadAs clause clause
  | whole {x : Binary64} {n : Int64} (h : (Binary64.ofInt n.toInt).sameNumber x = true)
      (field : String) (operator : Operator) :
      ReadAs (.compare field operator (.value (.float x)) .written)
        (.compare field operator (.value (.int n)) .written)

namespace FlatFile

/-- A clause that can be read back: a fragment that was passed on as it was written is none. -/
def Readable (clause : Clause) : Prop :=
  clause.WellFormed ∧ ∀ text, clause ≠ .bare text

/-! ## Texts -/

@[simp] theorem text_append (left right : Expression) :
    (left ++ right).text = left.text ++ right.text := rfl

@[simp] theorem values_append (left right : Expression) :
    (left ++ right).values = left.values ++ right.values := rfl

@[simp] theorem text_ofText (text : List Char) : (Expression.ofText text).text = text := rfl

@[simp] theorem values_ofText (text : List Char) : (Expression.ofText text).values = [] := rfl

section

variable (field : String) (operator : Operator) (source : Source) (rest : List Char)

theorem isSet_append :
    isSet field ++ rest =
      ['i', 's', 's', 'e', 't'] ++ '(' :: '@' :: (field.toList ++ ')' :: rest) := by
  have hfunction : "isset(@".toList = ['i', 's', 's', 'e', 't'] ++ ['(', '@'] := by decide
  show "isset(@".toList ++ field.toList ++ [')'] ++ rest = _
  rw [hfunction]
  simp only [List.append_assoc, List.cons_append, List.nil_append]

theorem text_compare_append (v : Value) :
    (clauseExpression (.compare field operator (.value v) source)).text ++ rest =
      '(' :: (isSet field ++ (andText ++ '@' :: (field.toList ++ ' ' :: (operatorText operator ++
        ' ' :: ((argument source v (literal v)).text ++ ')' :: rest))))) := by
  have hfield : " && @".toList = andText ++ ['@'] := by decide
  show ('(' :: isSet field ++ " && @".toList ++ field.toList ++ [' '] ++ operatorText operator ++
    [' ']) ++ (argument source v (literal v)).text ++ [')'] ++ rest = _
  rw [hfield]
  simp only [List.append_assoc, List.cons_append, List.nil_append]

theorem text_match_append (p : Pattern) :
    (clauseExpression (.compare field operator (.pattern p) source)).text ++ rest =
      '(' :: (isSet field ++ (andText ++ (['p', 'r', 'e', 'g', '_', 'm', 'a', 't', 'c', 'h'] ++
        '(' :: ((argument source (.str (String.ofList p.delimited)) (quoted p.delimited)).text ++
          ',' :: '@' :: (field.toList ++ ')' :: ')' :: rest))))) := by
  have hfunction : " && preg_match(".toList =
      andText ++ (['p', 'r', 'e', 'g', '_', 'm', 'a', 't', 'c', 'h'] ++ ['(']) := by decide
  have hfield : ",@".toList = [',', '@'] := by decide
  have hend : "))".toList = [')', ')'] := by decide
  show ('(' :: isSet field ++ " && preg_match(".toList) ++
    (argument source (.str (String.ofList p.delimited)) (quoted p.delimited)).text ++
    (",@".toList ++ field.toList ++ "))".toList) ++ rest = _
  rw [hfunction, hfield, hend]
  simp only [List.append_assoc, List.cons_append, List.nil_append]

theorem text_fields_append (left right : String) :
    (clauseExpression (.fields left operator right)).text ++ rest =
      '(' :: (isSet left ++ (andText ++ (isSet right ++ (andText ++ '(' :: '@' :: (left.toList ++
        ' ' :: (operatorText operator ++
          ' ' :: '@' :: (right.toList ++ ')' :: ')' :: rest)))))))  := by
  have hand : " && ".toList = andText := rfl
  have hleft : " && (@".toList = andText ++ ['(', '@'] := by decide
  have hright : " @".toList = [' ', '@'] := by decide
  have hend : "))".toList = [')', ')'] := by decide
  show ('(' :: isSet left ++ " && ".toList ++ isSet right ++ " && (@".toList ++ left.toList ++
    [' '] ++ operatorText operator ++ " @".toList ++ right.toList ++ "))".toList) ++ rest = _
  rw [hand, hleft, hright, hend]
  simp only [List.append_assoc, List.cons_append, List.nil_append]

end

/-! ## Fields -/

theorem inWord_of_isAsciiWord {c : Char} (h : Text.isAsciiWord c = true) : inWord c = true := by
  exact Text.of_forall_ascii (p := fun c => Text.isAsciiWord c = true → inWord c = true) (by decide)
    (Text.toNat_lt_of_isAsciiWord h) h

theorem all_inWord_of_isIdentifier {text : List Char} (h : Clause.isIdentifier text = true) :
    text.all inWord = true := by
  cases text with
  | nil => rfl
  | cons c rest =>
      rw [Clause.isIdentifier, Bool.and_eq_true] at h
      rw [List.all_eq_true] at h ⊢
      exact fun d hd => inWord_of_isAsciiWord (h.2 d hd)

def fieldTerm (field : String) : Term :=
  .word ('@' :: field.toList)

@[simp] theorem field?_fieldTerm (field : String) : field? (fieldTerm field) = some field := by
  rw [fieldTerm, field?, String.ofList_toList]

theorem reads_field {field : String} (h : Clause.isIdentifier field.toList = true) :
    Reads ('@' :: field.toList) (fieldTerm field) := by
  have hall : ('@' :: field.toList).all inWord = true := by
    rw [List.all_cons, all_inWord_of_isIdentifier h]
    rfl
  exact reads_word (List.cons_ne_nil _ _) hall

def isSetTerms (field : String) : List Term :=
  [.word ['i', 's', 's', 'e', 't'], .group none [[fieldTerm field]]]

@[simp] theorem isSet?_isSetTerms (field : String) : isSet? (isSetTerms field) = some field := by
  rw [isSetTerms, isSet?, if_pos rfl, field?_fieldTerm]

theorem termFrom?_isSet {field : String} (h : Clause.isIdentifier field.toList = true)
    (level : Level) (stack : List Level) (rest : List Char) :
    termFrom? level stack (isSet field ++ rest) =
      termFrom? { level with last := level.last ++ isSetTerms field } stack rest := by
  rw [isSet_append, reads_word (by decide) (by decide) _ _ _ (endsWord_cons rfl _),
    termFrom?_opening, ← List.cons_append,
    reads_field h _ _ _ (endsWord_cons rfl _), termFrom?_closing _ _ _ rfl]
  simp [Level.push, isSetTerms, Level.empty]

/-! ## Operators and arguments -/

theorem reads_operatorText {operator : Operator} (hlike : operator ≠ .like) :
    Reads (operatorText operator) (.word (operatorText operator)) := by
  cases operator with
  | like => exact absurd rfl hlike
  | eq | ne | lt | le | gt | ge => exact reads_word (by decide) (by decide)

theorem operator?_operatorText {operator : Operator} (hlike : operator ≠ .like) :
    operator? (operatorText operator) = some operator := by
  cases operator with
  | like => exact absurd rfl hlike
  | eq | ne | lt | le | gt | ge => decide

theorem inWord_of_startsNumber {c : Char} (h : Value.startsNumber c = true) : inWord c = true := by
  simp only [Value.startsNumber, Bool.or_eq_true, beq_iff_eq] at h
  rcases h with ((hdigit | rfl) | rfl) | rfl
  · exact inWord_of_isAsciiWord (by rw [Text.isAsciiWord, hdigit, Bool.or_true, Bool.true_or])
  · decide
  · decide
  · decide

theorem all_inWord_of_startsNumber {text : List Char} (h : text.all Value.startsNumber = true) :
    text.all inWord = true := by
  rw [List.all_eq_true] at h ⊢
  exact fun c hc => inWord_of_startsNumber (h c hc)

theorem reads_number {text : List Char} (hne : text ≠ [])
    (hall : text.all Value.startsNumber = true) : Reads text (.word text) :=
  reads_word hne (all_inWord_of_startsNumber hall)

theorem plainValue?_number {text : List Char} (hall : text.all Value.startsNumber = true) :
    plainValue? text = Value.readNumber? text := by
  have hne : ∀ word : List Char, word.all Value.startsNumber = false → text ≠ word := by
    rintro word hword rfl
    rw [hall] at hword
    cases hword
  rw [plainValue?, if_neg (hne _ (by decide)), if_neg (hne _ (by decide)),
    if_neg (hne _ (by decide))]

theorem argument?_word {text : List Char} {v : Value} (h : plainValue? text = some v)
    (more : List Value) : argument? more (.word text) = some (v, .written, more) := by
  rw [argument?, h, Option.map_some]

/-- A literal is a term that stands for its value, but for a number that is read as an integer. -/
theorem exists_literal {v : Value} (hliteral : v.IsLiteral) :
    ∃ t w, Reads (literal v) t ∧ (∀ more, argument? more t = some (w, .written, more)) ∧
      (w = v ∨ ∃ x n, v = .float x ∧ w = .int n ∧
        (Binary64.ofInt n.toInt).sameNumber x = true) := by
  cases v with
  | null =>
      have htext : literal .null = ['N', 'U', 'L', 'L'] := by decide
      rw [htext]
      exact ⟨_, _, reads_word (by decide) (by decide), argument?_word rfl, Or.inl rfl⟩
  | bool b =>
      cases b with
      | true =>
          have htext : literal (.bool true) = ['T', 'R', 'U', 'E'] := by decide
          rw [htext]
          exact ⟨_, _, reads_word (by decide) (by decide), argument?_word rfl, Or.inl rfl⟩
      | false =>
          have htext : literal (.bool false) = ['F', 'A', 'L', 'S', 'E'] := by decide
          rw [htext]
          exact ⟨_, _, reads_word (by decide) (by decide), argument?_word rfl, Or.inl rfl⟩
  | int n =>
      have htext : literal (.int n) = integerText n.toInt := rfl
      rw [htext]
      refine ⟨_, .int n, reads_number (integerText_ne_nil _) (all_integerText _),
        argument?_word ?_, Or.inl rfl⟩
      rw [plainValue?_number (all_integerText _), readNumber?_integerText]
  | float x =>
      have htext : literal (.float x) = x.plainText := rfl
      have hreads := reads_number (plainText_ne_nil x) (all_plainText hliteral)
      have hvalue := readNumber?_plainText hliteral
      rw [← plainValue?_number (all_plainText hliteral)] at hvalue
      rw [htext]
      cases hword : readWord? x.plainText with
      | none => exact ⟨_, .float x, hreads, argument?_word (by rw [hvalue, hword]), Or.inl rfl⟩
      | some n =>
          exact ⟨_, .int n, hreads, argument?_word (by rw [hvalue, hword]),
            Or.inr ⟨x, n, rfl, rfl, sameNumber_of_readWord? hliteral hword⟩⟩
  | str s =>
      refine ⟨_, .str s, reads_quoted s.toList, fun more => ?_, Or.inl rfl⟩
      rw [argument?, String.ofList_toList]
  | list _ => exact hliteral.elim
  | map _ => exact hliteral.elim

/-- An argument is a term that stands for its value, and takes the value from the list if it was
bound. -/
theorem exists_argument {source : Source} {v : Value} (hliteral : source = .written → v.IsLiteral) :
    ∃ t w, Reads (argument source v (literal v)).text t ∧
      (∀ more, argument? ((argument source v (literal v)).values ++ more) t =
        some (w, source, more)) ∧
      (w = v ∨ source = .written ∧ ∃ x n, v = .float x ∧ w = .int n ∧
        (Binary64.ofInt n.toInt).sameNumber x = true) := by
  cases source with
  | placeholder => exact ⟨.hole, v, reads_hole, fun _ => rfl, Or.inl rfl⟩
  | written =>
      obtain ⟨t, w, htext, hvalue, hw⟩ := exists_literal (hliteral rfl)
      exact ⟨t, w, htext, hvalue, hw.imp_right fun h => ⟨rfl, h⟩⟩

/-! ## Clauses -/

/-- The text of an expression is one term, which means the tree, given the values of the
expression. -/
def Means (e : Expression) (read : Tree) : Prop :=
  ∃ t, Reads e.text t ∧ ∀ more, tree? t (e.values ++ more) = some (read, more)

theorem exists_compare {field : String} {operator : Operator} {v : Value} {source : Source}
    (hfield : Clause.isIdentifier field.toList = true) (hlike : operator ≠ .like)
    (hliteral : source = .written → v.IsLiteral) :
    ∃ clause, (Clause.compare field operator (.value v) source).ReadAs clause ∧
      Means (clauseExpression (.compare field operator (.value v) source)) (.leaf clause) := by
  obtain ⟨t, w, htext, hvalue, hw⟩ := exists_argument hliteral
  refine ⟨.compare field operator (.value w) source, ?_,
    .group (some .and) [isSetTerms field, [fieldTerm field, .word (operatorText operator), t]],
    ?_, ?_⟩
  · rcases hw with rfl | ⟨rfl, x, n, rfl, rfl, hsame⟩
    · exact .same _
    · exact .whole hsame field operator
  · intro level stack rest _
    rw [text_compare_append, termFrom?_opening, termFrom?_isSet hfield, termFrom?_and _ _ _ rfl,
      ← List.cons_append, reads_field hfield _ _ _ (endsWord_cons rfl _), termFrom?_space,
      reads_operatorText hlike _ _ _ (endsWord_cons rfl _), termFrom?_space,
      htext _ _ _ (endsWord_cons rfl _), termFrom?_closing _ _ _ rfl]
    rfl
  · intro more
    have hvalues : (clauseExpression (.compare field operator (.value v) source)).values =
        (argument source v (literal v)).values :=
      List.append_nil _
    have htest : test? ((argument source v (literal v)).values ++ more)
        [fieldTerm field, .word (operatorText operator), t] =
        some (.compare field operator (.value w) source, more) := by
      simp [test?, operator?_operatorText hlike, hvalue]
    rw [hvalues, tree?, if_pos rfl, clause?, isSet?_isSetTerms, htest]
    simp [Clause.fieldNames]

theorem means_match {field : String} {p : Pattern} {source : Source}
    (hfield : Clause.isIdentifier field.toList = true) :
    Means (clauseExpression (.compare field .like (.pattern p) source))
      (.leaf (.compare field .like (.pattern p) source)) := by
  have hliteral : literal (.str (String.ofList p.delimited)) = quoted p.delimited := by
    show quoted (String.ofList p.delimited).toList = _
    rw [String.toList_ofList]
  obtain ⟨t, w, htext, hvalue, hw⟩ :=
    @exists_argument source (.str (String.ofList p.delimited)) fun _ => trivial
  obtain rfl : w = .str (String.ofList p.delimited) := by
    rcases hw with rfl | ⟨_, x, n, hx, _⟩
    · rfl
    · cases hx
  rw [hliteral] at htext hvalue
  refine ⟨.group (some .and) [isSetTerms field,
    [.word ['p', 'r', 'e', 'g', '_', 'm', 'a', 't', 'c', 'h'],
      .group none [[t, .comma, fieldTerm field]]]], ?_, ?_⟩
  · intro level stack rest _
    rw [text_match_append, termFrom?_opening, termFrom?_isSet hfield, termFrom?_and _ _ _ rfl,
      reads_word (by decide) (by decide) _ _ _ (endsWord_cons rfl _), termFrom?_opening,
      htext _ _ _ (endsWord_cons rfl _), termFrom?_comma, ← List.cons_append,
      reads_field hfield _ _ _ (endsWord_cons rfl _), termFrom?_closing _ _ _ rfl,
      termFrom?_closing _ _ _ rfl]
    rfl
  · intro more
    have hvalues : (clauseExpression (.compare field .like (.pattern p) source)).values =
        (argument source (.str (String.ofList p.delimited)) (quoted p.delimited)).values :=
      List.append_nil _
    have hpattern : pattern? (.str (String.ofList p.delimited)) = some p := by
      rw [pattern?, String.toList_ofList, Pattern.ofDelimited?_delimited]
    rw [hvalues, tree?, if_pos rfl, clause?, isSet?_isSetTerms, test?, hvalue]
    simp [hpattern, Clause.fieldNames]

theorem means_fields {left right : String} {operator : Operator}
    (hleft : Clause.isIdentifier left.toList = true)
    (hright : Clause.isIdentifier right.toList = true) (hlike : operator ≠ .like) :
    Means (clauseExpression (.fields left operator right))
      (.leaf (.fields left operator right)) := by
  refine ⟨.group (some .and) [isSetTerms left, isSetTerms right,
    [.group none [[fieldTerm left, .word (operatorText operator), fieldTerm right]]]], ?_, ?_⟩
  · intro level stack rest _
    rw [text_fields_append, termFrom?_opening, termFrom?_isSet hleft, termFrom?_and _ _ _ rfl,
      termFrom?_isSet hright, termFrom?_and _ _ _ rfl, termFrom?_opening, ← List.cons_append,
      reads_field hleft _ _ _ (endsWord_cons rfl _), termFrom?_space,
      reads_operatorText hlike _ _ _ (endsWord_cons rfl _), termFrom?_space, ← List.cons_append,
      reads_field hright _ _ _ (endsWord_cons rfl _), termFrom?_closing _ _ _ rfl,
      termFrom?_closing _ _ _ rfl]
    rfl
  · intro more
    have hvalues : (clauseExpression (.fields left operator right)).values = [] := rfl
    rw [hvalues, List.nil_append, tree?, if_pos rfl, clause?, isSet?_isSetTerms,
      isSet?_isSetTerms, fieldsTest?]
    simp [operator?_operatorText hlike, Clause.fieldNames]

/-- The expression of a clause that is no bare fragment means the clause, or one that it may be read
as. -/
theorem exists_clause {clause : Clause} (h : Readable clause) :
    ∃ read, clause.ReadAs read ∧ Means (clauseExpression clause) (.leaf read) := by
  obtain ⟨hclause, hbare⟩ := h
  cases clause with
  | compare field operator operand source =>
      cases operand with
      | value v => exact exists_compare hclause.1 hclause.2.1 hclause.2.2
      | pattern p =>
          obtain ⟨hfield, rfl⟩ := hclause
          exact ⟨_, .same _, means_match hfield⟩
  | fields left operator right =>
      exact ⟨_, .same _, means_fields hclause.1 hclause.2.1 hclause.2.2⟩
  | bare text => exact absurd rfl (hbare text)

end FlatFile
end RecordFilter
