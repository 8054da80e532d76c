/-
The values of an expression.  They are the operands that were bound, in the order of the leaves, and
the expression has a question mark outside its literals for each of them.
-/
import RecordFilter.Proofs.FlatFile.Clauses

namespace RecordFilter

/-- What an expression hands on for a clause whose operand was bound. -/
def Clause.handed? : Clause → Option Value
  | .compare _ _ (.value v) .placeholder => some v
  | .compare _ _ (.pattern p) .placeholder => some (.str (String.ofList p.delimited))
  | _ => none

namespace FlatFile

open Number

/-! ## Question marks -/

/-- The number of question marks outside literals, in a text that starts inside a literal or not.  A
backslash in a literal takes the next character with it. -/
def holesFrom : Bool → List Char → Nat
  | _, [] => 0
  | false, c :: rest => (if c = '?' then 1 else 0) + holesFrom (c == '\'') rest
  | true, '\\' :: _ :: rest => holesFrom true rest
  | true, c :: rest => holesFrom (c != '\'') rest

def holes (text : List Char) : Nat :=
  holesFrom false text

/-- A character that is no question mark and opens no literal. -/
def isQuiet (c : Char) : Bool :=
  c != '?' && c != '\''

theorem all_quiet_of_inWord {text : List Char} (h : text.all inWord = true) :
    text.all isQuiet = true := by
  rw [List.all_eq_true] at h ⊢
  intro c hc
  have hin := h c hc
  rw [isQuiet, Bool.and_eq_true, bne_iff_ne, bne_iff_ne]
  constructor <;> rintro rfl <;> cases hin

theorem holes_append_of_quiet {text : List Char} (h : text.all isQuiet = true) (rest : List Char) :
    holes (text ++ rest) = holes rest := by
  induction text with
  | nil => rfl
  | cons c text ih =>
      rw [List.all_cons, Bool.and_eq_true, isQuiet, Bool.and_eq_true, bne_iff_ne, bne_iff_ne] at h
      rw [List.cons_append, holes, holesFrom, if_neg h.1.1, beq_eq_false_iff_ne.mpr h.1.2,
        Nat.zero_add]
      exact ih h.2

theorem holes_quoted_append (text rest : List Char) : holes (quoted text ++ rest) = holes rest := by
  have hinside : holesFrom true (escapeQuotes text ++ '\'' :: rest) = holes rest := by
    induction text with
    | nil => rfl
    | cons c text ih =>
        rw [escapeQuotes]
        split
        · exact ih
        · rename_i hplain
          simp only [Bool.or_eq_true, beq_iff_eq, not_or] at hplain
          rw [List.cons_append, holesFrom, bne_iff_ne.mpr hplain.1]
          · exact ih
          · exact fun _ _ h _ => hplain.2 h
  rw [quoted, List.append_assoc]
  exact (Nat.zero_add _).trans hinside

/-- An expression has as many question marks as values. -/
def Counted (e : Expression) : Prop :=
  ∀ rest, holes (e.text ++ rest) = e.values.length + holes rest

theorem Counted.append {left right : Expression} (hleft : Counted left) (hright : Counted right) :
    Counted (left ++ right) := by
  intro rest
  rw [text_append, values_append, List.append_assoc, hleft, hright, List.length_append,
    Nat.add_assoc]

theorem Counted.holes_eq {e : Expression} (h : Counted e) : holes e.text = e.values.length := by
  have hwhole := h []
  rwa [List.append_nil] at hwhole

theorem counted_ofText {text : List Char} (h : text.all isQuiet = true) :
    Counted (.ofText text) := by
  intro rest
  rw [text_ofText, values_ofText, List.length_nil, Nat.zero_add, holes_append_of_quiet h]

theorem counted_argument {source : Source} {bound : Value} {written : List Char}
    (h : source = .written → ∀ rest, holes (written ++ rest) = holes rest) :
    Counted (argument source bound written) := by
  intro rest
  cases source with
  | placeholder => rfl
  | written => exact (h rfl rest).trans (Nat.zero_add _).symm

theorem holes_literal_append {v : Value} (hliteral : v.IsLiteral) (rest : List Char) :
    holes (literal v ++ rest) = holes rest := by
  cases v with
  | null => exact holes_append_of_quiet (by decide) rest
  | bool b => cases b <;> exact holes_append_of_quiet (by decide) rest
  | int n =>
      exact holes_append_of_quiet
        (all_quiet_of_inWord (all_inWord_of_startsNumber (all_integerText n.toInt))) rest
  | float x =>
      exact holes_append_of_quiet
        (all_quiet_of_inWord (all_inWord_of_startsNumber (all_plainText hliteral))) rest
  | str s => exact holes_quoted_append s.toList rest
  | list _ => exact hliteral.elim
  | map _ => exact hliteral.elim

theorem all_quiet_of_isIdentifier {text : List Char} (h : Clause.isIdentifier text = true) :
    text.all isQuiet = true :=
  all_quiet_of_inWord (all_inWord_of_isIdentifier h)

theorem all_quiet_isSet {field : String} (h : Clause.isIdentifier field.toList = true) :
    (isSet field).all isQuiet = true := by
  have hfunction : "isset(@".toList.all isQuiet = true := by decide
  show ("isset(@".toList ++ field.toList ++ [')']).all isQuiet = true
  rw [List.all_append, List.all_append, hfunction, all_quiet_of_isIdentifier h]
  rfl

theorem all_quiet_operatorText (operator : Operator) :
    (operatorText operator).all isQuiet = true := by
  cases operator <;> decide

theorem counted_clause {clause : Clause} (h : Readable clause) :
    Counted (clauseExpression clause) := by
  obtain ⟨hclause, hbare⟩ := h
  cases clause with
  | compare field operator operand source =>
      cases operand with
      | value v =>
          have htext : " && @".toList.all isQuiet = true := by decide
          have hargument := @counted_argument source v (literal v) fun hwritten =>
            holes_literal_append (hclause.2.2 hwritten)
          refine ((counted_ofText ?_).append hargument).append (counted_ofText (by decide))
          simp only [List.all_append, List.cons_append, List.all_cons, all_quiet_isSet hclause.1,
            htext, all_quiet_of_isIdentifier hclause.1, all_quiet_operatorText]
          rfl
      | pattern p =>
          have htext : " && preg_match(".toList.all isQuiet = true := by decide
          have hcomma : ",@".toList.all isQuiet = true := by decide
          have hend : "))".toList.all isQuiet = true := by decide
          refine Counted.append (Counted.append (counted_ofText ?_) (counted_argument fun _ =>
            holes_quoted_append p.delimited)) (counted_ofText ?_)
          · rw [List.cons_append, List.all_cons, List.all_append, all_quiet_isSet hclause.1, htext]
            rfl
          · rw [List.all_append, List.all_append, hcomma, all_quiet_of_isIdentifier hclause.1, hend]
            rfl
  | fields left operator right =>
      have hand : " && ".toList.all isQuiet = true := by decide
      have hfirst : " && (@".toList.all isQuiet = true := by decide
      have hsecond : " @".toList.all isQuiet = true := by decide
      have hend : "))".toList.all isQuiet = true := by decide
      refine counted_ofText ?_
      simp only [List.all_append, List.cons_append, List.all_cons, all_quiet_isSet hclause.1,
        all_quiet_isSet hclause.2.1, all_quiet_of_isIdentifier hclause.1,
        all_quiet_of_isIdentifier hclause.2.1, all_quiet_operatorText, hand, hfirst, hsecond, hend]
      rfl
  | bare text => exact absurd rfl (hbare text)

theorem values_clause (clause : Clause) :
    (clauseExpression clause).values = [clause].filterMap Clause.handed? := by
  cases clause with
  | compare field operator operand source =>
      cases operand <;> cases source <;> rfl
  | fields left operator right => rfl
  | bare text => rfl

/-! ## Trees -/

theorem counted_joiner (joiner : Joiner) : Counted (.ofText (joinerText joiner)) := by
  cases joiner <;> exact counted_ofText (by decide)

theorem values_parenthesised (e : Expression) : (parenthesised e).values = e.values := by
  simp [parenthesised]

theorem Counted.parenthesised {e : Expression} (h : Counted e) : Counted (parenthesised e) :=
  ((counted_ofText rfl).append h).append (counted_ofText rfl)

mutual
theorem counted_operand {t : Tree} (hleaves : ∀ clause ∈ t.leaves, Readable clause) :
    Counted (operandExpression t) := by
  match t with
  | .leaf clause =>
      exact counted_clause (hleaves clause (List.mem_singleton_self clause))
  | .all children => exact (counted_joined .and hleaves).parenthesised
  | .any children => exact (counted_joined .or hleaves).parenthesised

theorem counted_joined (joiner : Joiner) {ts : List Tree}
    (hleaves : ∀ clause ∈ Tree.leavesOf ts, Readable clause) :
    Counted (joined (joinerText joiner) ts) := by
  match ts with
  | [] => exact counted_ofText rfl
  | t :: rest =>
      exact Counted.append
        (counted_operand fun clause hclause => hleaves clause (List.mem_append_left _ hclause))
        (counted_joinedAfter joiner fun clause hclause =>
          hleaves clause (List.mem_append_right _ hclause))

theorem counted_joinedAfter (joiner : Joiner) {ts : List Tree}
    (hleaves : ∀ clause ∈ Tree.leavesOf ts, Readable clause) :
    Counted (joinedAfter (joinerText joiner) ts) := by
  match ts with
  | [] => exact counted_ofText rfl
  | t :: rest =>
      exact Counted.append (Counted.append (counted_joiner joiner)
        (counted_operand fun clause hclause => hleaves clause (List.mem_append_left _ hclause)))
        (counted_joinedAfter joiner fun clause hclause =>
          hleaves clause (List.mem_append_right _ hclause))
end

mutual
theorem values_operand (t : Tree) :
    (operandExpression t).values = t.leaves.filterMap Clause.handed? := by
  match t with
  | .leaf clause => exact values_clause clause
  | .all children => rw [operandExpression, values_parenthesised, values_joined]; rfl
  | .any children => rw [operandExpression, values_parenthesised, values_joined]; rfl

theorem values_joined (joiner : List Char) (ts : List Tree) :
    (joined joiner ts).values = (Tree.leavesOf ts).filterMap Clause.handed? := by
  match ts with
  | [] => rfl
  | t :: rest =>
      rw [joined, values_append, values_operand t, values_joinedAfter joiner rest, Tree.leavesOf,
        List.filterMap_append]

theorem values_joinedAfter (joiner : List Char) (ts : List Tree) :
    (joinedAfter joiner ts).values = (Tree.leavesOf ts).filterMap Clause.handed? := by
  match ts with
  | [] => rfl
  | t :: rest =>
      rw [joinedAfter, values_append, values_append, values_ofText, List.nil_append,
        values_operand t, values_joinedAfter joiner rest, Tree.leavesOf, List.filterMap_append]
end

theorem values_treeExpression (t : Tree) :
    (treeExpression t).values = t.leaves.filterMap Clause.handed? := by
  cases t with
  | leaf clause => exact values_clause clause
  | all children => exact values_joined andText children
  | any children => exact values_joined orText children

theorem counted_treeExpression {t : Tree} (hleaves : ∀ clause ∈ t.leaves, Readable clause) :
    Counted (treeExpression t) := by
  cases t with
  | leaf clause => exact counted_operand hleaves
  | all children => exact counted_joined .and hleaves
  | any children => exact counted_joined .or hleaves

end FlatFile
end RecordFilter
