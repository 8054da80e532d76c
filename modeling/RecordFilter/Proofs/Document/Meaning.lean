/-
What a document asks for, and that it is what the tree asks for.  The semantics is that of a
document engine: a comparison takes an absent field for null, so `{"num": null}` selects a record
without `num` as well.  A tree takes a comparison with an absent field for false.  The two agree
because a comparison of null with anything else is false but for inequality, and the documents of
the other comparisons ask for the field to be there.
-/
import RecordFilter.Backend.Dispatch
import RecordFilter.Evaluation
import RecordFilter.Proofs.Condition.Leaves
import RecordFilter.Proofs.Document.Guarding

namespace RecordFilter
namespace Document

section

variable {ρ : Type} [Record ρ]

/-! ## Selection -/

def comparisonOf? (key : String) : Option Operator :=
  [("$eq", Operator.eq), ("$ne", .ne), ("$lt", .lt), ("$lte", .le), ("$gt", .gt),
    ("$gte", .ge)].lookup key

/-- An operator holds for a field, which may be absent. -/
def operatorHolds (found : Option Value) (key : String) (operand : Json) : Bool :=
  if key = "$exists" then operand == .bool found.isSome
  else if key = "$regex" then
    match found, operand with
    | some v, .string source =>
        v.patternText?.any fun text =>
          (Regex.read? source.toList).any fun r => r.matchesText text
    | _, _ => false
  else
    match comparisonOf? key with
    | some operator => operator.holds (found.getD .null) (Value.ofJson operand)
    | none => false

/-- What is asked of a field: every operator of a document, or else equality with a value. -/
def fieldHolds (found : Option Value) : Json → Bool
  | .object operators => operators.all fun member => operatorHolds found member.1 member.2
  | operand => operatorHolds found "$eq" operand

/-- The value of the field that an expression names behind a dollar sign. -/
def referenced? (record : ρ) : Json → Option Value
  | .string s =>
      match s.toList with
      | '$' :: name => Record.field? record (String.ofList name)
      | _ => none
  | _ => none

/-- A comparison of two fields that are present. -/
def expressionHolds (record : ρ) : Json → Bool
  | .object [(key, .array [left, right])] =>
      match comparisonOf? key, referenced? record left, referenced? record right with
      | some operator, some l, some r => operator.holds l r
      | _, _, _ => false
  | _ => false

mutual
/-- A document selects a record. -/
def selects (record : ρ) : Json → Bool
  | .object members => membersSelect record members
  | _ => false

def membersSelect (record : ρ) : List (String × Json) → Bool
  | [] => true
  | (key, asked) :: rest => memberSelects record key asked && membersSelect record rest

def memberSelects (record : ρ) (key : String) : Json → Bool
  | .array docs =>
      if key = "$and" then allSelect record docs
      else if key = "$or" then anySelects record docs
      else fieldHolds (Record.field? record key) (.array docs)
  | asked =>
      if key = "$expr" then expressionHolds record asked
      else fieldHolds (Record.field? record key) asked

def allSelect (record : ρ) : List Json → Bool
  | [] => true
  | doc :: rest => selects record doc && allSelect record rest

def anySelects (record : ρ) : List Json → Bool
  | [] => false
  | doc :: rest => selects record doc || anySelects record rest
end

/-! ## Operands -/

/-- A number that is not finite has no form in JSON, and text that looks like a number is compared
as the number; every other operand reaches the engine as it is. -/
def KeepsOperand : Clause → Prop
  | .compare _ _ (.value v) _ => v.coerceNumeric = v ∧ ∀ x, v = .float x → x.isFinite = true
  | _ => True

theorem ofJson_toJson {v : Value} (hscalar : v.isScalar = true)
    (hfinite : ∀ x, v = .float x → x.isFinite = true) : Value.ofJson v.toJson = v := by
  cases v with
  | null | bool _ | str _ => rfl
  | int n => rw [Value.toJson, Value.ofJson, Number.word?_toInt]
  | float x => rw [Value.toJson, if_pos (hfinite x rfl), Value.ofJson]
  | list _ | map _ => cases hscalar

/-- Null is equal to nothing else, and comes neither before nor behind it. -/
theorem holds_null_left {operator : Operator} {v : Value} (hne : operator ≠ .ne) (hv : v ≠ .null) :
    operator.holds .null v = false := by
  have horder : Value.order? .null v = none := by
    cases v with
    | null => exact absurd rfl hv
    | bool _ | int _ | float _ | str _ | list _ | map _ => rfl
  have hequal : Value.looselyEqual .null v = false := by
    rw [Value.looselyEqual, horder]
    cases v with
    | null => exact absurd rfl hv
    | bool _ | int _ | float _ | str _ | list _ | map _ => rfl
  cases operator with
  | ne => exact absurd rfl hne
  | eq => exact hequal
  | like => rfl
  | lt | le | gt | ge => rw [Operator.holds, horder]; rfl

theorem operatorHolds_operatorKey {operator : Operator} (hlike : operator ≠ .like)
    (found : Option Value) (operand : Json) :
    operatorHolds found (operatorKey operator) operand =
      operator.holds (found.getD .null) (Value.ofJson operand) := by
  cases operator with
  | like => exact absurd rfl hlike
  | eq | ne | lt | le | gt | ge => rfl

theorem operatorHolds_exists (found : Option Value) :
    operatorHolds found "$exists" (.bool true) = found.isSome := by
  cases found <;> rfl

/-- A scalar stands for equality with it. -/
theorem fieldHolds_toJson {v : Value} (hscalar : v.isScalar = true) (found : Option Value) :
    fieldHolds found v.toJson = operatorHolds found "$eq" v.toJson := by
  cases v with
  | null | bool _ | int _ | str _ => rfl
  | float x => rw [Value.toJson]; split <;> rfl
  | list _ | map _ => cases hscalar

/-- What is asked of a field that is compared: the comparison itself, and for inequality and for
null that the field is there. -/
theorem fieldHolds_guarded {operator : Operator} {v : Value} (hscalar : v.isScalar = true)
    (hcoerced : v.coerceNumeric = v) (found : Option Value) :
    fieldHolds found (comparison operator v) =
      (operatorHolds found (operatorKey operator) v.toJson &&
        (decide (operator ≠ .ne ∧ v ≠ .null) || found.isSome)) := by
  have hguarded : fieldHolds found (.object ((operatorKey operator, v.toJson) :: existing)) =
      (operatorHolds found (operatorKey operator) v.toJson && found.isSome) := by
    rw [fieldHolds, existing, List.all_cons, List.all_cons, List.all_nil, Bool.and_true,
      operatorHolds_exists]
  have hbare : fieldHolds found (.object [(operatorKey operator, v.toJson)]) =
      operatorHolds found (operatorKey operator) v.toJson := by
    rw [fieldHolds, List.all_cons, List.all_nil, Bool.and_true]
  by_cases hnull : v = .null
  · subst hnull
    have hdocument : comparison operator .null =
        .object ((operatorKey operator, Value.null.toJson) :: existing) := by
      cases operator <;> rfl
    rw [hdocument, hguarded]
    simp
  · cases operator with
    | eq =>
        rw [comparison_eq_of_ne_null hnull, fieldHolds_toJson hscalar]
        simp [hnull, operatorKey]
    | ne =>
        rw [comparison_of_ne (by decide), hcoerced, if_pos (Or.inl rfl), hguarded]
        simp
    | lt | le | gt | ge | like =>
        rw [comparison_of_ne (by decide), hcoerced]
        simp [hnull, hbare]

/-- A comparison is asked of a field exactly if the tree asks for it: with the field absent, what is
left without a guard is false. -/
theorem fieldHolds_comparison {operator : Operator} {v : Value} (hlike : operator ≠ .like)
    (hscalar : v.isScalar = true) (hcoerced : v.coerceNumeric = v)
    (hfinite : ∀ x, v = .float x → x.isFinite = true) (found : Option Value) :
    fieldHolds found (comparison operator v) = found.any fun u => operator.holds u v := by
  rw [fieldHolds_guarded hscalar hcoerced, operatorHolds_operatorKey hlike,
    ofJson_toJson hscalar hfinite]
  cases found with
  | some u => simp
  | none =>
      by_cases hunguarded : operator ≠ .ne ∧ v ≠ .null
      · rw [Option.getD_none, holds_null_left hunguarded.1 hunguarded.2]
        rfl
      · rw [decide_eq_false hunguarded]
        simp

/-! ## Clauses -/

/-- A document of one field asks for that field alone. -/
theorem selects_single {field : String} (h : Clause.isIdentifier field.toList = true) (record : ρ)
    (asked : Json) : selects record (.single field asked) =
      fieldHolds (Record.field? record field) asked := by
  obtain ⟨hand, hor, hexpr⟩ := ne_of_isIdentifier h
  rw [Json.single, selects, membersSelect, membersSelect, Bool.and_true]
  cases asked with
  | array docs => rw [memberSelects, if_neg hand, if_neg hor]
  | null | bool _ | int _ | float _ | string _ | object _ => simp [memberSelects, hexpr]

theorem referenced?_dollar (record : ρ) (field : String) :
    referenced? record (.string ("$" ++ field)) = Record.field? record field := by
  have htext : ("$" ++ field).toList = '$' :: field.toList := by
    rw [String.toList_append]
    rfl
  rw [referenced?, htext]
  show Record.field? record (String.ofList field.toList) = _
  rw [String.ofList_toList]

theorem comparisonOf?_operatorKey {operator : Operator} (hlike : operator ≠ .like) :
    comparisonOf? (operatorKey operator) = some operator := by
  cases operator with
  | like => exact absurd rfl hlike
  | eq | ne | lt | le | gt | ge => rfl

theorem fieldHolds_regex (p : Pattern) (found : Option Value) :
    fieldHolds found (.single "$regex" (.string (String.ofList p.regexSource))) =
      found.any fun v => v.patternText?.any p.matchesText := by
  rw [Json.single, fieldHolds, List.all_cons, List.all_nil, Bool.and_true]
  cases found with
  | none => rfl
  | some v =>
      show (v.patternText?.any fun text =>
        (Regex.read? (String.ofList p.regexSource).toList).any fun r => r.matchesText text) = _
      rw [String.toList_ofList]
      rfl

theorem fieldHolds_existing (found : Option Value) :
    fieldHolds found (.object existing) = found.isSome := by
  rw [fieldHolds, existing, List.all_cons, List.all_nil, Bool.and_true, operatorHolds_exists]

theorem selects_expression {operator : Operator} (hlike : operator ≠ .like) (left right : String)
    (record : ρ) :
    selects record (.single "$expr" (.single (operatorKey operator)
      (.array [.string ("$" ++ left), .string ("$" ++ right)]))) =
      (Record.field? record left).any fun l =>
        (Record.field? record right).any fun r => operator.holds l r := by
  show (expressionHolds record (.object [(operatorKey operator,
    .array [.string ("$" ++ left), .string ("$" ++ right)])]) && true) = _
  rw [expressionHolds, comparisonOf?_operatorKey hlike, referenced?_dollar, referenced?_dollar,
    Bool.and_true]
  cases Record.field? record left <;> cases Record.field? record right <;> rfl

theorem selects_and (docs : List Json) (record : ρ) :
    selects record (.single "$and" (.array docs)) = allSelect record docs := by
  rw [Json.single, selects, membersSelect, membersSelect, memberSelects, if_pos rfl, Bool.and_true]

theorem selects_or (docs : List Json) (record : ρ) :
    selects record (.single "$or" (.array docs)) = anySelects record docs := by
  rw [Json.single, selects, membersSelect, membersSelect, memberSelects, if_neg (by decide),
    if_pos rfl, Bool.and_true]

theorem selects_clauseDocument {clause : Clause} {doc : Json} (hclause : clause.WellFormed)
    (hkeeps : KeepsOperand clause) (h : clauseDocument clause = .ok doc) (record : ρ) :
    selects record doc = clause.holds record := by
  cases clause with
  | compare field operator operand source =>
      cases operand with
      | value v =>
          rw [clauseDocument] at h
          split at h
          · rename_i hscalar
            cases h
            obtain ⟨hfield, hlike, _⟩ := hclause
            rw [selects_single hfield, fieldHolds_comparison hlike hscalar hkeeps.1 hkeeps.2,
              Clause.holds]
            cases Record.field? record field <;> rfl
          · cases h
      | pattern p =>
          cases h
          rw [selects_single hclause.1, fieldHolds_regex, Clause.holds]
          cases Record.field? record field <;> rfl
  | fields left operator right =>
      cases h
      obtain ⟨hleft, hright, hlike⟩ := hclause
      rw [selects_and, allSelect, allSelect, allSelect, allSelect, Bool.and_true,
        selects_single hleft, selects_single hright, fieldHolds_existing, fieldHolds_existing,
        selects_expression hlike, Clause.holds]
      cases Record.field? record left <;> cases Record.field? record right <;> rfl
  | bare text => cases h

/-! ## Trees -/

mutual
theorem selects_treeDocument {t : Tree} {doc : Json}
    (hleaves : ∀ clause ∈ t.leaves, clause.WellFormed)
    (hkeeps : ∀ clause ∈ t.leaves, KeepsOperand clause) (h : treeDocument t = .ok doc)
    (record : ρ) :
    selects record doc = t.holds record := by
  match t with
  | .leaf clause =>
      have hself : clause ∈ (Tree.leaf clause).leaves := List.mem_singleton_self clause
      exact selects_clauseDocument (hleaves clause hself) (hkeeps clause hself) h record
  | .all children =>
      obtain ⟨docs, hdocs, rfl⟩ := map_eq_ok_iff.mp h
      rw [selects_and, Tree.holds]
      exact (select_treeDocuments hleaves hkeeps hdocs record).1
  | .any children =>
      obtain ⟨docs, hdocs, rfl⟩ := map_eq_ok_iff.mp h
      rw [selects_or, Tree.holds]
      exact (select_treeDocuments hleaves hkeeps hdocs record).2

theorem select_treeDocuments {ts : List Tree} {docs : List Json}
    (hleaves : ∀ clause ∈ Tree.leavesOf ts, clause.WellFormed)
    (hkeeps : ∀ clause ∈ Tree.leavesOf ts, KeepsOperand clause)
    (h : treeDocuments ts = .ok docs) (record : ρ) :
    allSelect record docs = Tree.allHold record ts ∧
      anySelects record docs = Tree.anyHolds record ts := by
  match ts with
  | [] =>
      cases h
      exact ⟨rfl, rfl⟩
  | t :: rest =>
      rw [treeDocuments] at h
      split at h
      · cases h
      · rename_i doc hdoc
        obtain ⟨docs, hdocs, rfl⟩ := map_eq_ok_iff.mp h
        have hfirst := selects_treeDocument
          (fun clause hclause => hleaves clause (List.mem_append_left _ hclause))
          (fun clause hclause => hkeeps clause (List.mem_append_left _ hclause)) hdoc record
        have hrest := select_treeDocuments
          (fun clause hclause => hleaves clause (List.mem_append_right _ hclause))
          (fun clause hclause => hkeeps clause (List.mem_append_right _ hclause)) hdocs record
        rw [allSelect, anySelects, Tree.allHold, Tree.anyHolds, hfirst, hrest.1, hrest.2]
        exact ⟨rfl, rfl⟩
end

/-- The document of a condition selects the records for which its tree holds. -/
theorem selects_eq_holds {s : Storage} {c : Condition} {t : Tree} {doc : Json}
    (hparse : c.parse = .ok (some t)) (hfilter : s.filterFor c = .ok (some (.document doc)))
    (hkeeps : ∀ clause ∈ t.leaves, KeepsOperand clause) (record : ρ) :
    selects record doc = t.holds record := by
  rw [Storage.filterFor, hparse] at hfilter
  obtain ⟨filter, hfilter, heq⟩ := map_eq_ok_iff.mp hfilter
  cases heq
  have hdocument : treeDocument t = .ok doc := by
    rw [Storage.filterOfTree] at hfilter
    split at hfilter
    · cases hfilter
    · obtain ⟨values, _, heq⟩ := map_eq_ok_iff.mp hfilter
      cases heq
    · obtain ⟨made, hmade, heq⟩ := map_eq_ok_iff.mp hfilter
      cases heq
      exact hmade
  exact selects_treeDocument (Condition.wellFormed_of_parse hparse) hkeeps hdocument record

end

/-- Inequality does not hold for an absent field, neither in the tree nor in the document. -/
theorem selects_eq_holds_of_absent :
    let document : Storage := { backend := .document, schema := .empty }
    ∃ doc, document.filterFor ⟨"a != ? OR b LIKE ?", [.int 1, .str "x%"]⟩ =
        .ok (some (.document doc)) ∧
      selects (FieldMap.ofList [("b", Value.str "y")] : Row) doc = false := by
  have hparse : Condition.parse ⟨"a != ? OR b LIKE ?", [.int 1, .str "x%"]⟩ =
      .ok (some (.any [.leaf (.compare "a" .ne (.value (.int 1)) .placeholder),
        .leaf (.compare "b" .like (.pattern (Pattern.ofLike ['x', '%'])) .placeholder)])) := rfl
  have hfilter : Storage.filterFor { backend := .document, schema := .empty }
      ⟨"a != ? OR b LIKE ?", [.int 1, .str "x%"]⟩ =
      .ok (some (.document (.single "$or" (.array [
        .single "a" (.object (("$ne", .int 1) :: existing)),
        .single "b" (.single "$regex" (.string "^x"))])))) := by
    rw [Storage.filterFor, hparse]
    rfl
  refine ⟨_, hfilter, ?_⟩
  rw [selects_eq_holds hparse hfilter]
  · rfl
  · intro clause hclause
    simp only [Tree.leaves, Tree.leavesOf, List.cons_append, List.nil_append, List.mem_cons,
      List.not_mem_nil, or_false] at hclause
    rcases hclause with rfl | rfl
    · exact ⟨rfl, fun x hx => by cases hx⟩
    · trivial

end Document
end RecordFilter
