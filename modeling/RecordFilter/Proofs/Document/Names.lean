/-
Where the member names of a document come from.  A `Name` is a key of documents, such as `$and`, or
the name of a field.  `treeNames` lists the names of a document from left to right, each with where
it comes from, and `names_treeDocument` says that this is all there is: every field of a clause is a
name once, and a value that a clause is compared with adds none, whatever it holds.

The keys start with a dollar sign, and the name of a field never does.
-/
import RecordFilter.Proofs.Condition.Regular
import RecordFilter.Proofs.Document.Guarding

namespace RecordFilter

/-! ## Names of a value -/

namespace Json

mutual
/-- The names of the members at every depth. -/
def names : Json → List String
  | .array items => itemNames items
  | .object members => memberNames members
  | .null | .bool _ | .int _ | .float _ | .string _ => []

def itemNames : List Json → List String
  | [] => []
  | j :: rest => names j ++ itemNames rest

def memberNames : List (String × Json) → List String
  | [] => []
  | (name, j) :: rest => name :: (names j ++ memberNames rest)
end

theorem names_single (name : String) (j : Json) : names (.single name j) = name :: names j := by
  rw [single, names, memberNames, memberNames, List.append_nil]

end Json

theorem Value.names_toJson {v : Value} (h : v.isScalar = true) : v.toJson.names = [] := by
  cases v with
  | null | bool _ | int _ | str _ => rfl
  | float x =>
      rw [toJson]
      split <;> rfl
  | list _ | map _ => cases h

theorem Value.isScalar_coerceNumeric {v : Value} (h : v.isScalar = true) :
    v.coerceNumeric.isScalar = true := by
  cases v with
  | str s =>
      rw [coerceNumeric]
      split
      · rfl
      · cases hread : readNumber? s.toList with
        | none => rfl
        | some w => exact Clause.isScalar_of_isLiteral (Clause.isLiteral_of_readNumber? hread)
  | null | bool _ | int _ | float _ => rfl
  | list _ | map _ => cases h

namespace Document

/-! ## Names of a document -/

/-- The names that documents have of their own. -/
inductive Key where
  | conjunction
  | disjunction
  | expression
  | presence
  | pattern
  | comparison (operator : Operator)
deriving DecidableEq, Repr

def Key.text : Key → String
  | .conjunction => "$and"
  | .disjunction => "$or"
  | .expression => "$expr"
  | .presence => "$exists"
  | .pattern => "$regex"
  | .comparison operator => operatorKey operator

inductive Name where
  | own (key : Key)
  | field (name : String)
deriving DecidableEq, Repr

namespace Name

def text : Name → String
  | .own key => key.text
  | .field name => name

def isOwn : Name → Bool
  | .own _ => true
  | .field _ => false

def field? : Name → Option String
  | .own _ => none
  | .field name => some name

end Name

def guardNames (asks : Bool) : List Name :=
  if asks then [.own .presence] else []

/-- The names in what is asked of a field that is compared with a value. -/
def comparisonNames (operator : Operator) (v : Value) : List Name :=
  if operator = .eq ∧ v ≠ .null then []
  else .own (.comparison operator) :: guardNames (operator = .ne || v.coerceNumeric = .null)

def clauseNames : Clause → List Name
  | .compare field _ (.pattern _) _ => [.field field, .own .pattern]
  | .compare field operator (.value v) _ => .field field :: comparisonNames operator v
  | .fields left operator right =>
      [.own .conjunction, .field left, .own .presence, .field right, .own .presence,
        .own .expression, .own (.comparison operator)]
  | .bare _ => []

mutual
/-- The names of a tree's document from left to right. -/
def treeNames : Tree → List Name
  | .leaf clause => clauseNames clause
  | .all children => .own .conjunction :: treesNames children
  | .any children => .own .disjunction :: treesNames children

def treesNames : List Tree → List Name
  | [] => []
  | t :: rest => treeNames t ++ treesNames rest
end

theorem names_existing (asks : Bool) :
    Json.memberNames (if asks then existing else []) = (guardNames asks).map Name.text := by
  cases asks <;> rfl

theorem names_comparison {v : Value} (h : v.isScalar = true) (operator : Operator) :
    (comparison operator v).names = (comparisonNames operator v).map Name.text := by
  rw [comparisonNames]
  by_cases heq : operator = .eq
  · subst heq
    by_cases hnull : v = .null
    · subst hnull
      rfl
    · rw [if_pos ⟨rfl, hnull⟩, comparison_eq_of_ne_null hnull, Value.names_toJson h]
      rfl
  · rw [if_neg fun hboth => heq hboth.1, comparison_of_ne heq, Json.names, Json.memberNames,
      Value.names_toJson (Value.isScalar_coerceNumeric h), List.nil_append, List.map_cons,
      ← names_existing]
    simp [Name.text, Key.text]

theorem names_clauseDocument {clause : Clause} {doc : Json} (h : clauseDocument clause = .ok doc) :
    doc.names = (clauseNames clause).map Name.text := by
  match clause with
  | .compare field operator (.value v) source =>
      rw [clauseDocument] at h
      split at h
      · rename_i hscalar
        cases h
        rw [Json.names_single, names_comparison hscalar]
        rfl
      · cases h
  | .compare field operator (.pattern p) source =>
      cases h
      rfl
  | .fields left operator right =>
      cases h
      rfl
  | .bare text => cases h

mutual
/-- The names of a document are those of its tree. -/
theorem names_treeDocument {t : Tree} {doc : Json} (h : treeDocument t = .ok doc) :
    doc.names = (treeNames t).map Name.text := by
  match t with
  | .leaf clause => exact names_clauseDocument h
  | .all children | .any children =>
      obtain ⟨docs, hdocs, rfl⟩ := map_eq_ok_iff.mp h
      rw [Json.names_single, Json.names, names_treeDocuments hdocs]
      rfl

theorem names_treeDocuments {ts : List Tree} {docs : List Json}
    (h : treeDocuments ts = .ok docs) :
    Json.itemNames docs = (treesNames ts).map Name.text := by
  match ts with
  | [] =>
      cases h
      rfl
  | t :: rest =>
      rw [treeDocuments] at h
      split at h
      · cases h
      · rename_i doc hdoc
        obtain ⟨docs, hdocs, rfl⟩ := map_eq_ok_iff.mp h
        rw [Json.itemNames, treesNames, List.map_append, names_treeDocument hdoc,
          names_treeDocuments hdocs]
end

/-! ## Fields -/

theorem field?_comparisonNames (operator : Operator) (v : Value) :
    (comparisonNames operator v).filterMap Name.field? = [] := by
  rw [comparisonNames, guardNames]
  split
  · rfl
  · split <;> rfl

theorem field?_clauseNames (clause : Clause) :
    (clauseNames clause).filterMap Name.field? = clause.fieldNames := by
  match clause with
  | .compare field operator (.value v) source =>
      have hfield : Name.field? (.field field) = some field := rfl
      rw [clauseNames, List.filterMap_cons_some hfield, field?_comparisonNames]
      rfl
  | .compare _ _ (.pattern _) _ | .fields _ _ _ | .bare _ => rfl

mutual
/-- The fields among the names are those of the clauses. -/
theorem field?_treeNames (t : Tree) :
    (treeNames t).filterMap Name.field? = t.leaves.flatMap Clause.fieldNames := by
  match t with
  | .leaf clause =>
      rw [treeNames, field?_clauseNames, Tree.leaves, List.flatMap_singleton]
  | .all children | .any children =>
      rw [treeNames, List.filterMap_cons_none rfl, field?_treesNames children, Tree.leaves]

theorem field?_treesNames (ts : List Tree) :
    (treesNames ts).filterMap Name.field? = (Tree.leavesOf ts).flatMap Clause.fieldNames := by
  match ts with
  | [] => rfl
  | t :: rest =>
      rw [treesNames, List.filterMap_append, field?_treeNames t, field?_treesNames rest,
        Tree.leavesOf, List.flatMap_append]
end

/-! ## Dollar signs -/

def StartsWithDollar (text : String) : Prop :=
  text.toList.head? = some '$'

theorem Key.startsWithDollar (key : Key) : StartsWithDollar key.text := by
  cases key with
  | conjunction | disjunction | expression | presence | pattern => rfl
  | comparison operator => cases operator <;> rfl

theorem not_startsWithDollar_of_matchesName {name : String}
    (h : Clause.MatchesName name.toList) : ¬ StartsWithDollar name := by
  obtain ⟨c, rest, htext, hfirst, _⟩ := h
  rw [StartsWithDollar, htext, List.head?_cons, Option.some.injEq]
  rintro rfl
  rcases hfirst with hletter | hunderscore
  · revert hletter
    decide
  · revert hunderscore
    decide

theorem mem_leaves_of_field {t : Tree} {field : String} (h : .field field ∈ treeNames t) :
    ∃ clause ∈ t.leaves, field ∈ clause.fieldNames := by
  rw [← List.mem_flatMap, ← field?_treeNames]
  exact List.mem_filterMap.mpr ⟨.field field, h, rfl⟩

/-- The names that start with a dollar sign are the document's own. -/
theorem startsWithDollar_iff_isOwn {t : Tree} (h : ∀ clause ∈ t.leaves, clause.Regular) :
    ∀ name ∈ treeNames t, StartsWithDollar name.text ↔ name.isOwn = true := by
  intro name hname
  cases name with
  | own key => exact iff_of_true key.startsWithDollar rfl
  | field field =>
      obtain ⟨clause, hclause, hfield⟩ := mem_leaves_of_field hname
      refine iff_of_false (not_startsWithDollar_of_matchesName ?_) Bool.false_ne_true
      exact Clause.matchesName_of_regular (h clause hclause) field hfield

end Document
end RecordFilter
