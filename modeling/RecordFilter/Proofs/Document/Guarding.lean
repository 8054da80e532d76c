/-
Comparisons with null in documents.  A document engine takes an absent field for null, so a
comparison whose operand is null has to ask for the field to be there as well.  `guarded` reads that
off a document, whatever it was made from.

Whether to ask is decided by the operand as a value, and what the engine sees is the operand as
JSON.  The two notions of null agree except for numbers that are not finite: they are no null values,
and JSON has nothing but null for them.  `guarded_iff` says that these are the only comparisons that
a document leaves without the demand, and that inequality, which asks for the field anyway, leaves
none.
-/
import RecordFilter.Backend.Dispatch
import RecordFilter.Proofs.Condition.Leaves

namespace RecordFilter

namespace Value

/-- What JSON has null for. -/
theorem toJson_eq_null_iff {v : Value} :
    v.toJson = .null ↔ v = .null ∨ ∃ x, v = .float x ∧ x.isFinite = false := by
  cases v with
  | null => simp [toJson]
  | float x =>
      rw [toJson]
      by_cases hfinite : x.isFinite = true <;> simp [hfinite]
  | bool _ | int _ | str _ | list _ | map _ => simp [toJson]

/-- Reading a text as a number gives a finite one, so a number that is not finite was one before. -/
theorem eq_of_coerceNumeric_float {v : Value} {x : Number.Binary64}
    (h : v.coerceNumeric = .float x) (hx : x.isFinite = false) : v = .float x := by
  cases v with
  | str s =>
      rw [coerceNumeric] at h
      split at h
      · cases h
      · cases hread : readNumber? s.toList with
        | none =>
            rw [hread] at h
            cases h
        | some w =>
            have hliteral : w.IsLiteral := Clause.isLiteral_of_readNumber? hread
            rw [hread, Option.getD_some] at h
            rw [h, IsLiteral, hx] at hliteral
            cases hliteral
  | null | bool _ | int _ | float _ | list _ | map _ => exact h

end Value

namespace Document

/-! ## Guards -/

/-- What is asked of a field: if it is compared with null, it is asked to be there as well. -/
def fieldGuarded : Json → Bool
  | .null => false
  | .object operators =>
      operators.all (fun member => member.2 ≠ .null) ||
        Json.member? "$exists" operators = some (.bool true)
  | _ => true

mutual
/-- No field of a document is compared with null unless it is asked to be there as well. -/
def guarded : Json → Bool
  | .object members => membersGuarded members
  | _ => false

def membersGuarded : List (String × Json) → Bool
  | [] => true
  | (key, asked) :: rest => memberGuarded key asked && membersGuarded rest

def memberGuarded (key : String) : Json → Bool
  | .array docs => if key = "$and" ∨ key = "$or" then allGuarded docs else true
  | asked => if key = "$expr" then true else fieldGuarded asked

def allGuarded : List Json → Bool
  | [] => true
  | doc :: rest => guarded doc && allGuarded rest
end

/-- A field name is no key of a document's structure. -/
theorem ne_of_isIdentifier {field : String} (h : Clause.isIdentifier field.toList = true) :
    field ≠ "$and" ∧ field ≠ "$or" ∧ field ≠ "$expr" := by
  refine ⟨?_, ?_, ?_⟩ <;>
  · rintro rfl
    revert h
    decide

theorem guarded_single {field : String} (h : Clause.isIdentifier field.toList = true)
    (asked : Json) : guarded (.single field asked) = fieldGuarded asked := by
  obtain ⟨hand, hor, hexpr⟩ := ne_of_isIdentifier h
  rw [Json.single, guarded, membersGuarded, membersGuarded, Bool.and_true]
  cases asked with
  | array docs => rw [memberGuarded, if_neg (not_or.mpr ⟨hand, hor⟩)]; rfl
  | null | bool _ | int _ | float _ | string _ | object _ => simp [memberGuarded, hexpr]

theorem guarded_and (docs : List Json) :
    guarded (.single "$and" (.array docs)) = allGuarded docs := by
  rw [Json.single, guarded, membersGuarded, membersGuarded, memberGuarded, if_pos (Or.inl rfl),
    Bool.and_true]

theorem guarded_or (docs : List Json) :
    guarded (.single "$or" (.array docs)) = allGuarded docs := by
  rw [Json.single, guarded, membersGuarded, membersGuarded, memberGuarded, if_pos (Or.inr rfl),
    Bool.and_true]

theorem operatorKey_ne_exists (operator : Operator) : operatorKey operator ≠ "$exists" := by
  cases operator <;> decide

theorem fieldGuarded_existing {key : String} (hkey : key ≠ "$exists") (operand : Json) :
    fieldGuarded (.object ((key, operand) :: existing)) = true := by
  have hmember : Json.member? "$exists" ((key, operand) :: existing) = some (.bool true) := by
    rw [Json.member?, if_neg hkey]
    rfl
  rw [fieldGuarded, hmember]
  simp

theorem fieldGuarded_operator {key : String} (hkey : key ≠ "$exists") (operand : Json) :
    fieldGuarded (.object [(key, operand)]) = true ↔ operand ≠ .null := by
  have hmember : Json.member? "$exists" [(key, operand)] = none := by
    rw [Json.member?, if_neg hkey]
    rfl
  rw [fieldGuarded, hmember]
  simp

/-! ## Comparisons -/

/-- A number that is not finite, compared by an operator that does not ask for the field. -/
def Unasked (operator : Operator) (v : Value) : Prop :=
  operator ≠ .ne ∧ ∃ x, v = .float x ∧ x.isFinite = false

/-- A scalar that is asked for as it is. -/
theorem fieldGuarded_toJson {v : Value} (hscalar : v.isScalar = true) :
    fieldGuarded v.toJson = true ↔ v.toJson ≠ .null := by
  cases v with
  | null | bool _ | int _ | str _ => simp [Value.toJson, fieldGuarded]
  | float x =>
      rw [Value.toJson]
      split <;> simp [fieldGuarded]
  | list _ | map _ => cases hscalar

/-- What every operator but equality makes of its operand. -/
theorem comparison_of_ne {operator : Operator} (h : operator ≠ .eq) (v : Value) :
    comparison operator v = .object ((operatorKey operator, v.coerceNumeric.toJson) ::
      if operator = .ne ∨ v.coerceNumeric = .null then existing else []) := by
  cases operator with
  | eq => exact absurd rfl h
  | ne | lt | le | gt | ge | like => simp [comparison]

theorem comparison_eq_of_ne_null {v : Value} (h : v ≠ .null) : comparison .eq v = v.toJson := by
  cases v with
  | null => exact absurd rfl h
  | bool _ | int _ | float _ | str _ | list _ | map _ => rfl

theorem fieldGuarded_comparison {operator : Operator} {v : Value} (hscalar : v.isScalar = true) :
    fieldGuarded (comparison operator v) = true ↔ ¬ Unasked operator v := by
  by_cases heq : operator = .eq
  · subst heq
    by_cases hnull : v = .null
    · subst hnull
      refine iff_of_true (fieldGuarded_existing (by decide) .null) ?_
      rintro ⟨_, x, hx, _⟩
      cases hx
    · rw [comparison_eq_of_ne_null hnull, fieldGuarded_toJson hscalar, Ne, Value.toJson_eq_null_iff]
      simp [Unasked, hnull]
  · rw [comparison_of_ne heq]
    by_cases hasks : operator = .ne ∨ v.coerceNumeric = .null
    · rw [if_pos hasks]
      refine iff_of_true (fieldGuarded_existing (operatorKey_ne_exists operator) _) ?_
      rintro ⟨hne, x, rfl, _⟩
      rcases hasks with hop | hnull
      · exact hne hop
      · cases hnull
    · rw [if_neg hasks, fieldGuarded_operator (operatorKey_ne_exists operator), Ne,
        Value.toJson_eq_null_iff]
      obtain ⟨hne, hnull⟩ := not_or.mp hasks
      refine not_congr ⟨?_, ?_⟩
      · rintro (h | ⟨x, hx, hfinite⟩)
        · exact absurd h hnull
        · exact ⟨hne, x, Value.eq_of_coerceNumeric_float hx hfinite, hfinite⟩
      · rintro ⟨_, x, rfl, hfinite⟩
        exact Or.inr ⟨x, rfl, hfinite⟩

/-! ## Clauses and trees -/

def ClauseUnasked : Clause → Prop
  | .compare _ operator (.value v) _ => Unasked operator v
  | _ => False

theorem guarded_clauseDocument {clause : Clause} {doc : Json} (hclause : clause.WellFormed)
    (h : clauseDocument clause = .ok doc) : guarded doc = true ↔ ¬ ClauseUnasked clause := by
  cases clause with
  | compare field operator operand source =>
      cases operand with
      | value v =>
          rw [clauseDocument] at h
          split at h
          · rename_i hscalar
            cases h
            rw [guarded_single hclause.1]
            exact fieldGuarded_comparison hscalar
          · cases h
      | pattern p =>
          cases h
          rw [guarded_single hclause.1]
          refine iff_of_true ?_ id
          exact (fieldGuarded_operator (by decide) _).mpr (by simp)
  | fields left operator right =>
      cases h
      obtain ⟨hleft, hright, _⟩ := hclause
      have hexisting : fieldGuarded (.object existing) = true := rfl
      refine iff_of_true ?_ id
      rw [guarded_and, allGuarded, allGuarded, allGuarded, allGuarded, guarded_single hleft,
        guarded_single hright, hexisting]
      rfl
  | bare text => cases h

mutual
theorem guarded_treeDocument {t : Tree} {doc : Json}
    (hleaves : ∀ clause ∈ t.leaves, clause.WellFormed) (h : treeDocument t = .ok doc) :
    guarded doc = true ↔ ∀ clause ∈ t.leaves, ¬ ClauseUnasked clause := by
  match t with
  | .leaf clause =>
      rw [Tree.leaves, List.forall_mem_singleton]
      exact guarded_clauseDocument (hleaves clause (List.mem_singleton_self clause)) h
  | .all children =>
      obtain ⟨docs, hdocs, rfl⟩ := map_eq_ok_iff.mp h
      rw [guarded_and]
      exact allGuarded_treeDocuments hleaves hdocs
  | .any children =>
      obtain ⟨docs, hdocs, rfl⟩ := map_eq_ok_iff.mp h
      rw [guarded_or]
      exact allGuarded_treeDocuments hleaves hdocs

theorem allGuarded_treeDocuments {ts : List Tree} {docs : List Json}
    (hleaves : ∀ clause ∈ Tree.leavesOf ts, clause.WellFormed) (h : treeDocuments ts = .ok docs) :
    allGuarded docs = true ↔ ∀ clause ∈ Tree.leavesOf ts, ¬ ClauseUnasked clause := by
  match ts with
  | [] =>
      cases h
      exact iff_of_true rfl fun clause hclause => absurd hclause List.not_mem_nil
  | t :: rest =>
      rw [treeDocuments] at h
      split at h
      · cases h
      · rename_i doc hdoc
        obtain ⟨docs, hdocs, rfl⟩ := map_eq_ok_iff.mp h
        rw [Tree.leavesOf, List.forall_mem_append] at hleaves ⊢
        rw [allGuarded, Bool.and_eq_true, guarded_treeDocument hleaves.1 hdoc,
          allGuarded_treeDocuments hleaves.2 hdocs]
end

theorem exists_treeDocument {s : Storage} {c : Condition} {doc : Json}
    (h : s.filterFor c = .ok (some (.document doc))) :
    ∃ t, c.parse = .ok (some t) ∧ treeDocument t = .ok doc := by
  rw [Storage.filterFor] at h
  split at h
  · cases h
  · cases h
  · rename_i t hparse
    refine ⟨t, hparse, ?_⟩
    obtain ⟨filter, hfilter, heq⟩ := map_eq_ok_iff.mp h
    cases heq
    rw [Storage.filterOfTree] at hfilter
    split at hfilter
    · cases hfilter
    · obtain ⟨values, _, heq⟩ := map_eq_ok_iff.mp hfilter
      cases heq
    · obtain ⟨made, hmade, heq⟩ := map_eq_ok_iff.mp hfilter
      cases heq
      exact hmade

/-- The document of a condition is guarded unless the condition compares a field with a number that
is not finite, by an operator other than inequality. -/
theorem guarded_iff {s : Storage} {c : Condition} {doc : Json}
    (h : s.filterFor c = .ok (some (.document doc))) :
    ∃ t, c.parse = .ok (some t) ∧
      (guarded doc = true ↔ ∀ clause ∈ t.leaves, ¬ ClauseUnasked clause) := by
  obtain ⟨t, hparse, hdoc⟩ := exists_treeDocument h
  exact ⟨t, hparse, guarded_treeDocument (Condition.wellFormed_of_parse hparse) hdoc⟩

/-- Null that is written, the word for it where numbers are read, and a number that JSON has only
null for, under inequality. -/
theorem guarded_of_null_operands :
    let document : Storage := { backend := .document, schema := .empty }
    ∃ doc, document.filterFor ⟨"(a = null OR b >= ?) AND c != ?", [.str " NULL", .float .nan]⟩ =
        .ok (some (.document doc)) ∧ guarded doc = true := by
  have hparse : Condition.parse ⟨"(a = null OR b >= ?) AND c != ?", [.str " NULL", .float .nan]⟩ =
      .ok (some (.all [
        .any [.leaf (.compare "a" .eq (.value .null) .written),
          .leaf (.compare "b" .ge (.value (.str " NULL")) .placeholder)],
        .leaf (.compare "c" .ne (.value (.float .nan)) .placeholder)])) := rfl
  have hfilter : Storage.filterFor { backend := .document, schema := .empty }
      ⟨"(a = null OR b >= ?) AND c != ?", [.str " NULL", .float .nan]⟩ =
      .ok (some (.document (.single "$and" (.array [
        .single "$or" (.array [
          .single "a" (.object (("$eq", .null) :: existing)),
          .single "b" (.object (("$gte", .null) :: existing))]),
        .single "c" (.object (("$ne", .null) :: existing))])))) := by
    rw [Storage.filterFor, hparse]
    rfl
  refine ⟨_, hfilter, ?_⟩
  obtain ⟨t, ht, hguarded⟩ := guarded_iff hfilter
  rw [hparse] at ht
  cases ht
  apply hguarded.mpr
  intro clause hclause
  simp only [Tree.leaves, Tree.leavesOf, List.cons_append, List.nil_append, List.mem_cons,
    List.not_mem_nil, or_false] at hclause
  rcases hclause with rfl | rfl | rfl
  · rintro ⟨_, x, hx, _⟩
    cases hx
  · rintro ⟨_, x, hx, _⟩
    cases hx
  · rintro ⟨hne, _⟩
    exact hne rfl

/-- Equality with the undefined number becomes `{"x": null}`, which a record without `x` meets. -/
theorem not_guarded_of_nan :
    ¬ ∀ (s : Storage) (c : Condition) (doc : Json), (∀ v ∈ c.values, v.isScalar = true) →
      s.filterFor c = .ok (some (.document doc)) → guarded doc = true := by
  intro hall
  have hfilter : Storage.filterFor { backend := .document, schema := .empty }
      ⟨"x = ?", [.float .nan]⟩ = .ok (some (.document (.single "x" .null))) := by
    rfl
  have hguarded := hall _ _ _ (by simp [Value.isScalar]) hfilter
  rw [guarded_single (by decide)] at hguarded
  cases hguarded

end Document
end RecordFilter
