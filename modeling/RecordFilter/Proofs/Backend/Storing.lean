/-
What a relational table is asked to compare with, and what it holds.  A filter hands over its bound
values in the form that they have in storage, and a mapper keeps the value of a field in that form
too.  `filterFor_stored` says that it is the same form: the value of the i-th placeholder is stored
for the field that the i-th bound leaf compares, as setting that field would store it.

A filter finds the fields of its values by position, or does without them if all values are scalars.
Neither goes wrong, because the bound leaves carry the values in their order.
-/
import RecordFilter.Proofs.Backend.Refusal
import RecordFilter.Proofs.Condition.Binding
import RecordFilter.Proofs.Mapper.Operation

namespace RecordFilter

open Clause

/-! ## Values by position -/

namespace Relational

/-- The i-th bound clause compares the i-th bound field. -/
theorem getElem?_boundFields {clauses : List Clause} {i : Nat} {field : String}
    {operator : Operator} {operand : Operand}
    (h : (clauses.filter isBound)[i]? = some (.compare field operator operand .placeholder)) :
    (boundFields clauses)[i]? = some field := by
  induction clauses generalizing i with
  | nil => cases h
  | cons clause rest ih =>
      by_cases hbound : isBound clause = true
      · rw [List.filter_cons_of_pos hbound] at h
        obtain ⟨other, _, _, rfl⟩ := exists_compare_of_isBound hbound
        cases i with
        | zero =>
            cases h
            rfl
        | succ i => exact ih h
      · rw [List.filter_cons_of_neg hbound] at h
        rw [boundFields_of_unbound (Bool.eq_false_iff.mpr hbound)]
        exact ih h

/-- The i-th bound clause carries the i-th value. -/
theorem exists_of_binds {clauses : List Clause} {used : List Value} (h : Binds clauses used)
    (dropped : List Value) {i : Nat} {clause : Clause}
    (hclause : (clauses.filter isBound)[i]? = some clause) :
    ∃ v, (used ++ dropped)[i]? = some v ∧ Carries clause v := by
  rw [Binds] at h
  generalize clauses.filter isBound = bound at h hclause
  induction h generalizing i with
  | nil => cases hclause
  | cons hcarries _ ih =>
      cases i with
      | zero =>
          cases hclause
          exact ⟨_, rfl, hcarries⟩
      | succ i => exact ih hclause

theorem getElem?_storeValues {s : Storage} {fields : List String} {values out : List Value}
    (h : storeValues s fields values = .ok out) {i : Nat} {field : String} {v : Value}
    (hfield : fields[i]? = some field) (hv : values[i]? = some v) :
    ∃ stored, out[i]? = some stored ∧ s.encodeField field v = .ok stored := by
  induction fields generalizing values out i with
  | nil => cases hfield
  | cons first rest ih =>
      cases values with
      | nil => cases hv
      | cons w more =>
          rw [storeValues] at h
          split at h
          · cases h
          · rename_i stored hstored
            obtain ⟨behind, hbehind, rfl⟩ := map_eq_ok_iff.mp h
            cases i with
            | zero =>
                cases hfield
                cases hv
                exact ⟨stored, rfl, hstored⟩
            | succ i => exact ih hbehind hfield hv

/-- Each value that is handed over is stored for the field in its place. -/
theorem getElem?_values {schema : Schema} {c : Condition} {t : Tree} {out : List Value}
    (h : values schema c t = .ok out) {i : Nat} {field : String} {v : Value}
    (hfield : (boundFields t.leaves)[i]? = some field) (hv : c.values[i]? = some v) :
    ∃ stored, out[i]? = some stored ∧
      Storage.encodeField { backend := .relational, schema } field v = .ok stored := by
  rw [values] at h
  split at h
  · rename_i hscalars
    cases h
    have hscalar := List.all_eq_true.mp hscalars v (List.mem_of_getElem? hv)
    exact ⟨v, hv, Storage.encodeField_of_scalar hscalar _ _⟩
  · exact getElem?_storeValues h hfield hv

end Relational

/-! ## The same form in both -/

/-- What a field holds behind setting it is what is stored for the value. -/
theorem Mapper.exists_encodeField_of_set {σ : Type} {m m' : Mapper σ} {field : String} {v : Value}
    (h : m.set field v = .ok m') :
    ∃ stored, m.storage.encodeField field v = .ok stored ∧
      m'.current.get? field = some stored := by
  obtain ⟨stored, hstored, rfl⟩ := set_eq_ok_iff.mp h
  rw [storedValue] at hstored
  split at hstored
  · cases hstored
  · exact ⟨stored, hstored, FieldMap.get?_insert_self _ _ _⟩

namespace Relational

/-- A condition that can be read has a filter for a relational table unless a leaf of it was bound
to a list or a map without a codec; the leftmost such leaf is to blame.  The filter has the
template as it is, and for each bound leaf the value that the leaf carries, stored as the field of
the leaf has it after it was set to that value. -/
theorem filterFor_stored (schema : Schema) {c : Condition} {found : Option Tree}
    (h : c.parse = .ok found) :
    let table : Storage := { backend := .relational, schema }
    match found with
    | none => table.filterFor c = .ok none
    | some t =>
        match t.leaves.findSome? (refusal? schema) with
        | some e => table.filterFor c = .error e
        | none =>
            ∃ out, table.filterFor c = .ok (some (.template c.template out)) ∧
              ∀ (i : Nat) (field : String) (operator : Operator) (operand : Operand),
                (t.leaves.filter isBound)[i]? =
                    some (.compare field operator operand .placeholder) →
                  ∃ v stored, c.values[i]? = some v ∧
                    Carries (.compare field operator operand .placeholder) v ∧
                    out[i]? = some stored ∧ table.encodeField field v = .ok stored ∧
                    ∀ {σ : Type} (m m' : Mapper σ), m.storage = table →
                      m.set field v = .ok m' → m'.current.get? field = some stored := by
  intro table
  cases found with
  | none => exact Storage.filterFor_of_none h table
  | some t =>
      obtain ⟨used, dropped, hvalues, hbinds⟩ := Condition.exists_binds_of_parse h
      have herror := errorOf?_values schema hvalues hbinds
      have hfilter : table.filterFor c =
          ((values schema c t).map (Filter.template c.template)).map some :=
        Storage.filterFor_of_tree h table
      dsimp only
      rw [← herror, hfilter]
      cases hout : values schema c t with
      | error e => rfl
      | ok out =>
          refine ⟨out, rfl, ?_⟩
          intro i field operator operand hclause
          obtain ⟨v, hbound, hcarries⟩ := exists_of_binds hbinds dropped hclause
          rw [← hvalues] at hbound
          obtain ⟨stored, hstored, hencode⟩ :=
            getElem?_values hout (getElem?_boundFields hclause) hbound
          refine ⟨v, stored, hbound, hcarries, hstored, hencode, ?_⟩
          intro σ m m' hstorage hset
          obtain ⟨kept, hkept, hcurrent⟩ := Mapper.exists_encodeField_of_set hset
          rw [hstorage, hencode] at hkept
          cases hkept
          exact hcurrent

/-- A column of lists that are kept as JSON. -/
def tags : Schema :=
  .ofList [("tags", { dataType := .json, initial := none, nullable := true })]

/-- A comparison with a number, one with a list, and a pattern. -/
def tagsCondition : Condition :=
  { template := "(n > ? OR tags = ?) AND b like ?"
    values := [.int 1, .list [.int 1], .str "x%"] }

theorem filterFor_stored_of_tags :
    ∃ out, Storage.filterFor { backend := .relational, schema := tags } tagsCondition =
        .ok (some (.template tagsCondition.template out)) ∧
      out[1]? = some (.str "[1]") ∧ out[2]? = some (.str "x%") := by
  have hparse : tagsCondition.parse = .ok (some (.all [
      .any [.leaf (.compare "n" .gt (.value (.int 1)) .placeholder),
        .leaf (.compare "tags" .eq (.value (.list [.int 1])) .placeholder)],
      .leaf (.compare "b" .like (.pattern (Pattern.ofLike ['x', '%'])) .placeholder)])) := rfl
  obtain ⟨out, hfilter, hout⟩ := filterFor_stored tags hparse
  refine ⟨out, hfilter, ?_, ?_⟩
  · obtain ⟨v, stored, hv, _, hstored, hencode, _⟩ := hout 1 _ _ _ rfl
    cases hv
    cases hencode
    exact hstored
  · obtain ⟨v, stored, hv, _, hstored, hencode, _⟩ := hout 2 _ _ _ rfl
    cases hv
    cases hencode
    exact hstored

end Relational
end RecordFilter
