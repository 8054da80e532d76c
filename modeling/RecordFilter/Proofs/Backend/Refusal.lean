/-
Which filters a backend refuses, and why.  Flat files take every tree.  A document database has no
form for a fragment that was kept as it is, and none for a list or a map; a relational table needs a
codec to store a list or a map in a column.  Each of these is said of one clause, by a `refusal?`.

The backends walk over the tree, or over the bound values, and stop at the first error.  So the
error of a filter is the refusal of the leftmost leaf that has one: `errorOf?_treeDocument` and
`errorOf?_values`.
-/
import RecordFilter.Backend.Dispatch
import RecordFilter.Proofs.Clause.Binding

namespace RecordFilter

/-! ## Errors as values -/

section Errors

variable {ε α β : Type}

/-- The error of an operation that has no result. -/
def errorOf? : Except ε α → Option ε
  | .error e => some e
  | .ok _ => none

theorem errorOf?_map (f : α → β) (x : Except ε α) : errorOf? (x.map f) = errorOf? x := by
  cases x <;> rfl

end Errors

/-! ## Documents -/

namespace Document

/-- Why there is no document for a clause. -/
def refusal? : Clause → Option Error
  | .bare text => some (.unsupportedClause text)
  | .compare field _ (.value v) _ =>
      if v.isScalar then none else some (.typeMismatch field v.typeName)
  | .compare _ _ (.pattern _) _ | .fields _ _ _ => none

theorem errorOf?_clauseDocument (clause : Clause) :
    errorOf? (clauseDocument clause) = refusal? clause := by
  cases clause with
  | compare field operator operand source =>
      cases operand with
      | value v =>
          rw [clauseDocument, refusal?]
          split <;> rfl
      | pattern p => rfl
  | fields left operator right => rfl
  | bare text => rfl

mutual
/-- A tree has a document unless one of its leaves has none, and then the leftmost of them is to
blame. -/
theorem errorOf?_treeDocument (t : Tree) :
    errorOf? (treeDocument t) = t.leaves.findSome? refusal? := by
  match t with
  | .leaf clause =>
      rw [treeDocument, Tree.leaves, List.findSome?_singleton, errorOf?_clauseDocument]
  | .all children =>
      rw [treeDocument, Tree.leaves, errorOf?_map, errorOf?_treeDocuments children]
  | .any children =>
      rw [treeDocument, Tree.leaves, errorOf?_map, errorOf?_treeDocuments children]

theorem errorOf?_treeDocuments (ts : List Tree) :
    errorOf? (treeDocuments ts) = (Tree.leavesOf ts).findSome? refusal? := by
  match ts with
  | [] => rfl
  | t :: rest =>
      rw [treeDocuments, Tree.leavesOf, List.findSome?_append, ← errorOf?_treeDocument t,
        ← errorOf?_treeDocuments rest]
      cases treeDocument t with
      | error e => rfl
      | ok doc => exact errorOf?_map _ _
end

end Document

/-! ## Relational tables -/

/-- Why a column of a relational table cannot store a value: lists and maps need a codec. -/
def Schema.refusal? (schema : Schema) (field : String) (v : Value) : Option Error :=
  if v.isScalar then none
  else
    match schema.get? field with
    | none => some (.missingFieldConfiguration field)
    | some conf =>
        if conf.dataType.codec?.isSome then none else some (.typeMismatch field v.typeName)

namespace Storage

theorem encodeField_of_scalar {v : Value} (h : v.isScalar = true) (s : Storage) (field : String) :
    s.encodeField field v = .ok v := by
  rw [encodeField, h, Bool.or_true, if_pos rfl]

theorem errorOf?_encodeField {s : Storage} (hs : s.backend = .relational) (field : String)
    (v : Value) : errorOf? (s.encodeField field v) = s.schema.refusal? field v := by
  by_cases hscalar : v.isScalar = true
  · rw [encodeField_of_scalar hscalar, Schema.refusal?, if_pos hscalar]
    rfl
  · rw [Bool.not_eq_true] at hscalar
    have hencodes : (decide (s.backend ≠ .relational) || v.isScalar) = false := by
      rw [hs, hscalar]
      rfl
    rw [encodeField, hencodes, Schema.refusal?, hscalar, codec?, Schema.require]
    cases s.schema.get? field with
    | none => rfl
    | some conf => cases hcodec : conf.dataType.codec? <;> simp [hcodec, errorOf?]

end Storage

namespace Relational

open Clause

/-! ### Clauses -/

/-- Why a filter with this clause cannot be stored: the clause was bound to a value that its column
does not take.  Values that are written in a template stay there. -/
def refusal? (schema : Schema) : Clause → Option Error
  | .compare field _ (.value v) .placeholder => schema.refusal? field v
  | _ => none

theorem exists_compare_of_isBound {clause : Clause} (h : isBound clause = true) :
    ∃ field operator operand, clause = .compare field operator operand .placeholder := by
  cases clause with
  | compare field operator operand source =>
      cases source with
      | placeholder => exact ⟨field, operator, operand, rfl⟩
      | written => cases h
  | fields left operator right => cases h
  | bare text => cases h

/-- A clause that was not bound has no part in what is stored. -/
theorem refusal?_of_unbound {clause : Clause} (h : isBound clause = false) (schema : Schema) :
    refusal? schema clause = none := by
  cases clause with
  | compare field operator operand source =>
      cases source with
      | placeholder => cases h
      | written => cases operand <;> rfl
  | fields left operator right => rfl
  | bare text => rfl

theorem boundFields_of_unbound {clause : Clause} (h : isBound clause = false)
    (rest : List Clause) : boundFields (clause :: rest) = boundFields rest := by
  cases clause with
  | compare field operator operand source =>
      cases source with
      | placeholder => cases h
      | written => rfl
  | fields left operator right => rfl
  | bare text => rfl

theorem isScalar_of_likePattern {field : String} {v : Value} {p : Pattern}
    (h : likePattern field v = .ok p) : v.isScalar = true := by
  cases v with
  | str _ | int _ | float _ => rfl
  | null | bool _ | list _ | map _ => cases h

/-- A bound clause is refused for the value that it carries. -/
theorem refusal?_of_carries {field : String} {operator : Operator} {operand : Operand} {v : Value}
    (h : Carries (.compare field operator operand .placeholder) v) (schema : Schema) :
    refusal? schema (.compare field operator operand .placeholder) = schema.refusal? field v := by
  cases operator with
  | like =>
      obtain ⟨p, hp, rfl⟩ := h
      rw [Schema.refusal?, if_pos (isScalar_of_likePattern hp)]
      rfl
  | eq | ne | lt | le | gt | ge =>
      obtain rfl : operand = .value v := h
      rfl

/-! ### Bound values -/

/-- Storing the values that clauses carry fails at the leftmost clause that is refused.  Values that
no clause carries are not looked at. -/
theorem errorOf?_storeValues {s : Storage} (hs : s.backend = .relational) {clauses : List Clause}
    {used : List Value} (h : Binds clauses used) (dropped : List Value) :
    errorOf? (storeValues s (boundFields clauses) (used ++ dropped)) =
      clauses.findSome? (refusal? s.schema) := by
  induction clauses generalizing used with
  | nil => cases dropped <;> cases h <;> rfl
  | cons clause rest ih =>
      rw [List.findSome?_cons]
      by_cases hbound : isBound clause = true
      · obtain ⟨field, operator, operand, rfl⟩ := exists_compare_of_isBound hbound
        rw [Binds, List.filter_cons_of_pos hbound] at h
        cases h with
        | @cons _ v _ more hcarries hmore =>
            rw [boundFields, List.cons_append, storeValues, refusal?_of_carries hcarries,
              ← Storage.errorOf?_encodeField hs]
            cases s.encodeField field v with
            | error e => rfl
            | ok stored => exact (errorOf?_map _ _).trans (ih hmore)
      · have hunbound : isBound clause = false := Bool.eq_false_iff.mpr hbound
        rw [Binds, List.filter_cons_of_neg hbound] at h
        rw [refusal?_of_unbound hunbound, boundFields_of_unbound hunbound]
        exact ih h

/-- Scalars are stored as they are. -/
theorem storeValues_of_scalars {values : List Value} (h : values.all Value.isScalar = true)
    (s : Storage) (fields : List String) :
    storeValues s fields values = .ok (values.take fields.length) := by
  induction fields generalizing values with
  | nil => cases values <;> rfl
  | cons field rest ih =>
      cases values with
      | nil => rfl
      | cons v more =>
          rw [List.all_cons, Bool.and_eq_true] at h
          rw [storeValues, Storage.encodeField_of_scalar h.1, ih h.2]
          rfl

/-- The values of a filter can be stored unless one of its leaves is refused, and then the leftmost
of them is to blame.  Scalars are passed on without a look at the leaves, and rightly so. -/
theorem errorOf?_values (schema : Schema) {c : Condition} {t : Tree} {used dropped : List Value}
    (hvalues : c.values = used ++ dropped) (h : Binds t.leaves used) :
    errorOf? (values schema c t) = t.leaves.findSome? (refusal? schema) := by
  rw [← errorOf?_storeValues (s := { backend := .relational, schema }) rfl h dropped, ← hvalues,
    values]
  split
  · rename_i hscalars
    rw [storeValues_of_scalars hscalars]
    rfl
  · rfl

end Relational

/-! ## Filters -/

namespace Storage

variable {c : Condition}

theorem filterFor_of_error {e : Error} (h : c.parse = .error e) (s : Storage) :
    s.filterFor c = .error e := by
  rw [filterFor, h]

theorem filterFor_of_none (h : c.parse = .ok none) (s : Storage) : s.filterFor c = .ok none := by
  rw [filterFor, h]

theorem filterFor_of_tree {t : Tree} (h : c.parse = .ok (some t)) (s : Storage) :
    s.filterFor c = (s.filterOfTree c t).map some := by
  rw [filterFor, h]

end Storage
end RecordFilter
