/-
What a filter depends on.  A tree names fields, and it holds for a record on account of some that
the record has.  So more fields never turn it away, which is `Tree.holds_mono`, and a tree of a
condition holds for no record that lacks them all: a conjunction without children would, but
reading makes none.  `Condition.holds_of_fields` puts this together.
-/
import RecordFilter.Evaluation
import RecordFilter.Proofs.Condition.Leaves
import RecordFilter.Proofs.Grouping.Nesting

namespace RecordFilter

section
variable {ρ σ : Type} [Record ρ] [Record σ]

/-- As far as the fields of these names go, the second record has what the first one has. -/
def Record.Extends (names : List String) (r : ρ) (s : σ) : Prop :=
  ∀ name ∈ names, ∀ v, Record.field? r name = some v → Record.field? s name = some v

theorem Record.Extends.mono {names fewer : List String} {r : ρ} {s : σ}
    (h : Record.Extends names r s) (hsubset : fewer ⊆ names) : Record.Extends fewer r s :=
  fun name hname => h name (hsubset hname)

/-! ## Clauses -/

namespace Clause

/-- The fields that a clause asks a record for.  A fragment asks for one if it is a field name. -/
def named : Clause → List String
  | .compare field _ _ _ => [field]
  | .fields left _ right => [left, right]
  | .bare text => if isIdentifier text.toList then [text] else []

theorem named_bare {text : String} (h : isIdentifier text.toList = true) :
    named (.bare text) = [text] :=
  if_pos h

variable {r : ρ} {s : σ}

theorem exists_of_holds_compare {field : String} {operator : Operator} {operand : Operand}
    {source : Source} (h : holds r (.compare field operator operand source) = true) :
    ∃ v, Record.field? r field = some v ∧ operand.holdsFor operator v = true := by
  rw [holds] at h
  split at h
  · rename_i v hv
    exact ⟨v, hv, h⟩
  · cases h

theorem exists_of_holds_fields {left right : String} {operator : Operator}
    (h : holds r (.fields left operator right) = true) :
    ∃ v w, Record.field? r left = some v ∧ Record.field? r right = some w ∧
      operator.holds v w = true := by
  rw [holds] at h
  split at h
  · rename_i v w hv hw
    exact ⟨v, w, hv, hw, h⟩
  · cases h

theorem exists_of_holds_bare {text : String} (h : holds r (.bare text) = true) :
    isIdentifier text.toList = true ∧
      ∃ v, Record.field? r text = some v ∧ v.isTruthy = true := by
  rw [holds, Bool.and_eq_true, Option.any_eq_true] at h
  exact h

/-- A clause that holds asks for a field that is there. -/
theorem exists_named_of_holds {clause : Clause} (h : clause.holds r = true) :
    ∃ name ∈ clause.named, Record.field? r name ≠ none := by
  cases clause with
  | compare field operator operand source =>
      obtain ⟨v, hv, _⟩ := exists_of_holds_compare h
      exact ⟨field, List.mem_singleton_self field, by simp [hv]⟩
  | fields left operator right =>
      obtain ⟨v, _, hv, _, _⟩ := exists_of_holds_fields h
      exact ⟨left, List.mem_cons_self, by simp [hv]⟩
  | bare text =>
      obtain ⟨hname, v, hv, _⟩ := exists_of_holds_bare h
      rw [named_bare hname]
      exact ⟨text, List.mem_singleton_self text, by simp [hv]⟩

theorem holds_mono {clause : Clause} (hextends : Record.Extends clause.named r s)
    (h : clause.holds r = true) : clause.holds s = true := by
  cases clause with
  | compare field operator operand source =>
      obtain ⟨v, hv, hholds⟩ := exists_of_holds_compare h
      have hs := hextends field (List.mem_singleton_self field) v hv
      rw [holds, hs]
      exact hholds
  | fields left operator right =>
      obtain ⟨v, w, hv, hw, hholds⟩ := exists_of_holds_fields h
      have hleft := hextends left List.mem_cons_self v hv
      have hright := hextends right (by simp [named]) w hw
      rw [holds, hleft, hright]
      exact hholds
  | bare text =>
      obtain ⟨hname, v, hv, htruthy⟩ := exists_of_holds_bare h
      rw [named_bare hname] at hextends
      have hs := hextends text (List.mem_singleton_self text) v hv
      rw [holds, hname, hs]
      exact htruthy

end Clause

/-! ## Trees -/

namespace Tree

/-- The fields that the clauses of a tree ask for. -/
def named (t : Tree) : List String :=
  t.leaves.flatMap Clause.named

theorem mem_leavesOf {ts : List Tree} {clause : Clause} :
    clause ∈ leavesOf ts ↔ ∃ t ∈ ts, clause ∈ t.leaves := by
  induction ts with
  | nil => simp [leavesOf]
  | cons t rest ih => simp [leavesOf, ih]

theorem allHold_iff {r : ρ} {ts : List Tree} :
    allHold r ts = true ↔ ∀ t ∈ ts, t.holds r = true := by
  induction ts with
  | nil => simp [allHold]
  | cons t rest ih => rw [allHold, Bool.and_eq_true, ih, List.forall_mem_cons]

theorem anyHolds_iff {r : ρ} {ts : List Tree} :
    anyHolds r ts = true ↔ ∃ t ∈ ts, t.holds r = true := by
  induction ts with
  | nil => simp [anyHolds]
  | cons t rest ih => simp [anyHolds, ih]

variable {r : ρ} {s : σ}

/-- A tree goes on to hold if every clause that holds does. -/
theorem holds_mono_of_leaves {t : Tree}
    (hleaves : ∀ clause ∈ t.leaves, clause.holds r = true → clause.holds s = true)
    (h : t.holds r = true) : t.holds s = true := by
  induction t using Tree.induction with
  | leaf clause => exact hleaves clause (List.mem_singleton_self clause) h
  | all children ih =>
      rw [holds, allHold_iff] at h ⊢
      intro t ht
      exact ih t ht (fun clause hclause => hleaves clause (mem_leavesOf.mpr ⟨t, ht, hclause⟩))
        (h t ht)
  | any children ih =>
      rw [holds, anyHolds_iff] at h ⊢
      obtain ⟨t, ht, hholds⟩ := h
      exact ⟨t, ht, ih t ht
        (fun clause hclause => hleaves clause (mem_leavesOf.mpr ⟨t, ht, hclause⟩)) hholds⟩

theorem holds_mono {t : Tree} (hextends : Record.Extends t.named r s) (h : t.holds r = true) :
    t.holds s = true := by
  refine holds_mono_of_leaves (fun clause hclause => Clause.holds_mono ?_) h
  exact hextends.mono fun name hname => List.mem_flatMap.mpr ⟨clause, hclause, hname⟩

/-- A tree does not tell records apart that agree on the fields it names. -/
theorem holds_congr {t : Tree}
    (h : ∀ name ∈ t.named, Record.field? r name = Record.field? s name) :
    t.holds r = t.holds s := by
  rw [Bool.eq_iff_iff]
  constructor
  · exact holds_mono fun name hname v hv => (h name hname).symm.trans hv
  · exact holds_mono fun name hname v hv => (h name hname).trans hv

/-- If every composite node has a child, then a tree that holds has a leaf that does. -/
theorem exists_leaf_of_holds {t : Tree} (hbranches : t.Branches 1) (h : t.holds r = true) :
    ∃ clause ∈ t.leaves, clause.holds r = true := by
  induction t using Tree.induction with
  | leaf clause => exact ⟨clause, List.mem_singleton_self clause, h⟩
  | all children ih =>
      rw [Branches, branchesOf_iff] at hbranches
      rw [holds, allHold_iff] at h
      obtain ⟨t, ht⟩ := List.exists_mem_of_length_pos hbranches.1
      obtain ⟨clause, hclause, hholds⟩ := ih t ht (hbranches.2 t ht) (h t ht)
      exact ⟨clause, mem_leavesOf.mpr ⟨t, ht, hclause⟩, hholds⟩
  | any children ih =>
      rw [Branches, branchesOf_iff] at hbranches
      rw [holds, anyHolds_iff] at h
      obtain ⟨t, ht, hholds⟩ := h
      obtain ⟨clause, hclause, hholds⟩ := ih t ht (hbranches.2 t ht) hholds
      exact ⟨clause, mem_leavesOf.mpr ⟨t, ht, hclause⟩, hholds⟩

theorem exists_named_of_holds {t : Tree} (hbranches : t.Branches 1) (h : t.holds r = true) :
    ∃ name ∈ t.named, Record.field? r name ≠ none := by
  obtain ⟨clause, hclause, hholds⟩ := exists_leaf_of_holds hbranches h
  obtain ⟨name, hname, hfield⟩ := Clause.exists_named_of_holds hholds
  exact ⟨name, List.mem_flatMap.mpr ⟨clause, hclause, hname⟩, hfield⟩

end Tree
end

/-! ## Conditions -/

namespace Condition

/-- The tree of a condition asks for the fields that it names and for no other, holds for no record
that has none of them, and goes on to hold when a record gets fields that it did not have. -/
theorem holds_of_fields {c : Condition} {t : Tree} (h : c.parse = .ok (some t)) {ρ σ : Type}
    [Record ρ] [Record σ] (r : ρ) (s : σ) :
    ((∀ name ∈ t.named, Record.field? r name = Record.field? s name) → t.holds r = t.holds s) ∧
      ((∀ name ∈ t.named, Record.field? r name = none) → t.holds r = false) ∧
      (Record.Extends t.named r s → t.holds r = true → t.holds s = true) := by
  refine ⟨Tree.holds_congr, ?_, Tree.holds_mono⟩
  intro habsent
  rw [← Bool.not_eq_true]
  intro hholds
  obtain ⟨name, hname, hfield⟩ := Tree.exists_named_of_holds (branches_of_parse h) hholds
  exact hfield (habsent name hname)

/-- Inequality does not hold with a field that is absent, either. -/
theorem holds_of_fields_of_empty_row :
    ∃ t, parse ⟨"a <> ? AND (b <> c OR d)", [.null]⟩ = .ok (some t) ∧
      t.named = ["a", "b", "c", "d"] ∧ t.holds (∅ : Std.HashMap String Value) = false := by
  have hparse : parse ⟨"a <> ? AND (b <> c OR d)", [.null]⟩ = .ok (some (.all
      [.leaf (.compare "a" .ne (.value .null) .placeholder),
        .any [.leaf (.fields "b" .ne "c"), .leaf (.bare "d")]])) := rfl
  refine ⟨_, hparse, by decide, ?_⟩
  obtain ⟨_, habsent, _⟩ := holds_of_fields hparse (∅ : Std.HashMap String Value)
    (∅ : Std.HashMap String Value)
  exact habsent fun name _ => Std.HashMap.getElem?_empty

end Condition
end RecordFilter
