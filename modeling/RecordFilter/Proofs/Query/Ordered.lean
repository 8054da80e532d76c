/-
Whether a query is sorted.  The sort keys of an order stand between its commas, and flat files and
document databases sort if there is a key.  Relational tables take the order as it is written and
sort if it is not blank.  That is the same for every order but one of commas with nothing between
them: `prepareOptions_ordered`.
-/
import RecordFilter.Backend.Dispatch
import RecordFilter.Proofs.Query.SortKeys

namespace RecordFilter

namespace QueryOptions

/-! ## Orders without a key -/

/-- There is no order, or only blanks stand in it. -/
def BlankOrder (o : QueryOptions) : Prop :=
  o.order.all Text.allBlank = true

/-- There are commas in the order, and but for them only blanks. -/
def OnlyCommas (o : QueryOptions) : Prop :=
  ∃ text, o.order = some text ∧ ',' ∈ text.toList ∧
    ∀ c ∈ text.toList, c = ',' ∨ Text.isBlank c = true

theorem not_blankOrder_of_onlyCommas {o : QueryOptions} (h : o.OnlyCommas) : ¬ o.BlankOrder := by
  obtain ⟨text, horder, hcomma, _⟩ := h
  rw [BlankOrder, horder, Option.all_some, Text.allBlank, List.all_eq_true]
  intro hblank
  exact absurd (hblank ',' hcomma) (by decide)

theorem blankOrder_of_isEmpty {o : QueryOptions} (h : o.isEmpty = true) : o.BlankOrder := by
  rw [isEmpty, Bool.and_eq_true, Bool.and_eq_true] at h
  exact h.1.1

/-- An order has no entries if nothing but blanks stands around its commas. -/
theorem entries_eq_nil_iff {order : List Char} :
    entries order = [] ↔ ∀ c ∈ order, c = ',' ∨ Text.isBlank c = true := by
  have hentries : entries order = [] ↔
      ∀ part ∈ Text.splitOn (· == ',') order, part.all Text.isBlank = true := by
    simp [entries, List.filter_eq_nil_iff, Text.trim_eq_nil_iff]
  rw [hentries]
  constructor
  · intro hparts c hc
    by_cases hcomma : c = ','
    · exact Or.inl hcomma
    · have hsep : (c == ',') = false := by simpa using hcomma
      obtain ⟨part, hpart, hmem⟩ : ∃ part ∈ Text.splitOn (· == ',') order, c ∈ part :=
        Text.exists_mem_splitOn hc hsep
      exact Or.inr (List.all_eq_true.mp (hparts part hpart) c hmem)
  · intro hchars part hpart
    rw [List.all_eq_true]
    intro c hc
    obtain ⟨hnot, hmem⟩ := Text.mem_splitOn hpart hc
    rcases hchars c hmem with rfl | hblank
    · cases hnot
    · exact hblank

theorem length_sortKeys {parts : List (List Char)} {keys : List SortKey}
    (h : sortKeys parts = .ok keys) : keys.length = parts.length := by
  induction parts generalizing keys with
  | nil =>
      cases h
      rfl
  | cons entry rest ih =>
      rw [sortKeys] at h
      split at h
      · cases h
      · obtain ⟨more, hmore, rfl⟩ := map_eq_ok_iff.mp h
        rw [List.length_cons, List.length_cons, ih hmore]

/-- An order that can be read has no keys if it is blank, or has only commas in it. -/
theorem keys_eq_nil_iff {o : QueryOptions} {keys : List SortKey} (h : o.orderKeys = .ok keys) :
    keys = [] ↔ o.BlankOrder ∨ o.OnlyCommas := by
  rw [orderKeys] at h
  split at h
  · rename_i horder
    cases h
    exact ⟨fun _ => Or.inl (by rw [BlankOrder, horder]; rfl), fun _ => rfl⟩
  · rename_i text horder
    rw [← List.length_eq_zero_iff, length_sortKeys h, List.length_eq_zero_iff, entries_eq_nil_iff]
    rw [BlankOrder, horder, Option.all_some, Text.allBlank, List.all_eq_true]
    constructor
    · intro hchars
      by_cases hcomma : ',' ∈ text.toList
      · exact Or.inr ⟨text, horder, hcomma, hchars⟩
      · refine Or.inl fun c hc => (hchars c hc).resolve_left ?_
        rintro rfl
        exact hcomma hc
    · rintro (hblank | ⟨other, hother, _, hchars⟩) c hc
      · exact Or.inr (hblank c hc)
      · rw [horder] at hother
        cases hother
        exact hchars c hc

end QueryOptions

/-! ## The order of each backend -/

theorem FlatFile.options_ordered {o : QueryOptions} {keys : List SortKey}
    (h : o.orderKeys = .ok keys) :
    ∃ made, options o = .ok made ∧ (made.order.isSome = true ↔ keys ≠ []) := by
  rw [options, h]
  refine ⟨_, rfl, ?_⟩
  cases keys <;> simp [QueryOptions.withOrder]

theorem Document.options_ordered {o : QueryOptions} {keys : List SortKey}
    (h : o.orderKeys = .ok keys) :
    ∃ made, options o = .ok made ∧ (made.order.isSome = true ↔ keys ≠ []) := by
  rw [options, h]
  refine ⟨_, rfl, ?_⟩
  cases keys <;> simp [QueryOptions.withOrder]

/-- Relational tables do not look at the keys but at the order as it is written. -/
theorem Relational.options_ordered {o : QueryOptions} {keys : List SortKey}
    (h : o.orderKeys = .ok keys) :
    ∃ made, options o = .ok made ∧ (made.order.isSome = true ↔ ¬ o.BlankOrder) := by
  rw [options, h]
  refine ⟨_, rfl, ?_⟩
  rw [QueryOptions.withOrder, Option.isSome_map, QueryOptions.BlankOrder]
  cases o.order with
  | none => simp
  | some text =>
      have htrimmed : Text.trimmed text = "" ↔ Text.allBlank text = true := by
        rw [Text.trimmed, String.ofList_eq_empty_iff, Text.trim_eq_nil_iff, Text.allBlank]
      simp [htrimmed]

namespace Storage

theorem optionsFor_ordered {o : QueryOptions} {keys : List SortKey} (h : o.orderKeys = .ok keys)
    (s : Storage) :
    ∃ made, s.optionsFor o = .ok made ∧
      (made.order.isSome = true ↔ keys ≠ [] ∨ s.backend = .relational ∧ o.OnlyCommas) := by
  rw [optionsFor]
  cases hbackend : s.backend with
  | flatFile => simpa using FlatFile.options_ordered h
  | document => simpa using Document.options_ordered h
  | relational =>
      obtain ⟨made, hmade, hordered⟩ := Relational.options_ordered h
      refine ⟨made, hmade, hordered.trans ?_⟩
      rw [Ne, QueryOptions.keys_eq_nil_iff h]
      by_cases hcommas : o.OnlyCommas
      · simp [hcommas, QueryOptions.not_blankOrder_of_onlyCommas hcommas]
      · simp [hcommas]

/-- Empty options are not handed on, and an order that is not handed on is blank. -/
theorem exists_prepareOptions {o : QueryOptions} {keys : List SortKey} (h : o.orderKeys = .ok keys)
    (s : Storage) :
    ∃ made, s.prepareOptions (some o) = .ok made ∧
      ((made.bind BackendOptions.order).isSome = true ↔
        keys ≠ [] ∨ s.backend = .relational ∧ o.OnlyCommas) := by
  rw [prepareOptions]
  split
  · rename_i hempty
    have hblank := QueryOptions.blankOrder_of_isEmpty hempty
    have hnil := (QueryOptions.keys_eq_nil_iff h).mpr (Or.inl hblank)
    have hcommas : ¬ o.OnlyCommas :=
      fun hcommas => QueryOptions.not_blankOrder_of_onlyCommas hcommas hblank
    exact ⟨none, rfl, by simp [hnil, hcommas]⟩
  · obtain ⟨made, hmade, hordered⟩ := optionsFor_ordered h s
    exact ⟨some made, by rw [hmade]; rfl, hordered⟩

/-- Every backend takes options whose order can be read, and it sorts if there is a key to sort by.
Relational tables also sort by an order of nothing but commas, in which there is no key; so the
backends agree with the keys exactly but for that. -/
theorem prepareOptions_ordered {o : QueryOptions} {keys : List SortKey} (h : o.orderKeys = .ok keys)
    (s : Storage) :
    ∃ made, s.prepareOptions (some o) = .ok made ∧
      ((made.bind BackendOptions.order).isSome = true ↔
        keys ≠ [] ∨ s.backend = .relational ∧ o.OnlyCommas) ∧
      (((made.bind BackendOptions.order).isSome = true ↔ keys ≠ []) ↔
        ¬ (s.backend = .relational ∧ o.OnlyCommas)) := by
  obtain ⟨made, hmade, hordered⟩ := exists_prepareOptions h s
  refine ⟨made, hmade, hordered, ?_⟩
  rw [hordered]
  constructor
  · rintro hiff ⟨hbackend, hcommas⟩
    have hnil : keys = [] := (QueryOptions.keys_eq_nil_iff h).mpr (Or.inr hcommas)
    exact hiff.mp (Or.inr ⟨hbackend, hcommas⟩) hnil
  · intro hnot
    exact ⟨fun hsorted => hsorted.resolve_right hnot, Or.inl⟩

theorem prepareOptions_ordered_of_leading_comma :
    (QueryOptions.ordered ", x desc").orderKeys = .ok [{ field := "x", direction := .desc }] ∧
      ∀ backend, ∃ made,
        prepareOptions { backend, schema := .empty } (some (.ordered ", x desc")) = .ok made ∧
          (made.bind BackendOptions.order).isSome = true := by
  have hkeys : (QueryOptions.ordered ", x desc").orderKeys =
      .ok [{ field := "x", direction := .desc }] := by
    decide +kernel
  refine ⟨hkeys, fun backend => ?_⟩
  obtain ⟨made, hmade, hordered, _⟩ :=
    prepareOptions_ordered hkeys { backend, schema := .empty }
  exact ⟨made, hmade, hordered.mpr (Or.inl (List.cons_ne_nil _ _))⟩

/-- A comma alone is handed to a relational table as an order. -/
theorem not_ordered_iff_of_comma :
    ¬ ∀ (o : QueryOptions) (keys : List SortKey) (s : Storage), o.orderKeys = .ok keys →
      ∃ made, s.prepareOptions (some o) = .ok made ∧
        ((made.bind BackendOptions.order).isSome = true ↔ keys ≠ []) := by
  intro hall
  let comma : BackendOptions := { order := some (.expression ","), limit := none, offset := none }
  have hkeys : (QueryOptions.ordered ",").orderKeys = .ok [] := by decide +kernel
  have hcomma : prepareOptions { backend := .relational, schema := .empty } (some (.ordered ",")) =
      .ok (some comma) := by
    decide +kernel
  obtain ⟨made, hmade, hordered⟩ := hall _ _ { backend := .relational, schema := .empty } hkeys
  rw [hcomma] at hmade
  cases hmade
  exact hordered.mp rfl rfl

end Storage
end RecordFilter
