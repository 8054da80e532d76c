/-
One condition in front of every backend.  Whether a condition asks for anything, and whether it
can be read, is decided before a backend sees it, so the backends differ only in the clauses that
they refuse: `prepareFilter_alike`.

That a condition asks for nothing is decided twice, though.  A condition with a blank template is
not handed to a backend at all, while reading, and with it each backend when it is asked directly,
looks for tokens.  `prepareFilter_eq_none_iff` says that the two agree on all conditions but the
hollow ones, whose blanks are not all layout.
-/
import RecordFilter.Proofs.Backend.Refusal
import RecordFilter.Proofs.Condition.Binding
import RecordFilter.Proofs.Condition.Blank

namespace RecordFilter

namespace Condition

/-- A condition that is not blank asks for something. -/
theorem exists_tree_of_not_blank {c : Condition} {found : Option Tree}
    (hblank : c.isBlank = false) (h : c.parse = .ok found) : ∃ t, found = some t := by
  cases found with
  | some t => exact ⟨t, rfl⟩
  | none =>
      rw [isBlank, Text.allBlank, Template.all_isBlank_of_layout (parse_eq_none_iff.mp h)] at hblank
      cases hblank

end Condition

namespace Storage

/-- A blank condition is not translated. -/
theorem result_prepareFilter (s : Storage) (c : Condition) :
    (s.prepareFilter (some c)).result = if c.isBlank then .ok none else s.filterFor c := by
  rw [prepareFilter]
  split
  · rfl
  · cases s.filterFor c <;> rfl

theorem result_prepareFilter_of_not_blank {c : Condition} (h : c.isBlank = false) (s : Storage) :
    (s.prepareFilter (some c)).result = s.filterFor c := by
  rw [result_prepareFilter, h]
  rfl

/-! ## Failing alike -/

/-- A blank condition has no filter on any backend, and a condition that cannot be read fails with
the same error on all of them.  Any other condition has a filter for flat files; one for documents
unless a leaf is kept as it is or compared with a list or a map; and one for relational tables
unless a leaf was bound to a list or a map without a codec.  The leftmost such leaf is to blame. -/
theorem prepareFilter_alike (schema : Schema) (c : Condition) :
    let result := fun backend => (prepareFilter { backend, schema } (some c)).result
    (c.isBlank = true → ∀ backend, result backend = .ok none) ∧
      (c.isBlank = false →
        match c.parse with
        | .error e => ∀ backend, result backend = .error e
        | .ok none => False
        | .ok (some t) =>
            (∃ text values, result .flatFile = .ok (some (.expression text values))) ∧
              (match t.leaves.findSome? Document.refusal? with
                | some e => result .document = .error e
                | none => ∃ doc, result .document = .ok (some (.document doc))) ∧
              match t.leaves.findSome? (Relational.refusal? schema) with
              | some e => result .relational = .error e
              | none => ∃ values, result .relational = .ok (some (.template c.template values))) := by
  intro result
  refine ⟨fun hblank backend => ?_, fun hblank => ?_⟩
  · show (prepareFilter { backend, schema } (some c)).result = .ok none
    rw [result_prepareFilter, if_pos hblank]
  · have hresult : ∀ backend, result backend = filterFor { backend, schema } c :=
      fun backend => result_prepareFilter_of_not_blank hblank _
    cases hparse : c.parse with
    | error e => exact fun backend => (hresult backend).trans (filterFor_of_error hparse _)
    | ok found =>
        obtain ⟨t, rfl⟩ := Condition.exists_tree_of_not_blank hblank hparse
        obtain ⟨used, dropped, hvalues, hbinds⟩ := Condition.exists_binds_of_parse hparse
        have htree : ∀ backend,
            result backend = (filterOfTree { backend, schema } c t).map some :=
          fun backend => (hresult backend).trans (filterFor_of_tree hparse _)
        refine ⟨⟨_, _, htree .flatFile⟩, ?_, ?_⟩
        · rw [← Document.errorOf?_treeDocument, htree, filterOfTree]
          cases Document.treeDocument t with
          | error e => rfl
          | ok doc => exact ⟨doc, rfl⟩
        · rw [← Relational.errorOf?_values schema hvalues hbinds, htree, filterOfTree]
          cases Relational.values schema c t with
          | error e => rfl
          | ok values => exact ⟨values, rfl⟩

/-- A fragment that is kept as it is, and a comparison with a list. -/
def activeTags : Condition :=
  { template := "active AND tags = ?", values := [.list [.int 1]] }

/-- Without a configuration only flat files take the condition, and the other two blame different
leaves for it. -/
theorem prepareFilter_alike_of_activeTags :
    let result := fun backend =>
      (prepareFilter { backend, schema := .empty } (some activeTags)).result
    (∃ text values, result .flatFile = .ok (some (.expression text values))) ∧
      result .document = .error (.unsupportedClause "active") ∧
      result .relational = .error (.missingFieldConfiguration "tags") := by
  have hparse : activeTags.parse = .ok (some (.all [.leaf (.bare "active"),
      .leaf (.compare "tags" .eq (.value (.list [.int 1])) .placeholder)])) := rfl
  have halike := (prepareFilter_alike .empty activeTags).2 rfl
  rw [hparse] at halike
  exact halike

/-! ## Asking for nothing -/

theorem filterFor_eq_none_iff {s : Storage} {c : Condition} :
    s.filterFor c = .ok none ↔ c.parse = .ok none := by
  cases hparse : c.parse with
  | error e => simp [filterFor_of_error hparse]
  | ok found =>
      cases found with
      | none => simp [filterFor_of_none hparse]
      | some t =>
          rw [filterFor_of_tree hparse]
          refine iff_of_false ?_ (by simp)
          intro h
          obtain ⟨filter, _, heq⟩ := map_eq_ok_iff.mp h
          cases heq

/-- A condition has no filter on a backend exactly if its template is blank.  Reading, and each
backend by itself, finds none exactly if the template is layout.  So they agree unless the
condition is hollow; then no backend is asked for a filter, yet reading gives a clause without a
text, which no record meets, or misses placeholders for the bound values. -/
theorem prepareFilter_eq_none_iff (s : Storage) (c : Condition) :
    ((s.prepareFilter (some c)).result = .ok none ↔ c.isBlank = true) ∧
      (s.filterFor c = .ok none ↔ c.parse = .ok none) ∧
      (c.parse = .ok none ↔ c.template.toList.all Text.isLayout = true) ∧
      (((s.prepareFilter (some c)).result = .ok none ↔ c.parse = .ok none) ↔ ¬ c.Hollow) ∧
      (c.Hollow →
        (c.values = [] → c.parse = .ok (some (.leaf (.bare "")))) ∧
          (c.values ≠ [] → c.parse = .error (.placeholderMismatch 0 c.values.length)) ∧
          ∀ t, c.parse = .ok (some t) →
            ∀ {ρ : Type} [Record ρ] (record : ρ), t.holds record = false) := by
  have hblank : (s.prepareFilter (some c)).result = .ok none ↔ c.isBlank = true := by
    rw [result_prepareFilter]
    split
    · rename_i h
      simp [h]
    · rename_i h
      rw [filterFor_eq_none_iff]
      refine iff_of_false (fun hparse => ?_) h
      obtain ⟨t, ht⟩ := Condition.exists_tree_of_not_blank (Bool.eq_false_iff.mpr h) hparse
      cases ht
  refine ⟨hblank, filterFor_eq_none_iff, Condition.parse_eq_none_iff, ?_, fun hhollow =>
    ⟨Condition.parse_of_hollow hhollow, Condition.parse_of_hollow_of_ne hhollow,
      fun t hparse => Condition.holds_of_hollow hhollow hparse⟩⟩
  rw [hblank, Condition.parse_eq_none_iff, Condition.Hollow]
  cases hlayout : c.template.toList.all Text.isLayout with
  | true =>
      have hall : c.isBlank = true := Template.all_isBlank_of_layout hlayout
      simp [hall]
  | false => simp

/-- The vertical tab is blank and no layout. -/
def verticalTab : Condition :=
  { template := "\x0b", values := [] }

theorem prepareFilter_eq_none_iff_of_verticalTab :
    verticalTab.Hollow ∧ verticalTab.parse = .ok (some (.leaf (.bare ""))) := by
  have hhollow : verticalTab.Hollow := ⟨rfl, rfl⟩
  obtain ⟨_, _, _, _, hread⟩ :=
    prepareFilter_eq_none_iff { backend := .flatFile, schema := .empty } verticalTab
  exact ⟨hhollow, (hread hhollow).1 rfl⟩

/-- No backend is asked for a filter, and reading finds a clause. -/
theorem parse_ne_none_of_verticalTab :
    ¬ ∀ (s : Storage) (c : Condition),
      (s.prepareFilter (some c)).result = .ok none ↔ c.parse = .ok none := by
  intro hall
  have hparse := (hall { backend := .flatFile, schema := .empty } verticalTab).mp rfl
  rw [Condition.parse_of_hollow ⟨rfl, rfl⟩ rfl] at hparse
  cases hparse

end Storage
end RecordFilter
