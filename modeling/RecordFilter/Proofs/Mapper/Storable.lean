/-
Rows that can be stored: none of their fields is null if the configuration does not allow it to be,
and none is a list or a map if they go to a relational table.

The initial values and whatever is set have been through `storedValue`, which lets no other value
pass.  So if the engine answers with rows of this kind only, then the buffer holds such a row after
every operation, and such rows are all that the engine is handed to store.
-/
import RecordFilter.Mapper.Memory
import RecordFilter.Proofs.FieldMap
import RecordFilter.Proofs.Mapper.Operation

namespace RecordFilter

namespace Storage

/-- The field is configured not to take null. -/
def refusesNull (s : Storage) (field : String) : Bool :=
  match s.schema.get? field with
  | some conf => !conf.nullable
  | none => false

/-- A value that a field can have in storage. -/
def Takes (s : Storage) (field : String) (stored : Value) : Prop :=
  (s.refusesNull field = true → stored ≠ .null) ∧
    (s.backend = .relational → stored.isScalar = true)

instance (s : Storage) (field : String) (stored : Value) : Decidable (s.Takes field stored) :=
  inferInstanceAs (Decidable (_ ∧ _))

/-- What is stored for a value is the value, or else the text of an encoding. -/
theorem eq_or_str_of_encodeField {s : Storage} {field : String} {v stored : Value}
    (h : s.encodeField field v = .ok stored) :
    ((s.backend = .relational → v.isScalar = true) ∧ stored = v) ∨
      ∃ text, stored = .str text := by
  rw [encodeField] at h
  split at h
  · rename_i hplain
    cases h
    refine .inl ⟨?_, rfl⟩
    intro hbackend
    simpa [hbackend] using hplain
  · split at h
    · cases h
    · cases h
    · cases h
      exact .inr ⟨_, rfl⟩

end Storage

namespace Mapper

variable {σ α : Type}

/-! ## What is let through -/

theorem ne_null_of_checkNullable {s : Storage} {field : String} {v : Value}
    (h : checkNullable s.schema field v = .ok ()) (hfield : s.refusesNull field = true) :
    v ≠ .null := by
  rintro rfl
  rw [checkNullable] at h
  rw [Storage.refusesNull] at hfield
  split at h
  · rename_i conf hconf
    simp only [hconf] at hfield
    rw [hfield] at h
    cases h
  · rename_i hconf
    simp only [hconf] at hfield
    cases hfield

theorem takes_of_storedValue {s : Storage} {field : String} {v stored : Value}
    (h : storedValue s field v = .ok stored) : s.Takes field stored := by
  rw [storedValue] at h
  split at h
  · cases h
  · rename_i hcheck
    cases Storage.eq_or_str_of_encodeField h with
    | inl hsame =>
        obtain ⟨hscalar, rfl⟩ := hsame
        exact ⟨ne_null_of_checkNullable hcheck, hscalar⟩
    | inr htext =>
        obtain ⟨text, rfl⟩ := htext
        exact ⟨fun _ => Value.noConfusion, fun _ => rfl⟩

theorem takes_of_copyEntries {s : Storage} {entries : List (String × Value)} {row copied : Row}
    (h : copyEntries s entries row = .ok copied) (hrow : row.Forall s.Takes) :
    copied.Forall s.Takes := by
  induction entries generalizing row with
  | nil =>
      cases h
      exact hrow
  | cons entry rest ih =>
      rw [copyEntries] at h
      split at h
      · cases h
      · rename_i stored hstored
        exact ih h (hrow.insert (takes_of_storedValue hstored))

/-! ## The invariant -/

/-- The mapper keeps its records here.  Its buffer can be stored, and so could a fresh record. -/
structure Storable (storage : Storage) (m : Mapper σ) : Prop where
  storage_eq : m.storage = storage
  initial : m.initial.Forall storage.Takes
  current : m.current.Forall storage.Takes

theorem storable_of_create {storage : Storage} {engine : Engine σ} {store : σ} {m : Mapper σ}
    (h : create storage engine store = .ok m) : Storable storage m := by
  rw [create] at h
  split at h
  · cases h
  · rename_i initial hinitial
    cases h
    have htakes : initial.Forall storage.Takes :=
      FieldMap.forall_of_traverse hinitial fun _ _ _ => takes_of_storedValue
    exact ⟨rfl, htakes, htakes⟩

namespace Storable

variable {storage : Storage} {m : Mapper σ}

theorem withStore (h : Storable storage m) (store : σ) : Storable storage { m with store } :=
  ⟨h.storage_eq, h.initial, h.current⟩

theorem reset (h : Storable storage m) : Storable storage m.reset :=
  ⟨h.storage_eq, h.initial, h.initial⟩

theorem edit {edited : Mapper σ} (h : Storable storage m) (hedit : m.Edit edited) :
    Storable storage edited := by
  obtain ⟨rfl, hinitial, hcurrent⟩ := h
  cases hedit with
  | set hset =>
      obtain ⟨stored, hstored, rfl⟩ := set_eq_ok_iff.mp hset
      exact ⟨rfl, hinitial, hcurrent.insert (takes_of_storedValue hstored)⟩
  | copyFrom hcopy =>
      obtain ⟨row, hrow, rfl⟩ := copyFrom_eq_ok_iff.mp hcopy
      exact ⟨rfl, hinitial, takes_of_copyEntries hrow hcurrent⟩
  | clear field => exact ⟨rfl, hinitial, hcurrent.erase field⟩
  | reset => exact ⟨rfl, hinitial, hinitial⟩

theorem position (h : Storable storage m) {row : Option Row}
    (hrow : ∀ r ∈ row.toList, r.Forall storage.Takes) : Storable storage (m.position row) := by
  cases row with
  | none => exact h.reset
  | some r => exact ⟨h.storage_eq, h.initial, hrow r List.mem_cons_self⟩

theorem settle (h : Storable storage m) {call : Call} {reply : call.Reply}
    (hrows : ∀ row ∈ call.rows reply, row.Forall storage.Takes) :
    Storable storage (m.settle call reply) := by
  cases call with
  | find | count | update => exact h
  | insert => exact ⟨h.storage_eq, h.initial, h.current⟩
  | erase => exact h.reset
  | load | skip | first | last => exact h.position hrows

/-- One step: the buffer can still be stored if the engine's rows can be. -/
theorem step {step : Step σ α} {request : Except Error (Option Call)} (h : Storable storage m)
    (hfollows : Follows m step request)
    (hrows : ∀ row ∈ m.rowsFor request, row.Forall storage.Takes) :
    Storable storage step.mapper := by
  cases hfollows with
  | refused e hresult hmapper hcalls => exact hmapper ▸ h
  | failed call e store hengine hresult hmapper hcalls =>
      rw [hmapper]
      exact h.withStore store
  | answered call reply store hengine hresult hmapper hcalls =>
      rw [hmapper]
      rw [rowsFor, hengine] at hrows
      exact (h.withStore store).settle hrows
  | kept hmapper hcalls => exact hmapper ▸ h
  | edited hresult hedit hcalls => exact h.edit hedit

end Storable

/-! ## What is handed over -/

/-- Only the buffer is ever handed over to be stored. -/
theorem eq_current_of_written? {m : Mapper σ} {op : Operation} {call : Call} {row : Row}
    (hrequest : op.request m = .ok (some call)) (hrow : call.written? = some row) :
    row = m.current := by
  cases op with
  | find condition options | load condition options =>
      obtain ⟨filter, options, hcall⟩ := exists_of_requestWithOptions hrequest
      cases hcall
      cases hrow
  | count condition | erase condition =>
      obtain ⟨filter, hcall⟩ := exists_of_requestWithFilter hrequest
      cases hcall
      cases hrow
  | skip | first | last =>
      cases hrequest
      cases hrow
  | insert =>
      cases hrequest
      cases hrow
      rfl
  | update =>
      rw [Operation.request] at hrequest
      split at hrequest
      · cases hrequest
        cases hrow
        rfl
      · cases hrequest
  | set | get | cast | copyFrom | copyTo | contains | clear | isDry | reset => cases hrequest

theorem Follows.request_of_mem_calls {m : Mapper σ} {step : Step σ α}
    {request : Except Error (Option Call)} (h : Follows m step request) {call : Call}
    (hcall : call ∈ step.calls) : request = .ok (some call) := by
  cases h with
  | refused e hresult hmapper hcalls | kept hmapper hcalls | edited hresult hedit hcalls =>
      rw [hcalls] at hcall
      cases hcall
  | failed asked e store hengine hresult hmapper hcalls
  | answered asked reply store hengine hresult hmapper hcalls =>
      rw [hcalls, List.mem_singleton] at hcall
      rw [hcall]

/-- Along a run of a mapper whose engine only answers with rows that can be stored, the buffer can
be stored at all times, and so can every row that the engine is handed. -/
theorem takes_of_turns {storage : Storage} {engine : Engine σ} {store : σ} {m : Mapper σ}
    (hcreate : create storage engine store = .ok m) (ops : List Operation)
    (hrows : ∀ turn ∈ m.turns ops, ∀ row ∈ turn.rows, row.Forall storage.Takes) :
    m.current.Forall storage.Takes ∧
      ∀ turn ∈ m.turns ops, turn.after.current.Forall storage.Takes ∧
        ∀ call ∈ turn.calls, ∀ row, call.written? = some row → row.Forall storage.Takes := by
  have hstart : Storable storage m := storable_of_create hcreate
  have hstorable : ∀ turn ∈ m.turns ops,
      Storable storage turn.before ∧ Storable storage turn.after := by
    apply forall_turns hstart
    intro turn hturn hbefore
    exact hbefore.step (follows_step turn.before turn.operation) (hrows turn hturn)
  refine ⟨hstart.current, ?_⟩
  intro turn hturn
  obtain ⟨hbefore, hafter⟩ := hstorable turn hturn
  refine ⟨hafter.current, ?_⟩
  intro call hcall row hrow
  have hrequest := (follows_step turn.before turn.operation).request_of_mem_calls hcall
  rw [eq_current_of_written? hrequest hrow]
  exact hbefore.current

/-- Titles have to be there, tags are kept as JSON. -/
def cards : Storage :=
  { backend := .relational
    schema := .ofList
      [("tags", { dataType := .json, initial := none, nullable := true }),
        ("title", { dataType := .text, initial := some (.str "untitled"), nullable := false })] }

def cardRow : Row :=
  .ofList [("title", .str "first")]

/-- Loads a row, tags it and writes it back; then leaves the rows and inserts a fresh one. -/
def cardOps : List Operation :=
  [.load none none, .set "tags" (.list [.int 1]), .set "title" .null, .update, .skip 1, .insert]

theorem takes_of_turns_of_cards :
    ∃ m, create cards Memory.engine (.ofRows [cardRow]) = .ok m ∧
      (∀ turn ∈ m.turns cardOps, ∀ row ∈ turn.rows, row.Forall cards.Takes) ∧
      m.current.Forall cards.Takes ∧
      ∀ turn ∈ m.turns cardOps, turn.after.current.Forall cards.Takes ∧
        ∀ call ∈ turn.calls, ∀ row, call.written? = some row → row.Forall cards.Takes := by
  refine ⟨_, rfl, ?_, ?_⟩
  · decide +kernel
  · exact takes_of_turns rfl cardOps (by decide +kernel)

end Mapper
end RecordFilter
