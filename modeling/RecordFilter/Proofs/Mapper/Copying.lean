/-
Setting all fields of a record at once.  `copyFrom` does what setting the entries one by one does, in
the order of their names, except that it takes all of them or none: where an entry is refused, the
first such entry gives the error, and those in front of it are not kept either.

Copying goes from row to row and gives the mapper the last one, setting goes from mapper to mapper.
The run of the sets is followed entry by entry, by induction on the entries that are left.
-/
import RecordFilter.Proofs.Mapper.History

namespace RecordFilter
namespace Mapper

variable {σ : Type}

/-- Setting entries one after the other. -/
def sets (entries : List (String × Value)) : List Operation :=
  entries.map fun entry => .set entry.1 entry.2

/-- Nothing but the record in the buffer may be another one. -/
def SameBesidesBuffer (m changed : Mapper σ) : Prop :=
  changed = { m with current := changed.current }

namespace Turn

/-- The operation reports this error. -/
def Fails (turn : Turn σ) (e : Error) : Prop :=
  turn.step.result = .error e

def Succeeds (turn : Turn σ) : Prop :=
  ∀ e, ¬ turn.Fails e

end Turn

/-! ## One change of the buffer -/

theorem adopt_keeps {m : Mapper σ} {change : Except Error (Mapper σ)}
    (h : ∀ changed, change = .ok changed → m.SameBesidesBuffer changed) :
    m.SameBesidesBuffer (m.adopt change).mapper ∧ (m.adopt change).calls = [] := by
  cases change with
  | error e => exact ⟨rfl, rfl⟩
  | ok changed => exact ⟨h changed rfl, rfl⟩

theorem set_keeps (m : Mapper σ) (field : String) (v : Value) :
    m.SameBesidesBuffer ((Operation.set field v).step m).mapper ∧
      ((Operation.set field v).step m).calls = [] := by
  refine adopt_keeps fun changed hset => ?_
  obtain ⟨stored, _, rfl⟩ := set_eq_ok_iff.mp hset
  exact rfl

theorem copyFrom_keeps (m : Mapper σ) (hive : Row) :
    m.SameBesidesBuffer ((Operation.copyFrom hive).step m).mapper ∧
      ((Operation.copyFrom hive).step m).calls = [] := by
  refine adopt_keeps fun changed hcopy => ?_
  obtain ⟨row, _, rfl⟩ := copyFrom_eq_ok_iff.mp hcopy
  exact rfl

section

variable {m : Mapper σ} {field : String} {v : Value}

theorem fails_set {e : Error} (h : storedValue m.storage field v = .error e) :
    (Turn.mk m (.set field v)).Fails e := by
  have hset : m.set field v = .error e := by rw [set, h]
  exact congrArg (fun change => (m.adopt change).result) hset

theorem step_set {stored : Value} (h : storedValue m.storage field v = .ok stored) :
    (Operation.set field v).step m =
      Mapper.answer { m with current := m.current.insert field stored } (.ok ()) := by
  have hset : m.set field v = .ok { m with current := m.current.insert field stored } := by
    rw [set, h]
  exact congrArg m.adopt hset

theorem succeeds_set {stored : Value} (h : storedValue m.storage field v = .ok stored) :
    (Turn.mk m (.set field v)).Succeeds := by
  intro e hfails
  rw [Turn.Fails, Turn.step, step_set h] at hfails
  cases hfails

end

/-! ## One entry after the other -/

theorem turns_sets {m : Mapper σ} {field : String} {v stored : Value}
    (h : storedValue m.storage field v = .ok stored) (rest : List (String × Value)) :
    m.turns (sets ((field, v) :: rest)) = { before := m, operation := .set field v } ::
      turns { m with current := m.current.insert field stored } (sets rest) := by
  have hmapper := congrArg Step.mapper (step_set h)
  exact congrArg (fun changed => _ :: turns changed (sets rest)) hmapper

theorem run_sets {m : Mapper σ} {field : String} {v stored : Value}
    (h : storedValue m.storage field v = .ok stored) (rest : List (String × Value)) :
    m.run (sets ((field, v) :: rest)) =
      run { m with current := m.current.insert field stored } (sets rest) := by
  have hmapper := congrArg Step.mapper (step_set h)
  exact congrArg (fun changed => run changed (sets rest)) hmapper

/-- Where all entries are copied, each of them is set, and the row is the one in the buffer then. -/
theorem sets_of_copyEntries {entries : List (String × Value)} {m : Mapper σ} {row : Row}
    (h : copyEntries m.storage entries m.current = .ok row) :
    (∀ turn ∈ m.turns (sets entries), turn.Succeeds) ∧
      m.run (sets entries) = { m with current := row } := by
  induction entries generalizing m with
  | nil =>
      cases h
      exact ⟨List.forall_mem_nil _, rfl⟩
  | cons entry rest ih =>
      obtain ⟨field, v⟩ := entry
      rw [copyEntries] at h
      split at h
      · cases h
      · rename_i stored hstored
        obtain ⟨hsucceed, hrun⟩ := @ih { m with current := m.current.insert field stored } h
        rw [turns_sets hstored, run_sets hstored]
        exact ⟨List.forall_mem_cons.mpr ⟨succeeds_set hstored, hsucceed⟩, hrun⟩

/-- Where an entry is refused, setting it fails, and setting the entries in front of it succeeds. -/
theorem exists_of_copyEntries_error {entries : List (String × Value)} {m : Mapper σ} {e : Error}
    (h : copyEntries m.storage entries m.current = .error e) :
    ∃ front turn back, m.turns (sets entries) = front ++ turn :: back ∧ turn.Fails e ∧
      ∀ earlier ∈ front, earlier.Succeeds := by
  induction entries generalizing m with
  | nil => cases h
  | cons entry rest ih =>
      obtain ⟨field, v⟩ := entry
      rw [copyEntries] at h
      split at h
      · rename_i hrefused
        cases h
        exact ⟨[], _, _, rfl, fails_set hrefused, List.forall_mem_nil _⟩
      · rename_i stored hstored
        obtain ⟨front, turn, back, hturns, hfails, hfront⟩ :=
          @ih { m with current := m.current.insert field stored } h
        rw [turns_sets hstored, hturns]
        exact ⟨_ :: front, turn, back, rfl, hfails,
          List.forall_mem_cons.mpr ⟨succeeds_set hstored, hfront⟩⟩

/-- Setting changes nothing but the buffer, however many entries there are. -/
theorem turns_sets_keep (m : Mapper σ) (entries : List (String × Value)) :
    ∀ turn ∈ m.turns (sets entries), m.SameBesidesBuffer turn.after ∧ turn.calls = [] := by
  induction entries generalizing m with
  | nil => exact List.forall_mem_nil _
  | cons entry rest ih =>
      obtain ⟨hfirst, hcalls⟩ := set_keeps m entry.1 entry.2
      refine List.forall_mem_cons.mpr ⟨⟨hfirst, hcalls⟩, ?_⟩
      intro turn hturn
      obtain ⟨hafter, hnone⟩ := ih _ turn hturn
      rw [SameBesidesBuffer, hfirst] at hafter
      exact ⟨hafter, hnone⟩

/-- Copying a record into the buffer is setting its entries one by one as a whole.  It succeeds if
each of the sets does, and leaves the buffer that they leave; otherwise the error is that of the
first set that fails, and the buffer is what it was.  In either way nothing but the buffer is
changed, and the engine is not asked. -/
theorem copyFrom_eq_sets (m : Mapper σ) (hive : Row) :
    let copy : Turn σ := { before := m, operation := .copyFrom hive }
    let setting := m.turns (sets hive.entries)
    (copy.Succeeds ↔ ∀ turn ∈ setting, turn.Succeeds) ∧
    (copy.Succeeds → copy.after.current = (m.run (sets hive.entries)).current) ∧
    (∀ e, copy.Fails e → copy.after.current = m.current ∧
      ∃ front turn back, setting = front ++ turn :: back ∧ turn.Fails e ∧
        ∀ earlier ∈ front, earlier.Succeeds) ∧
    ∀ turn ∈ copy :: setting, m.SameBesidesBuffer turn.after ∧ turn.calls = [] := by
  have hkeep : ∀ turn ∈ Turn.mk m (.copyFrom hive) :: m.turns (sets hive.entries),
      m.SameBesidesBuffer turn.after ∧ turn.calls = [] :=
    List.forall_mem_cons.mpr ⟨copyFrom_keeps m hive, turns_sets_keep m hive.entries⟩
  cases hcopy : copyEntries m.storage hive.entries m.current with
  | ok row =>
      obtain ⟨hsucceed, hrun⟩ := sets_of_copyEntries hcopy
      have hstep : (Operation.copyFrom hive).step m =
          Mapper.answer { m with current := row } (.ok ()) :=
        congrArg m.adopt (copyFrom_eq_ok_iff.mpr ⟨row, hcopy, rfl⟩)
      have hsucceeds : (Turn.mk m (.copyFrom hive)).Succeeds := by
        intro e hfails
        rw [Turn.Fails, Turn.step, hstep] at hfails
        cases hfails
      refine ⟨iff_of_true hsucceeds hsucceed, ?_, fun e hfails => absurd hfails (hsucceeds e), hkeep⟩
      intro _
      rw [Turn.after, Turn.step, hstep, hrun]
      rfl
  | error e =>
      obtain ⟨front, turn, back, hturns, hfails, hfront⟩ := exists_of_copyEntries_error hcopy
      have hstep : (Operation.copyFrom hive).step m = m.answer (.error e) := by
        have hrefused : m.copyFrom hive = .error e := by rw [copyFrom, hcopy]
        exact congrArg m.adopt hrefused
      have hcopyFails : (Turn.mk m (.copyFrom hive)).Fails e :=
        congrArg Step.result hstep
      refine ⟨iff_of_false (fun h => h e hcopyFails) fun h => ?_, fun h => absurd hcopyFails (h e), ?_,
        hkeep⟩
      · refine h turn ?_ e hfails
        rw [hturns]
        exact List.mem_append_right front List.mem_cons_self
      · intro e' hfails'
        obtain rfl : e = e' := Except.error.inj (hcopyFails.symm.trans hfails')
        refine ⟨congrArg (fun step => step.mapper.current) hstep, ?_⟩
        exact ⟨front, turn, back, hturns, hfails, hfront⟩

end Mapper
end RecordFilter
