/-
What the record in the buffer has been through.  Loading and moving, inserting, erasing and
resetting give a verdict on it when they succeed: it has been loaded or saved, or it is fresh.  No
other operation does, and none that fails.

`Shows` is what a verdict comes with, and `shows_step` says that every operation keeps to it.  So
the last verdict of a run decides whether the buffer is dry, which is `loaded_run`.
-/
import RecordFilter.Proofs.Mapper.Failure
import RecordFilter.Proofs.Mapper.Storable

namespace RecordFilter
namespace Mapper

variable {σ α : Type}

/-! ## Verdicts -/

/-- What an operation that answers says about the record in the buffer: it has been loaded or saved,
or it is a fresh one.  Most operations say nothing about that. -/
def Operation.verdict : (op : Operation) → op.Answer → Option Bool
  | load _ _, found | skip _, found | first, found | last, found => some found
  | insert, _ => some true
  | erase _, _ | reset, _ => some false
  | find _ _, _ | count _, _ | update, _ | set _ _, _ | get _, _ | cast, _ | copyFrom _, _
  | copyTo _, _ | contains _, _ | clear _, _ | isDry, _ => none

def Turn.verdict (turn : Turn σ) : Option Bool :=
  match turn.step.result with
  | .ok answer => turn.operation.verdict answer
  | .error _ => none

/-- A mapper shows the verdict on a change.  Without one the mark stays as it was, and with the
verdict that the record is fresh the buffer holds the initial values. -/
structure Shows (m : Mapper σ) (verdict : Option Bool) (changed : Mapper σ) : Prop where
  loaded : changed.loaded = verdict.getD m.loaded
  current : verdict = some false → changed.current = m.initial

theorem shows_none {m changed : Mapper σ} (h : changed.loaded = m.loaded) :
    m.Shows none changed :=
  ⟨h, fun hfresh => nomatch hfresh⟩

theorem shows_reset (m : Mapper σ) : m.Shows (some false) m.reset :=
  ⟨rfl, fun _ => rfl⟩

theorem shows_position (m : Mapper σ) (row : Option Row) :
    m.Shows (some (m.position row).loaded) (m.position row) := by
  cases row with
  | none => exact m.shows_reset
  | some row =>
      refine ⟨rfl, ?_⟩
      intro hfresh
      cases hfresh

/-! ## Operations that succeed -/

section Asking

variable {m : Mapper σ} {answer : α}

theorem exists_of_ask {events : List Event} {call : Call}
    {andThen : Mapper σ → call.Reply → Except Error α × Mapper σ × List Event}
    (h : (m.ask events call andThen).result = .ok answer) :
    ∃ store reply, (andThen { m with store } reply).1 = .ok answer ∧
      (m.ask events call andThen).mapper = (andThen { m with store } reply).2.1 := by
  cases hengine : m.engine.perform call m.store with
  | mk result store =>
      cases result with
      | error e =>
          rw [ask_of_error hengine] at h
          cases h
      | ok reply =>
          rw [ask_of_ok hengine] at h ⊢
          exact ⟨store, reply, h, rfl⟩

theorem exists_of_askWithFilter {condition : Option Condition} {call : Option Filter → Call}
    {andThen : (filter : Option Filter) → Mapper σ → (call filter).Reply →
      Except Error α × Mapper σ × List Event}
    (h : (m.askWithFilter condition call andThen).result = .ok answer) :
    ∃ filter store reply, (andThen filter { m with store } reply).1 = .ok answer ∧
      (m.askWithFilter condition call andThen).mapper =
        (andThen filter { m with store } reply).2.1 := by
  rw [askWithFilter] at h ⊢
  cases hfilter : (m.storage.prepareFilter condition).result with
  | error e =>
      simp only [hfilter] at h
      cases h
  | ok filter =>
      simp only [hfilter] at h ⊢
      exact ⟨filter, exists_of_ask h⟩

theorem exists_of_askWithOptions {condition : Option Condition} {options : Option QueryOptions}
    {call : Option Filter → Option BackendOptions → Call}
    {andThen : (filter : Option Filter) → (options : Option BackendOptions) → Mapper σ →
      (call filter options).Reply → Except Error α × Mapper σ × List Event}
    (h : (m.askWithOptions condition options call andThen).result = .ok answer) :
    ∃ filter options' store reply, (andThen filter options' { m with store } reply).1 = .ok answer ∧
      (m.askWithOptions condition options call andThen).mapper =
        (andThen filter options' { m with store } reply).2.1 := by
  rw [askWithOptions] at h ⊢
  cases hfilter : (m.storage.prepareFilter condition).result with
  | error e =>
      simp only [hfilter] at h
      cases h
  | ok filter =>
      simp only [hfilter] at h ⊢
      cases hoptions : m.storage.prepareOptions options with
      | error e =>
          simp only [hoptions] at h
          cases h
      | ok options' =>
          simp only [hoptions] at h ⊢
          exact ⟨filter, options', exists_of_ask h⟩

/-- A move shows whether it ended on a row. -/
theorem shows_of_moveTo {store : σ} {row : Option Row} {found : Bool}
    (h : (({ m with store } : Mapper σ).moveTo row).1 = .ok found) :
    m.Shows (some found) (({ m with store } : Mapper σ).moveTo row).2.1 := by
  cases h
  have hshows := shows_position { m with store } row
  exact ⟨hshows.loaded, hshows.current⟩

end Asking

theorem shows_of_adopt {m : Mapper σ} {verdict : Option Bool} {change : Except Error (Mapper σ)}
    (h : (m.adopt change).result = .ok ())
    (hshows : ∀ changed, change = .ok changed → m.Shows verdict changed) :
    m.Shows verdict (m.adopt change).mapper := by
  cases change with
  | error e => cases h
  | ok changed => exact hshows changed rfl

/-- Every operation that succeeds shows its verdict. -/
theorem shows_step {m : Mapper σ} {op : Operation} {answer : op.Answer}
    (h : (op.step m).result = .ok answer) : m.Shows (op.verdict answer) (op.step m).mapper := by
  cases op with
  | find condition options =>
      obtain ⟨_, _, store, rows, _, hmapper⟩ := exists_of_askWithOptions h
      have hloaded := congrArg loaded hmapper
      exact shows_none hloaded
  | load condition options =>
      obtain ⟨_, _, store, row, hfound, hmapper⟩ := exists_of_askWithOptions h
      exact hmapper ▸ shows_of_moveTo hfound
  | skip offset =>
      obtain ⟨store, row, hfound, hmapper⟩ := exists_of_ask h
      exact hmapper ▸ shows_of_moveTo hfound
  | first =>
      obtain ⟨store, row, hfound, hmapper⟩ := exists_of_ask h
      exact hmapper ▸ shows_of_moveTo hfound
  | last =>
      obtain ⟨store, row, hfound, hmapper⟩ := exists_of_ask h
      exact hmapper ▸ shows_of_moveTo hfound
  | count condition =>
      obtain ⟨_, store, n, _, hmapper⟩ := exists_of_askWithFilter h
      have hloaded := congrArg loaded hmapper
      exact shows_none hloaded
  | erase condition =>
      obtain ⟨_, store, n, _, hmapper⟩ := exists_of_askWithFilter h
      exact ⟨congrArg loaded hmapper, fun _ => congrArg current hmapper⟩
  | insert =>
      obtain ⟨store, _, _, hmapper⟩ := exists_of_ask h
      exact ⟨congrArg loaded hmapper, fun hfresh => nomatch hfresh⟩
  | update =>
      rw [Operation.step, update] at h ⊢
      by_cases hloaded : m.loaded = true
      · rw [if_pos hloaded] at h ⊢
        obtain ⟨store, _, _, hmapper⟩ := exists_of_ask h
        have hsame := congrArg loaded hmapper
        exact shows_none hsame
      · rw [if_neg hloaded] at h
        cases h
  | set field v =>
      refine shows_of_adopt h fun changed hset => ?_
      obtain ⟨stored, _, rfl⟩ := set_eq_ok_iff.mp hset
      exact shows_none rfl
  | copyFrom hive =>
      refine shows_of_adopt h fun changed hcopy => ?_
      obtain ⟨row, _, rfl⟩ := copyFrom_eq_ok_iff.mp hcopy
      exact shows_none rfl
  | reset => exact m.shows_reset
  | clear field | get field | cast | copyTo hive | contains field | isDry => exact shows_none rfl

theorem Turn.shows (turn : Turn σ) : turn.before.Shows turn.verdict turn.after := by
  rw [Turn.verdict]
  cases hresult : turn.step.result with
  | ok answer => exact shows_step hresult
  | error e =>
      have hafter := (follows_step turn.before turn.operation).mapper_of_failed hresult
      have hloaded := congrArg loaded hafter
      exact shows_none hloaded

/-! ## Runs -/

/-- The mapper after one operation after the other. -/
def run (m : Mapper σ) : List Operation → Mapper σ
  | [] => m
  | op :: rest => run (op.step m).mapper rest

def verdicts (m : Mapper σ) (ops : List Operation) : List Bool :=
  (m.turns ops).filterMap Turn.verdict

/-- The last verdict of a run decides, and the mapper at the start if there is none. -/
theorem loaded_run (m : Mapper σ) (ops : List Operation) :
    (m.run ops).loaded = (m.verdicts ops).getLast?.getD m.loaded := by
  induction ops generalizing m with
  | nil => rfl
  | cons op rest ih =>
      have hshows := (Turn.mk m op).shows
      have hverdicts : m.verdicts (op :: rest) =
          (Turn.mk m op).verdict.toList ++ (op.step m).mapper.verdicts rest := by
        rw [verdicts, turns, List.filterMap_cons]
        cases (Turn.mk m op).verdict <;> rfl
      rw [run, ih, hverdicts]
      show ((op.step m).mapper.verdicts rest).getLast?.getD (Turn.mk m op).after.loaded = _
      rw [hshows.loaded, List.getLast?_append]
      cases ((op.step m).mapper.verdicts rest).getLast? <;> cases (Turn.mk m op).verdict <;> rfl

/-- An update is only asked for with a record that has been loaded or saved. -/
theorem loaded_of_request_update {m : Mapper σ} {op : Operation} {row : Row}
    (h : op.request m = .ok (some (.update row))) : m.loaded = true := by
  cases op with
  | find condition options | load condition options =>
      obtain ⟨filter, options, hcall⟩ := exists_of_requestWithOptions h
      cases hcall
  | count condition | erase condition =>
      obtain ⟨filter, hcall⟩ := exists_of_requestWithFilter h
      cases hcall
  | update =>
      rw [Operation.request] at h
      split at h
      · rename_i hloaded
        exact hloaded
      · cases h
  | skip | first | last | insert | set | get | cast | copyFrom | copyTo | contains | clear | isDry
  | reset => cases h

/-- Along a run the initial values stay what they were. -/
theorem initial_of_turns {m : Mapper σ} {ops : List Operation} :
    ∀ turn ∈ m.turns ops, turn.before.initial = m.initial := by
  have hboth : ∀ turn ∈ m.turns ops,
      turn.before.initial = m.initial ∧ turn.after.initial = m.initial := by
    refine @forall_turns _ (fun changed => changed.initial = m.initial) ops m rfl ?_
    intro turn _ hbefore
    have hafter := congrArg initial (follows_step turn.before turn.operation).mapper_eq
    exact hafter.trans hbefore
  intro turn hturn
  exact (hboth turn hturn).1

/-- A mapper has a record that was loaded or saved exactly if the last verdict of its run is that
one was.  The engine is asked for an update only then, and the verdict that the record is fresh
comes with the values that the mapper was created with. -/
theorem isDry_iff_verdicts {storage : Storage} {engine : Engine σ} {store : σ} {m : Mapper σ}
    (hcreate : create storage engine store = .ok m) (ops : List Operation) :
    ((m.run ops).isDry = false ↔ (m.verdicts ops).getLast? = some true) ∧
      ∃ defaults, (initialValues storage.schema).traverse (storedValue storage) = .ok defaults ∧
        ∀ turn ∈ m.turns ops,
          (∀ row, .update row ∈ turn.calls → turn.before.isDry = false) ∧
            (turn.verdict = some false → turn.after.current = defaults) := by
  rw [create] at hcreate
  split at hcreate
  · cases hcreate
  · rename_i defaults hdefaults
    cases hcreate
    refine ⟨?_, defaults, hdefaults, ?_⟩
    · rw [isDry, loaded_run, Bool.not_eq_false']
      cases (verdicts _ ops).getLast? <;> simp
    · intro turn hturn
      refine ⟨?_, ?_⟩
      · intro row hcall
        have hrequest := (follows_step turn.before turn.operation).request_of_mem_calls hcall
        rw [isDry, loaded_of_request_update hrequest]
        rfl
      · intro hfresh
        rw [turn.shows.current hfresh, initial_of_turns turn hturn]

/-- The buffer holds a loaded card, a fresh one after leaving the cards, and a saved one. -/
theorem isDry_iff_verdicts_of_cards :
    ∃ m, create cards Memory.engine (.ofRows [cardRow]) = .ok m ∧
      m.verdicts cardOps = [true, false, true] ∧ (m.run cardOps).isDry = false := by
  have hcreate : create cards Memory.engine (.ofRows [cardRow]) = .ok _ := rfl
  refine ⟨_, hcreate, by decide +kernel, ?_⟩
  exact (isDry_iff_verdicts hcreate cardOps).1.mpr (by decide +kernel)

end Mapper
end RecordFilter
