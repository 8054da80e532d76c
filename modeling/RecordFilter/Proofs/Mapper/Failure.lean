/-
Operations that fail.  Whatever the engine does, a failed operation leaves the buffer, the mark that
a record is loaded and the initial values as they were, and a record of the caller too.  An
operation that is refused before the engine is asked makes no call, every other one that needs the
engine makes exactly the call that it requested.
-/
import RecordFilter.Mapper.Memory
import RecordFilter.Proofs.Mapper.Operation

namespace RecordFilter
namespace Mapper

variable {σ α : Type}

theorem settle_store (m : Mapper σ) (call : Call) (reply : call.Reply) :
    (settle m call reply).store = m.store := by
  rw [settle_eq]

theorem Edit.store_eq {m edited : Mapper σ} (h : m.Edit edited) : edited.store = m.store := by
  rw [h.mapper_eq]

namespace Follows

variable {m : Mapper σ} {step : Step σ α} {request : Except Error (Option Call)}

theorem mapper_of_failed (h : Follows m step request) {e : Error}
    (hfailed : step.result = .error e) : step.mapper = { m with store := step.mapper.store } := by
  cases h with
  | refused e hresult hmapper hcalls => rw [hmapper]
  | failed call e store hengine hresult hmapper hcalls => rw [hmapper]
  | answered call reply store hengine hresult hmapper hcalls => rw [hresult e hfailed]
  | kept hmapper hcalls => rw [hmapper]
  | edited hresult hedit hcalls => exact absurd hfailed (hresult e)

theorem of_refused {e : Error} (h : Follows m step (.error e)) :
    step.result = .error e ∧ step.mapper = m ∧ step.calls = [] := by
  cases h with
  | refused e hresult hmapper hcalls => exact ⟨hresult, hmapper, hcalls⟩

theorem of_requested {call : Call} (h : Follows m step (.ok (some call))) :
    step.calls = [call] ∧ step.mapper.store = (m.engine.perform call m.store).2 := by
  cases h with
  | failed call e store hengine hresult hmapper hcalls =>
      rw [hmapper, hengine]
      exact ⟨hcalls, rfl⟩
  | answered call reply store hengine hresult hmapper hcalls =>
      rw [hmapper, hengine, settle_store]
      exact ⟨hcalls, rfl⟩

theorem of_unasked (h : Follows m step (.ok none)) :
    step.calls = [] ∧ step.mapper.store = m.store := by
  cases h with
  | kept hmapper hcalls =>
      rw [hmapper]
      exact ⟨hcalls, rfl⟩
  | edited hresult hedit hcalls => exact ⟨hcalls, hedit.store_eq⟩

end Follows

namespace Operation

/-- An operation that doesn't need the engine requests no call, and is not refused either. -/
theorem usesEngine_eq_false_iff (m : Mapper σ) (op : Operation) :
    op.usesEngine = false ↔ op.request m = .ok none := by
  cases op with
  | find condition options | load condition options =>
      refine iff_of_false (fun h => nomatch h) fun h => ?_
      obtain ⟨filter, options, hrequest⟩ := exists_of_requestWithOptions h
      cases hrequest
  | count condition | erase condition =>
      refine iff_of_false (fun h => nomatch h) fun h => ?_
      obtain ⟨filter, hrequest⟩ := exists_of_requestWithFilter h
      cases hrequest
  | skip | first | last | insert => exact iff_of_false (fun h => nomatch h) fun h => nomatch h
  | update =>
      refine iff_of_false (fun h => nomatch h) fun h => ?_
      rw [request] at h
      split at h
      · cases h
      · cases h
  | set | get | cast | copyFrom | copyTo | contains | clear | isDry | reset =>
      exact iff_of_true rfl rfl

theorem hiveAfter_of_failed {m : Mapper σ} {op : Operation} {e : Error}
    (h : (op.step m).result = .error e) : op.hiveAfter m = op.hiveBefore := by
  cases op with
  | copyTo hive =>
      rw [hiveAfter, hiveBefore]
      cases hcopy : m.copyTo hive with
      | error e => rfl
      | ok written =>
          rw [step, answer, hcopy] at h
          cases h
  | _ => rfl

end Operation

/-- An operation that fails changes nothing but what the engine has changed by itself.  One that is
refused doesn't ask the engine, and one that isn't refused and needs the engine asks it once. -/
theorem step_failed (m : Mapper σ) (op : Operation) :
    (∀ e, (op.step m).result = .error e →
      (op.step m).mapper = { m with store := (op.step m).mapper.store } ∧
        op.hiveAfter m = op.hiveBefore) ∧
    (∀ e, op.request m = .error e →
      (op.step m).result = .error e ∧ (op.step m).mapper = m ∧ (op.step m).calls = []) ∧
    (op.usesEngine = true → (∀ e, op.request m ≠ .error e) →
      ∃ call, op.request m = .ok (some call) ∧ (op.step m).calls = [call] ∧
        (op.step m).mapper.store = (m.engine.perform call m.store).2) ∧
    (op.usesEngine = false →
      (op.step m).calls = [] ∧ (op.step m).mapper.store = m.store) := by
  have hfollows := follows_step m op
  refine ⟨?_, ?_, ?_, ?_⟩
  · intro e hfailed
    exact ⟨hfollows.mapper_of_failed hfailed, Operation.hiveAfter_of_failed hfailed⟩
  · intro e hrequest
    rw [hrequest] at hfollows
    exact hfollows.of_refused
  · intro huses hrefused
    cases hrequest : op.request m with
    | error e => exact absurd hrequest (hrefused e)
    | ok call? =>
        rw [hrequest] at hfollows
        cases call? with
        | none =>
            rw [(Operation.usesEngine_eq_false_iff m op).mpr hrequest] at huses
            cases huses
        | some call => exact ⟨call, rfl, hfollows.of_requested⟩
  · intro huses
    rw [(Operation.usesEngine_eq_false_iff m op).mp huses] at hfollows
    exact hfollows.of_unasked

/-- A mapper of titled records, and an engine that fails on the next call. -/
def shelf : Mapper Memory :=
  { storage :=
      { backend := .relational
        schema := .ofList [("title", { dataType := .text, initial := none, nullable := true })] }
    engine := Memory.engine
    store := { rows := [], cursor := none, failure := some "shelf is full" }
    initial := .empty
    current := .empty
    loaded := false }

/-- The first entry can be stored, the second one cannot. -/
def mixedHive : Row :=
  .ofList [("pages", .int 3), ("title", .list [])]

theorem step_failed_of_full_shelf :
    ((Operation.insert.step shelf).mapper =
        { shelf with store := (Operation.insert.step shelf).mapper.store } ∧
      ∃ call, Operation.insert.request shelf = .ok (some call) ∧
        (Operation.insert.step shelf).calls = [call]) ∧
    ((Operation.update.step shelf).result = .error (.engine "No record loaded to update") ∧
      (Operation.update.step shelf).calls = []) ∧
    (((Operation.copyFrom mixedHive).step shelf).mapper =
        { shelf with store := ((Operation.copyFrom mixedHive).step shelf).mapper.store } ∧
      ((Operation.copyFrom mixedHive).step shelf).calls = []) := by
  have hfull : (Operation.insert.step shelf).result = .error (.engine "shelf is full") := rfl
  have hdry : Operation.update.request shelf = .error (.engine "No record loaded to update") := rfl
  have hmixed : ((Operation.copyFrom mixedHive).step shelf).result =
      .error (.typeMismatch "title" "list") := by
    rfl
  obtain ⟨hinsert, _, hasked, _⟩ := step_failed shelf .insert
  obtain ⟨_, hrefused, _⟩ := step_failed shelf .update
  obtain ⟨hcopy, _, _, hunasked⟩ := step_failed shelf (.copyFrom mixedHive)
  obtain ⟨call, hcall, hcalls, _⟩ := hasked rfl fun e h => nomatch h
  obtain ⟨hresult, _, hnone⟩ := hrefused _ hdry
  exact ⟨⟨(hinsert _ hfull).1, call, hcall, hcalls⟩, ⟨hresult, hnone⟩,
    ⟨(hcopy _ hmixed).1, (hunasked rfl).1⟩⟩

end Mapper
end RecordFilter
