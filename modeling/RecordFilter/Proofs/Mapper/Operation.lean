/-
What the operations of a mapper can do.  `Operation.request` is the call that an operation makes,
if it makes one, and `turns` what happens when one operation is performed after the other.

Operations that ask the engine are built from `ask`, `askWithFilter` and `askWithOptions`.  What any
operation can do is said once: `Follows` is a list of five cases, and `follows_step` shows that
there is no sixth.  Properties of all operations go through that list.
-/
import RecordFilter.Mapper.Operation

namespace RecordFilter

namespace Call

/-- The rows in an answer. -/
def rows : (call : Call) → call.Reply → List Row
  | find _ _, rows => rows
  | load _ _, row | skip _, row | first, row | last, row => row.toList
  | count _, _ | erase _, _ | insert _, _ | update _, _ => []

/-- The row that a call hands over to be stored. -/
def written? : Call → Option Row
  | insert row | update row => some row
  | find _ _ | load _ _ | skip _ | first | last | count _ | erase _ => none

end Call

namespace Mapper

variable {σ α : Type}

/-! ## What an operation asks for -/

def requestWithFilter (m : Mapper σ) (condition : Option Condition) (call : Option Filter → Call) :
    Except Error (Option Call) :=
  match (m.storage.prepareFilter condition).result with
  | .error e => .error e
  | .ok filter => .ok (some (call filter))

def requestWithOptions (m : Mapper σ) (condition : Option Condition)
    (options : Option QueryOptions) (call : Option Filter → Option BackendOptions → Call) :
    Except Error (Option Call) :=
  match (m.storage.prepareFilter condition).result with
  | .error e => .error e
  | .ok filter =>
      match m.storage.prepareOptions options with
      | .error e => .error e
      | .ok options => .ok (some (call filter options))

namespace Operation

/-- The call that an operation makes, none if it is one of those that do without the engine.  An
operation that cannot translate its condition or its options is refused, and so is an update that
has no record to write back to. -/
def request (m : Mapper σ) : Operation → Except Error (Option Call)
  | find condition options => m.requestWithOptions condition options .find
  | load condition options => m.requestWithOptions condition options .load
  | skip offset => .ok (some (.skip offset))
  | first => .ok (some .first)
  | last => .ok (some .last)
  | count condition => m.requestWithFilter condition .count
  | erase condition => m.requestWithFilter condition .erase
  | insert => .ok (some (.insert m.current))
  | update =>
      if m.loaded then .ok (some (.update m.current))
      else .error (.engine "No record loaded to update")
  | set _ _ | get _ | cast | copyFrom _ | copyTo _ | contains _ | clear _ | isDry | reset =>
      .ok none

/-- The operation needs the engine. -/
def usesEngine : Operation → Bool
  | find _ _ | load _ _ | skip _ | first | last | count _ | erase _ | insert | update => true
  | set _ _ | get _ | cast | copyFrom _ | copyTo _ | contains _ | clear _ | isDry | reset => false

end Operation

/-- The rows that the engine answers a request with. -/
def rowsFor (m : Mapper σ) : Except Error (Option Call) → List Row
  | .ok (some call) =>
      match (m.engine.perform call m.store).1 with
      | .ok reply => call.rows reply
      | .error _ => []
  | .ok none | .error _ => []

theorem exists_of_requestWithFilter {m : Mapper σ} {condition : Option Condition}
    {call : Option Filter → Call} {request : Option Call}
    (h : m.requestWithFilter condition call = .ok request) :
    ∃ filter, request = some (call filter) := by
  rw [requestWithFilter] at h
  split at h
  · cases h
  · rename_i filter _
    cases h
    exact ⟨filter, rfl⟩

theorem exists_of_requestWithOptions {m : Mapper σ} {condition : Option Condition}
    {options : Option QueryOptions} {call : Option Filter → Option BackendOptions → Call}
    {request : Option Call} (h : m.requestWithOptions condition options call = .ok request) :
    ∃ filter options, request = some (call filter options) := by
  rw [requestWithOptions] at h
  split at h
  · cases h
  · rename_i filter _
    split at h
    · cases h
    · rename_i options _
      cases h
      exact ⟨filter, options, rfl⟩

/-! ## The cases -/

/-- The mapper after an answer of the engine. -/
def settle (m : Mapper σ) : (call : Call) → call.Reply → Mapper σ
  | .find _ _, _ | .count _, _ | .update _, _ => m
  | .load _ _, row | .skip _, row | .first, row | .last, row => m.position row
  | .erase _, _ => m.reset
  | .insert _, _ => { m with loaded := true }

/-- A change of the buffer that needs no engine. -/
inductive Edit (m : Mapper σ) : Mapper σ → Prop
  | set {field : String} {v : Value} {edited : Mapper σ} (h : m.set field v = .ok edited) :
      Edit m edited
  | copyFrom {hive : Row} {edited : Mapper σ} (h : m.copyFrom hive = .ok edited) : Edit m edited
  | clear (field : String) : Edit m (m.clear field)
  | reset : Edit m m.reset

/-- What a step can do, by the call that it requests.  It is refused, or the engine fails, or it
goes on with the engine's answer; without a call it changes nothing, or it is an edit. -/
inductive Follows (m : Mapper σ) (step : Step σ α) : Except Error (Option Call) → Prop
  | refused (e : Error) (hresult : step.result = .error e) (hmapper : step.mapper = m)
      (hcalls : step.calls = []) : Follows m step (.error e)
  | failed (call : Call) (e : Error) (store : σ)
      (hengine : m.engine.perform call m.store = (.error e, store))
      (hresult : step.result = .error e) (hmapper : step.mapper = { m with store })
      (hcalls : step.calls = [call]) : Follows m step (.ok (some call))
  | answered (call : Call) (reply : call.Reply) (store : σ)
      (hengine : m.engine.perform call m.store = (.ok reply, store))
      (hresult : ∀ e, step.result = .error e → step.mapper = { m with store })
      (hmapper : step.mapper = settle { m with store } call reply)
      (hcalls : step.calls = [call]) : Follows m step (.ok (some call))
  | kept (hmapper : step.mapper = m) (hcalls : step.calls = []) : Follows m step (.ok none)
  | edited (hresult : ∀ e, step.result ≠ .error e) (hedit : m.Edit step.mapper)
      (hcalls : step.calls = []) : Follows m step (.ok none)

theorem follows_stop (m : Mapper σ) (e : Error) (events : List Event) :
    Follows m (m.stop e events : Step σ α) (.error e) :=
  .refused e rfl rfl rfl

section Asking

variable {m : Mapper σ} {events : List Event}

theorem ask_of_error {call : Call} {e : Error} {store : σ}
    (hengine : m.engine.perform call m.store = (.error e, store))
    (andThen : Mapper σ → call.Reply → Except Error α × Mapper σ × List Event) :
    m.ask events call andThen =
      { result := .error e, mapper := { m with store }, calls := [call], events } := by
  rw [ask, hengine]

theorem ask_of_ok {call : Call} {reply : call.Reply} {store : σ}
    (hengine : m.engine.perform call m.store = (.ok reply, store))
    (andThen : Mapper σ → call.Reply → Except Error α × Mapper σ × List Event) :
    m.ask events call andThen =
      { result := (andThen { m with store } reply).1
        mapper := (andThen { m with store } reply).2.1
        calls := [call]
        events := events ++ (andThen { m with store } reply).2.2 } := by
  rw [ask, hengine]

theorem follows_ask {call : Call}
    {andThen : Mapper σ → call.Reply → Except Error α × Mapper σ × List Event}
    (hsettle : ∀ m reply, (andThen m reply).2.1 = settle m call reply)
    (hfail : ∀ m reply e, (andThen m reply).1 = .error e → (andThen m reply).2.1 = m) :
    Follows m (m.ask events call andThen) (.ok (some call)) := by
  cases hengine : m.engine.perform call m.store with
  | mk result store =>
      cases result with
      | error e =>
          rw [ask_of_error hengine]
          exact .failed call e store hengine rfl rfl rfl
      | ok reply =>
          rw [ask_of_ok hengine]
          exact .answered call reply store hengine (hfail { m with store } reply)
            (hsettle { m with store } reply) rfl

theorem follows_askWithFilter {condition : Option Condition} {call : Option Filter → Call}
    {andThen : (filter : Option Filter) → Mapper σ → (call filter).Reply →
      Except Error α × Mapper σ × List Event}
    (hsettle : ∀ filter m reply, (andThen filter m reply).2.1 = settle m (call filter) reply)
    (hfail : ∀ filter m reply e, (andThen filter m reply).1 = .error e →
      (andThen filter m reply).2.1 = m) :
    Follows m (m.askWithFilter condition call andThen) (m.requestWithFilter condition call) := by
  rw [requestWithFilter, askWithFilter]
  cases hfilter : (m.storage.prepareFilter condition).result with
  | error e => exact follows_stop m e _
  | ok filter => exact follows_ask (hsettle filter) (hfail filter)

theorem follows_askWithOptions {condition : Option Condition} {options : Option QueryOptions}
    {call : Option Filter → Option BackendOptions → Call}
    {andThen : (filter : Option Filter) → (options : Option BackendOptions) → Mapper σ →
      (call filter options).Reply → Except Error α × Mapper σ × List Event}
    (hsettle : ∀ filter options m reply,
      (andThen filter options m reply).2.1 = settle m (call filter options) reply)
    (hfail : ∀ filter options m reply e, (andThen filter options m reply).1 = .error e →
      (andThen filter options m reply).2.1 = m) :
    Follows m (m.askWithOptions condition options call andThen)
      (m.requestWithOptions condition options call) := by
  rw [requestWithOptions, askWithOptions]
  cases hfilter : (m.storage.prepareFilter condition).result with
  | error e => exact follows_stop m e _
  | ok filter =>
      cases hoptions : m.storage.prepareOptions options with
      | error e => exact follows_stop m e _
      | ok options => exact follows_ask (hsettle filter options) (hfail filter options)

end Asking

theorem follows_adopt {m : Mapper σ} {change : Except Error (Mapper σ)}
    (hedit : ∀ edited, change = .ok edited → m.Edit edited) :
    Follows m (m.adopt change) (.ok none) := by
  cases change with
  | error e => exact .kept rfl rfl
  | ok edited =>
      refine .edited ?_ (hedit edited rfl) rfl
      intro e h
      cases h

theorem follows_moveTo {m : Mapper σ} {call : Call} {row : call.Reply → Option Row}
    (hsettle : ∀ (m : Mapper σ) reply, settle m call reply = m.position (row reply)) :
    Follows m (m.ask [] call fun m reply => m.moveTo (row reply)) (.ok (some call)) := by
  apply follows_ask
  · intro m reply
    exact (hsettle m reply).symm
  · intro m reply e h
    cases h

/-- Every operation does one of the five things. -/
theorem follows_step (m : Mapper σ) (op : Operation) : Follows m (op.step m) (op.request m) := by
  cases op with
  | find condition options =>
      exact follows_askWithOptions (fun _ _ _ _ => rfl) fun _ _ _ _ _ _ => rfl
  | load condition options =>
      exact follows_askWithOptions (fun _ _ _ _ => rfl) fun _ _ _ _ _ h => nomatch h
  | skip offset =>
      show Follows m (m.skip offset) (.ok (some (.skip offset)))
      exact follows_moveTo fun _ _ => rfl
  | first =>
      show Follows m m.first (.ok (some .first))
      exact follows_moveTo fun _ _ => rfl
  | last =>
      show Follows m m.last (.ok (some .last))
      exact follows_moveTo fun _ _ => rfl
  | count condition =>
      exact follows_askWithFilter (fun _ _ _ => rfl) fun _ _ _ _ _ => rfl
  | erase condition =>
      exact follows_askWithFilter (fun _ _ _ => rfl) fun _ _ _ _ h => nomatch h
  | insert =>
      show Follows m m.insert (.ok (some (.insert m.current)))
      exact follows_ask (fun _ _ => rfl) fun _ _ _ h => nomatch h
  | update =>
      rw [Operation.request, Operation.step, update]
      cases hloaded : m.loaded with
      | false => exact follows_stop m _ []
      | true =>
          show Follows m (m.ask [] (.update m.current) fun m _ => (.ok (), m, []))
            (.ok (some (.update m.current)))
          exact follows_ask (fun _ _ => rfl) fun _ _ _ _ => rfl
  | set field v => exact follows_adopt fun _ h => .set h
  | copyFrom hive => exact follows_adopt fun _ h => .copyFrom h
  | clear field =>
      show Follows m (m.adopt (.ok (m.clear field))) (.ok none)
      apply follows_adopt
      intro edited h
      cases h
      exact .clear field
  | reset =>
      show Follows m (m.adopt (.ok m.reset)) (.ok none)
      apply follows_adopt
      intro edited h
      cases h
      exact .reset
  | get field | cast | copyTo hive | contains field | isDry => exact .kept rfl rfl

/-! ## What stays as it is -/

theorem settle_eq (m : Mapper σ) (call : Call) (reply : call.Reply) :
    settle m call reply =
      { m with
        current := (settle m call reply).current
        loaded := (settle m call reply).loaded } := by
  cases call with
  | find | count | update | insert | erase => rfl
  | load | skip | first | last => cases reply <;> rfl

theorem set_eq_ok_iff {m edited : Mapper σ} {field : String} {v : Value} :
    m.set field v = .ok edited ↔ ∃ stored, storedValue m.storage field v = .ok stored ∧
      { m with current := m.current.insert field stored } = edited := by
  rw [set]
  cases storedValue m.storage field v with
  | error e => simp
  | ok stored => simp

theorem copyFrom_eq_ok_iff {m edited : Mapper σ} {hive : Row} :
    m.copyFrom hive = .ok edited ↔
      ∃ row, copyEntries m.storage hive.entries m.current = .ok row ∧
        { m with current := row } = edited := by
  rw [copyFrom]
  cases copyEntries m.storage hive.entries m.current with
  | error e => simp
  | ok row => simp

theorem Edit.mapper_eq {m edited : Mapper σ} (h : m.Edit edited) :
    edited = { m with current := edited.current, loaded := edited.loaded } := by
  cases h with
  | set h =>
      obtain ⟨stored, _, rfl⟩ := set_eq_ok_iff.mp h
      rfl
  | copyFrom h =>
      obtain ⟨row, _, rfl⟩ := copyFrom_eq_ok_iff.mp h
      rfl
  | clear field => rfl
  | reset => rfl

/-- No operation changes the configuration, the initial values or the way the engine works. -/
theorem Follows.mapper_eq {m : Mapper σ} {step : Step σ α} {request : Except Error (Option Call)}
    (h : Follows m step request) :
    step.mapper =
      { m with
        store := step.mapper.store
        current := step.mapper.current
        loaded := step.mapper.loaded } := by
  cases h with
  | refused e hresult hmapper hcalls => rw [hmapper]
  | failed call e store hengine hresult hmapper hcalls => rw [hmapper]
  | answered call reply store hengine hresult hmapper hcalls =>
      rw [hmapper, settle_eq]
  | kept hmapper hcalls => rw [hmapper]
  | edited hresult hedit hcalls => rw [hedit.mapper_eq]

/-! ## One operation after the other -/

/-- An operation, and the mapper that it is performed on. -/
structure Turn (σ : Type) where
  before : Mapper σ
  operation : Operation

namespace Turn

def step (turn : Turn σ) : Step σ turn.operation.Answer :=
  turn.operation.step turn.before

def after (turn : Turn σ) : Mapper σ :=
  turn.step.mapper

def calls (turn : Turn σ) : List Call :=
  turn.step.calls

/-- The rows that the engine answers with. -/
def rows (turn : Turn σ) : List Row :=
  turn.before.rowsFor (turn.operation.request turn.before)

end Turn

def turns (m : Mapper σ) : List Operation → List (Turn σ)
  | [] => []
  | op :: rest => { before := m, operation := op } :: turns (op.step m).mapper rest

/-- What holds at the start, and after every turn that it holds before, holds throughout. -/
theorem forall_turns {Inv : Mapper σ → Prop} {ops : List Operation} {m : Mapper σ} (hstart : Inv m)
    (hturn : ∀ turn ∈ m.turns ops, Inv turn.before → Inv turn.after) :
    ∀ turn ∈ m.turns ops, Inv turn.before ∧ Inv turn.after := by
  induction ops generalizing m with
  | nil =>
      intro turn h
      cases h
  | cons op rest ih =>
      rw [turns, List.forall_mem_cons] at hturn
      have hafter : Inv (op.step m).mapper := hturn.1 hstart
      intro turn hmem
      cases List.mem_cons.mp hmem with
      | inl heq =>
          subst heq
          exact ⟨hstart, hafter⟩
      | inr hrest => exact ih hafter hturn.2 turn hrest

end Mapper
end RecordFilter
