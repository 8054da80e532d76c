/-
Logs, followed note by note.  A step says which notes are in order in a state and which state they
lead to, and a trail is a log that is in order from its first note to its last one.

`Leads` is for the computations that keep a log.  Its lemmas go along a computation as it is
written, so that for each reader it is enough to say where every one of its notes leads.
-/
import RecordFilter.Bytewise.Logged

namespace RecordFilter
namespace Bytewise
namespace Serialized

variable {σ α β : Type} {step : σ → Activity → σ → Prop}

inductive Trail (step : σ → Activity → σ → Prop) : σ → List Activity → σ → Prop
  | nil {s : σ} : Trail step s [] s
  | cons {s s' s'' : σ} {activity : Activity} {log : List Activity}
      (hstep : step s activity s') (hrest : Trail step s' log s'') :
      Trail step s (activity :: log) s''

theorem Trail.append {s s' s'' : σ} {log more : List Activity} (hlog : Trail step s log s')
    (hmore : Trail step s' more s'') : Trail step s (log ++ more) s'' := by
  induction hlog with
  | nil => exact hmore
  | cons hstep _ ih => exact .cons hstep (ih hmore)

/-- From a state the log of a computation is a trail, and if there is a result, the state that the
trail leads to belongs to it. -/
def Leads (step : σ → Activity → σ → Prop) (s : σ) (x : Logged α) (ends : α → σ → Prop) : Prop :=
  ∃ s', Trail step s x.log s' ∧ ∀ a, x.result = .ok a → ends a s'

namespace Leads

variable {s s' : σ} {ends : α → σ → Prop}

theorem ok {a : α} (h : ends a s) : Leads step s (pure a) ends := by
  refine ⟨s, .nil, ?_⟩
  rintro _ ⟨⟩
  exact h

theorem error (stop : Stop SerializedFault) : Leads step s (Logged.quiet (.error stop)) ends :=
  ⟨s, .nil, fun _ h => nomatch h⟩

theorem bind {x : Logged α} {next : α → Logged β} {ends' : β → σ → Prop}
    (hx : Leads step s x ends) (hnext : ∀ a s', ends a s' → Leads step s' (next a) ends') :
    Leads step s (x >>= next) ends' := by
  obtain ⟨result, log⟩ := x
  obtain ⟨s', htrail, hends⟩ := hx
  cases result with
  | error stop => exact ⟨s', htrail, fun _ h => nomatch h⟩
  | ok a =>
      obtain ⟨s'', hmore, hends'⟩ := hnext a s' (hends a rfl)
      exact ⟨s'', htrail.append hmore, hends'⟩

theorem mono {x : Logged α} {ends' : α → σ → Prop} (hx : Leads step s x ends)
    (h : ∀ a s', ends a s' → ends' a s') : Leads step s x ends' := by
  obtain ⟨s', htrail, hends⟩ := hx
  exact ⟨s', htrail, fun a ha => h a s' (hends a ha)⟩

theorem quiet {x : Except (Stop SerializedFault) α} {next : α → Logged β} {ends : β → σ → Prop}
    (hnext : ∀ a, x = .ok a → Leads step s (next a) ends) :
    Leads step s (Logged.quiet x >>= next) ends := by
  cases x with
  | error stop => exact error stop
  | ok a => exact hnext a rfl

theorem note {activity : Activity} {next : Unit → Logged α} (hstep : step s activity s')
    (hnext : Leads step s' (next ()) ends) :
    Leads step s (Logged.note activity >>= next) ends := by
  obtain ⟨s'', htrail, hends⟩ := hnext
  exact ⟨s'', .cons hstep htrail, hends⟩

end Leads

end Serialized
end Bytewise
end RecordFilter
