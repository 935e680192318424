import Mathlib.Algebra.Ring.Nat
import Naruto.Theory.Runs

/-!
# Forward simulation of runs

A concrete system is read through a view of its states. Each of its steps is
matched by the abstract events the step amounts to, possibly none. A whole
concrete run is then matched by the events of its steps, one after the other.
A weight that every step pays for bounds how many steps of a kind a run can take.
-/

namespace Naruto.Theory

variable {State Event View Action : Type*}

/-- The abstract events of a concrete run, those of each step in order. -/
def traced (step : State → Event → Option State) (amounts : State → Event → List Action) :
    State → List Event → List Action
  | _, [] => []
  | s, event :: events =>
    amounts s event ++ ((step s event).elim [] fun s' => traced step amounts s' events)

variable {step : State → Event → Option State} {abstract : View → Action → Option View}
  {amounts : State → Event → List Action}

/-- A run without events amounts to nothing. -/
@[simp] theorem traced_nil (s : State) : traced step amounts s [] = [] := rfl

/-- The trace of a step that is defined is what it amounts to, before the rest. -/
theorem traced_cons {s s' : State} {event : Event} (stepped : step s event = some s') (events : List Event) :
    traced step amounts s (event :: events) = amounts s event ++ traced step amounts s' events := by
  rw [traced, stepped, Option.elim_some]

/-- The simulation rule: when every step from a state of the invariant is matched
by the abstract events it amounts to, a run is matched by its trace. -/
theorem run_simulates (view : State → View) (Invariant : State → Prop)
    (preserved : ∀ s event s', Invariant s → step s event = some s' → Invariant s')
    (matched : ∀ s event s', Invariant s → step s event = some s' →
      run abstract (view s) (amounts s event) = some (view s'))
    (s last : State) (events : List Event) (start : Invariant s) (ran : run step s events = some last) :
    run abstract (view s) (traced step amounts s events) = some (view last) := by
  induction events generalizing s with
  | nil =>
    obtain rfl := Option.some.inj ran
    exact run_nil _
  | cons event events ih =>
    obtain ⟨s', stepped, rest⟩ := Option.bind_eq_some_iff.mp ran
    rw [traced_cons stepped, run_append, matched s event s' start stepped, Option.bind_some]
    exact ih s' (preserved s event s' start stepped) rest

/-- What holds of everything a step amounts to holds of the whole trace of a run. By induction
on the events, with an invariant of the steps. -/
theorem traced_forall (property : Action → Prop) (Invariant : State → Prop)
    (preserved : ∀ s event s', Invariant s → step s event = some s' → Invariant s')
    (each : ∀ s event s', Invariant s → step s event = some s' → ∀ action ∈ amounts s event, property action)
    (s last : State) (events : List Event) (start : Invariant s) (ran : run step s events = some last) :
    ∀ action ∈ traced step amounts s events, property action := by
  induction events generalizing s with
  | nil => exact nofun
  | cons event events ih =>
    obtain ⟨s', stepped, rest⟩ := Option.bind_eq_some_iff.mp ran
    intro action among
    rw [traced_cons stepped, List.mem_append] at among
    rcases among with here | later
    · exact each s event s' start stepped action here
    · exact ih s' (preserved s event s' start stepped) rest action later

/-- When every step costs something and earns what its event earns, a run costs no more
than what it starts with and what its events earn. -/
theorem run_within (weight : State → Nat) (cost earns : Event → Nat) (Invariant : State → Prop)
    (preserved : ∀ s event s', Invariant s → step s event = some s' → Invariant s')
    (paid : ∀ s event s', Invariant s → step s event = some s' →
      cost event + weight s' ≤ weight s + earns event)
    (s last : State) (events : List Event) (start : Invariant s) (ran : run step s events = some last) :
    (events.map cost).sum + weight last ≤ weight s + (events.map earns).sum := by
  induction events generalizing s with
  | nil =>
    obtain rfl := Option.some.inj ran
    simp
  | cons event events ih =>
    obtain ⟨s', stepped, rest⟩ := Option.bind_eq_some_iff.mp ran
    have here := paid s event s' start stepped
    have later := ih s' (preserved s event s' start stepped) rest
    simp only [List.map_cons, List.sum_cons]
    omega

end Naruto.Theory
