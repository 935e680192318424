import Mathlib.Data.List.Basic

/-!
# Runs of a partial step function

A system is a step function on states and events that may be undefined. A run is
a list of events. What a step preserves under a condition on the state and the
event, a run preserves when the condition holds before each of its steps.
-/

namespace Naruto.Theory

variable {State Event : Type*}

/-- The state after a list of events, when every step is defined. -/
def run (step : State → Event → Option State) : State → List Event → Option State
  | s, [] => some s
  | s, event :: events => (step s event).bind fun s' => run step s' events

/-- The condition holds before every step of the run. -/
def Along (step : State → Event → Option State) (condition : State → Event → Prop) :
    State → List Event → Prop
  | _, [] => True
  | s, event :: events => condition s event ∧ ∀ s', step s event = some s' → Along step condition s' events

variable {step : State → Event → Option State} {condition : State → Event → Prop}

/-- A run without events ends where it starts. -/
@[simp] theorem run_nil (s : State) : run step s [] = some s := rfl

/-- A run is its first step, and a run from there. -/
@[simp] theorem run_cons (s : State) (event : Event) (events : List Event) :
    run step s (event :: events) = (step s event).bind fun s' => run step s' events := rfl

/-- A run of two parts is the second part from where the first ends. -/
theorem run_append (s : State) (front back : List Event) :
    run step s (front ++ back) = (run step s front).bind fun s' => run step s' back := by
  induction front generalizing s with
  | nil => rfl
  | cons event front ih =>
    rw [List.cons_append, run_cons, run_cons, Option.bind_assoc]
    exact congrArg (Option.bind (step s event)) (funext fun s' => ih s')

/-- The last step of a run, split off. -/
theorem run_snoc (s last : State) (events : List Event) (event : Event)
    (ran : run step s (events ++ [event]) = some last) :
    ∃ s', run step s events = some s' ∧ step s' event = some last := by
  rw [run_append] at ran
  obtain ⟨s', first, rest⟩ := Option.bind_eq_some_iff.mp ran
  obtain ⟨s'', stepped, done⟩ := Option.bind_eq_some_iff.mp rest
  exact ⟨s', first, stepped.trans (congrArg some (Option.some.inj done))⟩

/-- The condition along a run of two parts holds along the first part, and along
the second from where the first ends. -/
theorem Along.append {s : State} {front back : List Event} (along : Along step condition s (front ++ back)) :
    Along step condition s front ∧
      ∀ s', run step s front = some s' → Along step condition s' back := by
  induction front generalizing s with
  | nil =>
    refine ⟨trivial, fun s' ran => ?_⟩
    obtain rfl := Option.some.inj ran
    exact along
  | cons event front ih =>
    obtain ⟨holds, later⟩ := along
    refine ⟨⟨holds, fun s' stepped => (ih (later s' stepped)).1⟩, fun s' ran => ?_⟩
    obtain ⟨middle, stepped, rest⟩ := Option.bind_eq_some_iff.mp ran
    exact (ih (later middle stepped)).2 s' rest

/-- A condition that can be decided before every step can be decided along a run. -/
instance Along.decidable [∀ s event, Decidable (condition s event)] :
    ∀ (s : State) (events : List Event), Decidable (Along step condition s events)
  | _, [] => isTrue trivial
  | s, event :: events =>
    match stepped : step s event with
    | none => decidable_of_iff (condition s event)
        ⟨fun holds => ⟨holds, fun _ other => by cases stepped.symm.trans other⟩, And.left⟩
    | some s' =>
      have := Along.decidable s' events
      decidable_of_iff (condition s event ∧ Along step condition s' events)
        ⟨fun both => ⟨both.1, fun _ other => Option.some.inj (stepped.symm.trans other) ▸ both.2⟩,
          fun along => ⟨along.1, along.2 s' stepped⟩⟩

/-- The invariant rule: what every step preserves under the condition, a run
preserves whose steps all meet it. -/
theorem run_invariant (Invariant : State → Prop)
    (preserved : ∀ s event s', Invariant s → condition s event → step s event = some s' → Invariant s')
    (s last : State) (events : List Event) (start : Invariant s) (along : Along step condition s events)
    (ran : run step s events = some last) : Invariant last := by
  induction events generalizing s with
  | nil =>
    obtain rfl := Option.some.inj ran
    exact start
  | cons event events ih =>
    obtain ⟨holds, later⟩ := along
    obtain ⟨s', stepped, rest⟩ := Option.bind_eq_some_iff.mp ran
    exact ih s' (preserved s event s' start holds stepped) (later s' stepped) rest

/-- A condition that always holds holds along every run. -/
theorem Along.of_forall (holds : ∀ s event, condition s event) (s : State) (events : List Event) :
    Along step condition s events := by
  induction events generalizing s with
  | nil => trivial
  | cons event events ih => exact ⟨holds s event, fun s' _ => ih s'⟩

/-- The invariant rule for what every step preserves. -/
theorem run_preserves (Invariant : State → Prop)
    (preserved : ∀ s event s', Invariant s → step s event = some s' → Invariant s')
    (s last : State) (events : List Event) (start : Invariant s) (ran : run step s events = some last) :
    Invariant last :=
  run_invariant Invariant (fun s event s' inv (_ : True) stepped => preserved s event s' inv stepped) s last events
    start (Along.of_forall (fun _ _ => trivial) s events) ran

/-- Two conditions that agree on the states of an invariant, which steps preserve as long as
the first one holds, hold along the same runs. -/
theorem Along.congr_while {other : State → Event → Prop} (Invariant : State → Prop)
    (preserved : ∀ s event s', Invariant s → condition s event → step s event = some s' → Invariant s')
    (same : ∀ s event, Invariant s → (condition s event ↔ other s event)) (s : State) (events : List Event)
    (start : Invariant s) : Along step condition s events ↔ Along step other s events := by
  induction events generalizing s with
  | nil => exact Iff.rfl
  | cons event events ih =>
    have here := same s event start
    constructor
    · rintro ⟨holds, later⟩
      exact ⟨here.mp holds, fun s' stepped => (ih s' (preserved s event s' start holds stepped)).mp (later s' stepped)⟩
    · rintro ⟨holds, later⟩
      have holds' := here.mpr holds
      exact ⟨holds', fun s' stepped => (ih s' (preserved s event s' start holds' stepped)).mpr (later s' stepped)⟩

/-- Two conditions that agree on the states of an invariant hold along the same runs. -/
theorem Along.congr_of_invariant {other : State → Event → Prop} (Invariant : State → Prop)
    (preserved : ∀ s event s', Invariant s → step s event = some s' → Invariant s')
    (same : ∀ s event, Invariant s → (condition s event ↔ other s event)) (s : State) (events : List Event)
    (start : Invariant s) : Along step condition s events ↔ Along step other s events :=
  Along.congr_while Invariant (fun s event s' inv _ stepped => preserved s event s' inv stepped) same s events start

/-- The rule for steps that the invariant and the condition also make possible:
the run exists, and the invariant holds at its end. -/
theorem run_progress (Invariant : State → Prop)
    (preserved : ∀ s event, Invariant s → condition s event → ∃ s', step s event = some s' ∧ Invariant s')
    (s : State) (events : List Event) (start : Invariant s) (along : Along step condition s events) :
    ∃ last, run step s events = some last ∧ Invariant last := by
  induction events generalizing s with
  | nil => exact ⟨s, rfl, start⟩
  | cons event events ih =>
    obtain ⟨holds, later⟩ := along
    obtain ⟨s', stepped, kept⟩ := preserved s event start holds
    obtain ⟨last, ran, done⟩ := ih s' kept (later s' stepped)
    exact ⟨last, by rw [run_cons, stepped]; exact ran, done⟩

end Naruto.Theory
