import Naruto.Theory.Barrier

/-!
# Starting and stopping the server

The main thread creates the workers and waits until each has counted itself in
`init_success_workers`; then it runs its loop. On a signal it clears
`exit_success_workers`, tells every worker to stop and waits until each has counted
itself there. Both waits are on one mutex and one condition variable, and each is a
counted barrier. The callbacks that one iteration of the loop has found are all made,
also behind a `break_loop`, which is libev's rule: when it has found both signals, the
second `onSignal` clears the counter behind workers that are gone.

The callbacks of a worker's loop are taken to return. One that stays in `::recv`, behind the
first half of a packet say, never lets its worker come to `onStopAsync`. `worker_num` is
positive: it is twice the number of processors less one.
-/

namespace Naruto.Server

open Naruto.Theory

/-- The signals with a watcher that can be caught. -/
inductive Signal
  | sigint
  | sigterm
deriving DecidableEq, Repr

/-- A worker's thread: not created, in the first section of `run` under `mux`, in its loop,
and in the second section. -/
inductive Worker
  | unborn
  | init (party : Party)
  | loop
  | exit (party : Party)
deriving DecidableEq, Repr

/-- The main thread: in `_init_workers`, before the creation of a worker and at the wait; in
its loop; in `onSignal`, before the stop of a worker and at the wait; behind the loop. -/
inductive MainThread
  | create (j : Nat)
  | init (wait : Waiter)
  | loop
  | stop (i : Nat)
  | exit (wait : Waiter)
  | finished
deriving DecidableEq, Repr

/-- The counters, `mux` with its holder (the main thread is none of the workers), the two
kinds of threads, the stop watchers that were sent; and of the main loop the callbacks that
are left in the iteration, whether it is broken, and the signals that have come and those
whose watcher is started. -/
structure Lifecycle (workerNum : Nat) where
  initSuccessWorkers : Nat
  exitSuccessWorkers : Nat
  mux : Option (Option (Fin workerNum))
  main : MainThread
  workers : Fin workerNum → Worker
  stopAsync : Fin workerNum → Bool
  pending : List Signal
  broken : Bool
  raised : Signal → Bool
  watched : Signal → Bool

variable {workerNum : Nat}

namespace Lifecycle

/-- A step of the main thread or of a worker, a wake-up of the main thread without a
notification, or a signal. -/
inductive Event (workerNum : Nat)
  | main
  | worker (i : Fin workerNum)
  | spurious
  | raise (signal : Signal)
deriving DecidableEq, Repr

/-- A worker's thread is somewhere else. -/
def setWorker (s : Lifecycle workerNum) (i : Fin workerNum) (w : Worker) : Lifecycle workerNum :=
  { s with workers := Function.update s.workers i w }

/-- `cond.notify_one()`: nobody but the main thread waits. -/
def notifyOne (s : Lifecycle workerNum) : Lifecycle workerNum :=
  match s.main with
  | .init .waits => { s with main := .init .woken }
  | .exit .waits => { s with main := .exit .woken }
  | _ => s

/-- `onSignal` up to the first `workers[i].stop()`. -/
def onSignal (s : Lifecycle workerNum) (signal : Signal) : Lifecycle workerNum :=
  { s with watched := Function.update s.watched signal false, exitSuccessWorkers := 0, main := .stop 0 }

/-- The callbacks of an iteration: one for each signal that has come. -/
def poll (s : Lifecycle workerNum) : List Signal := [.sigint, .sigterm].filter s.raised

/-- One step of the main thread. Behind the first wait `_init_signal` starts the signal
watchers. -/
def mainStep (s : Lifecycle workerNum) : Option (Lifecycle workerNum) :=
  match s.main with
  | .create j =>
    if inside : j < workerNum then some { s.setWorker ⟨j, inside⟩ (.init .away) with main := .create (j + 1) }
    else some { s with main := .init .before }
  | .init .before | .init .woken =>
    if s.mux = none then some { s with main := .init .checks, mux := some none } else none
  | .init .checks =>
    some { s with main := if s.initSuccessWorkers < workerNum then .init .waits else .init .passed, mux := none }
  | .init .waits => none
  | .init .passed => some { s with main := .loop, watched := fun _ => true }
  | .loop =>
    match s.pending with
    | signal :: pending => some { s.onSignal signal with pending := pending }
    | [] =>
      if s.broken then some { s with main := .finished }
      else if s.poll = [] then none
      else some { s with pending := s.poll, raised := fun _ => false }
  | .stop i =>
    if inside : i < workerNum then
      some { s with stopAsync := Function.update s.stopAsync ⟨i, inside⟩ true, main := .stop (i + 1) }
    else some { s with main := .exit .before }
  | .exit .before | .exit .woken =>
    if s.mux = none then some { s with main := .exit .checks, mux := some none } else none
  | .exit .checks =>
    some { s with main := if s.exitSuccessWorkers < workerNum then .exit .waits else .exit .passed, mux := none }
  | .exit .waits => none
  | .exit .passed => some { s with main := .loop, broken := true }
  | .finished => none

/-- One step of a worker in `run`. Its loop ends when `onStopAsync` breaks it. Both sections
are the same: lock, count, notify, unlock, each a step of its own. -/
def workerStep (s : Lifecycle workerNum) (i : Fin workerNum) : Option (Lifecycle workerNum) :=
  match s.workers i with
  | .unborn => none
  | .init .away => if s.mux = none then some { s.setWorker i (.init .locked) with mux := some (some i) } else none
  | .init .locked =>
    some { s.setWorker i (.init .counted) with initSuccessWorkers := s.initSuccessWorkers + 1 }
  | .init .counted => some (s.notifyOne.setWorker i (.init .notified))
  | .init .notified => some { s.setWorker i (.init .gone) with mux := none }
  | .init .gone => some (s.setWorker i .loop)
  | .loop => if s.stopAsync i then some (s.setWorker i (.exit .away)) else none
  | .exit .away => if s.mux = none then some { s.setWorker i (.exit .locked) with mux := some (some i) } else none
  | .exit .locked =>
    some { s.setWorker i (.exit .counted) with exitSuccessWorkers := s.exitSuccessWorkers + 1 }
  | .exit .counted => some (s.notifyOne.setWorker i (.exit .notified))
  | .exit .notified => some { s.setWorker i (.exit .gone) with mux := none }
  | .exit .gone => none

/-- One event. A signal whose watcher is stopped ends the process. A wake-up without a
notification may come whenever the main thread waits. -/
def step (s : Lifecycle workerNum) : Event workerNum → Option (Lifecycle workerNum)
  | .main => s.mainStep
  | .worker i => s.workerStep i
  | .spurious =>
    match s.main with
    | .init .waits => some { s with main := .init .woken }
    | .exit .waits => some { s with main := .exit .woken }
    | _ => none
  | .raise signal =>
    if s.watched signal then some { s with raised := Function.update s.raised signal true } else none

/-- Before `_init_workers`. -/
def fresh (workerNum : Nat) : Lifecycle workerNum :=
  ⟨0, 0, none, .create 0, fun _ => .unborn, fun _ => false, [], false, fun _ => false, fun _ => false⟩

end Lifecycle

/-- The workers at the first wait: a thread that has not begun is away, and one that is in
its loop is gone. -/
def Worker.atInit : Worker → Party
  | .unborn => .away
  | .init p => p
  | .loop | .exit _ => .gone

/-- The workers at the second wait. -/
def Worker.atExit : Worker → Party
  | .unborn | .init _ | .loop => .away
  | .exit p => p

/-- The main thread at the first wait. -/
def MainThread.atInit : MainThread → Waiter
  | .create _ => .before
  | .init w => w
  | .loop | .stop _ | .exit _ | .finished => .passed

/-- The main thread at the second wait, as long as the loop is not broken. -/
def MainThread.atExit : MainThread → Waiter
  | .create _ | .init _ | .loop | .stop _ | .finished => .before
  | .exit w => w

namespace Lifecycle

/-- The first wait as a barrier. -/
def initBarrier (s : Lifecycle workerNum) : Barrier (Fin workerNum) :=
  ⟨s.initSuccessWorkers, s.mux, fun i => (s.workers i).atInit, s.main.atInit⟩

/-- The second wait as a barrier. -/
def exitBarrier (s : Lifecycle workerNum) : Barrier (Fin workerNum) :=
  ⟨s.exitSuccessWorkers, s.mux, fun i => (s.workers i).atExit, s.main.atExit⟩

/-- The first wait when one worker is somewhere else. -/
theorem initBarrier_update {s s' : Lifecycle workerNum} {i : Fin workerNum} {w : Worker}
    (workers : s'.workers = Function.update s.workers i w) :
    s'.initBarrier =
      ⟨s'.initSuccessWorkers, s'.mux, (s.initBarrier.setParty i w.atInit).party, s'.main.atInit⟩ := by
  simp only [initBarrier, Barrier.mk.injEq, true_and, and_true]
  funext j
  by_cases here : j = i <;> simp [workers, here]

/-- The second wait when one worker is somewhere else. -/
theorem exitBarrier_update {s s' : Lifecycle workerNum} {i : Fin workerNum} {w : Worker}
    (workers : s'.workers = Function.update s.workers i w) :
    s'.exitBarrier =
      ⟨s'.exitSuccessWorkers, s'.mux, (s.exitBarrier.setParty i w.atExit).party, s'.main.atExit⟩ := by
  simp only [exitBarrier, Barrier.mk.injEq, true_and, and_true]
  funext j
  by_cases here : j = i <;> simp [workers, here]

/-- `notify_one` moves nobody but the main thread. -/
theorem notifyOne_eq (s : Lifecycle workerNum) : s.notifyOne = { s with main := s.notifyOne.main } := by
  unfold notifyOne
  split <;> rfl

/-- `notify_one` at the first wait. -/
theorem notifyOne_atInit (s : Lifecycle workerNum) :
    s.notifyOne.main.atInit = if s.main.atInit = .waits then .woken else s.main.atInit := by
  cases found : s.main with
  | init w => cases w <;> simp [notifyOne, found, MainThread.atInit]
  | exit w => cases w <;> simp [notifyOne, found, MainThread.atInit]
  | create _ | loop | stop _ | finished => simp [notifyOne, found, MainThread.atInit]

/-- `notify_one` at the second wait. -/
theorem notifyOne_atExit (s : Lifecycle workerNum) :
    s.notifyOne.main.atExit = if s.main.atExit = .waits then .woken else s.main.atExit := by
  cases found : s.main with
  | init w => cases w <;> simp [notifyOne, found, MainThread.atExit]
  | exit w => cases w <;> simp [notifyOne, found, MainThread.atExit]
  | create _ | loop | stop _ | finished => simp [notifyOne, found, MainThread.atExit]

/-- `notify_one` wakes the main thread where it waits, or does nothing. -/
theorem notifyOne_main (s : Lifecycle workerNum) :
    s.notifyOne.main = s.main ∨ (s.main = .init .waits ∧ s.notifyOne.main = .init .woken) ∨
      (s.main = .exit .waits ∧ s.notifyOne.main = .exit .woken) := by
  unfold notifyOne
  split <;> simp_all

/-- What a step of a worker leaves alone, and where it finds and leaves the main thread. A main
thread that waits may find itself woken; it is nowhere else than before otherwise. -/
structure Frame (s s' : Lifecycle workerNum) (i : Fin workerNum) (w : Worker) : Prop where
  workers : s'.workers = Function.update s.workers i w
  stopAsync : s'.stopAsync = s.stopAsync
  broken : s'.broken = s.broken
  pending : s'.pending = s.pending
  raised : s'.raised = s.raised
  main : s'.main = s.main ∨ (s.main = .init .waits ∧ s'.main = .init .woken) ∨
    (s.main = .exit .waits ∧ s'.main = .exit .woken)

/-- What a worker can do: move on in its first section, begin its loop, end it when it has
been told to, or move on in its second section. In a section it is a party of the barrier, and
only its notification moves the main thread. -/
inductive Moves (s s' : Lifecycle workerNum) (i : Fin workerNum) (w : Worker) : Prop
  | init (p : Party) (old : s.workers i = .init p) (there : p ≠ .gone) (new : w = .init p.next)
      (main : p = .counted ∨ s'.main = s.main) (count : s'.exitSuccessWorkers = s.exitSuccessWorkers)
      (action : Barrier.Action (Fin workerNum)) (acts : s.initBarrier.step action = some s'.initBarrier)
  | begin (old : s.workers i = .init .gone) (new : w = .loop) (main : s'.main = s.main)
      (inits : s'.initBarrier = s.initBarrier) (exits : s'.exitBarrier = s.exitBarrier)
  | break (old : s.workers i = .loop) (told : s.stopAsync i = true) (new : w = .exit .away) (main : s'.main = s.main)
      (exits : s'.exitBarrier = s.exitBarrier)
  | exit (p : Party) (old : s.workers i = .exit p) (there : p ≠ .gone) (new : w = .exit p.next)
      (main : p = .counted ∨ s'.main = s.main) (action : Barrier.Action (Fin workerNum))
      (acts : s.exitBarrier.step action = some s'.exitBarrier)

section Steps

variable {s s' : Lifecycle workerNum} {i : Fin workerNum}

/-- A worker that begins its loop is where it was for either wait. Neither count changes, nor
who has the mutex. -/
theorem barriers_same (s s' : Lifecycle workerNum) {w : Worker} (workers : s'.workers = Function.update s.workers i w)
    (counters : s'.initSuccessWorkers = s.initSuccessWorkers ∧ s'.exitSuccessWorkers = s.exitSuccessWorkers)
    (mux : s'.mux = s.mux) (main : s'.main.atInit = s.main.atInit ∧ s'.main.atExit = s.main.atExit) :
    (w.atInit = (s.workers i).atInit → s'.initBarrier = s.initBarrier) ∧
      (w.atExit = (s.workers i).atExit → s'.exitBarrier = s.exitBarrier) := by
  constructor
  · intro same
    simp only [initBarrier, counters, mux, main, Barrier.mk.injEq, true_and, and_true]
    funext j
    by_cases here : j = i <;> simp [workers, here, same]
  · intro same
    simp only [exitBarrier, counters, mux, main, Barrier.mk.injEq, true_and, and_true]
    funext j
    by_cases here : j = i <;> simp [workers, here, same]

/-- A worker's step as an action at the first wait. -/
theorem init_acts {w : Worker} {action : Barrier.Action (Fin workerNum)}
    (workers : s'.workers = Function.update s.workers i w)
    (acts : s.initBarrier.step action = some
      ⟨s'.initSuccessWorkers, s'.mux, (s.initBarrier.setParty i w.atInit).party, s'.main.atInit⟩) :
    s.initBarrier.step action = some s'.initBarrier := by
  rwa [initBarrier_update workers]

/-- A worker's step as an action at the second wait. -/
theorem exit_acts {w : Worker} {action : Barrier.Action (Fin workerNum)}
    (workers : s'.workers = Function.update s.workers i w)
    (acts : s.exitBarrier.step action = some
      ⟨s'.exitSuccessWorkers, s'.mux, (s.exitBarrier.setParty i w.atExit).party, s'.main.atExit⟩) :
    s.exitBarrier.step action = some s'.exitBarrier := by
  rwa [exitBarrier_update workers]

/-- One step of a worker in its first section. The cases are the places in the section, from
the entry to its end. -/
theorem init_moves {p : Party} (found : s.workers i = .init p) (there : p ≠ .gone)
    (stepped : s.workerStep i = some s') : ∃ w, Frame s s' i w ∧ Moves s s' i w := by
  have inits : s.initBarrier.party i = p := congrArg Worker.atInit found
  cases p with
  | away =>
    simp only [workerStep, found] at stepped
    obtain ⟨free, rest⟩ := Option.ite_none_right_eq_some.mp stepped
    obtain rfl := Option.some.inj rest
    refine ⟨_, ⟨rfl, rfl, rfl, rfl, rfl, .inl rfl⟩, .init .away found there rfl (.inr rfl) rfl (.lock i) ?_⟩
    exact init_acts (w := .init .locked) rfl (if_pos ⟨inits, free⟩)
  | locked =>
    simp only [workerStep, found] at stepped
    obtain rfl := Option.some.inj stepped
    refine ⟨_, ⟨rfl, rfl, rfl, rfl, rfl, .inl rfl⟩, .init .locked found there rfl (.inr rfl) rfl (.count i) ?_⟩
    exact init_acts (w := .init .counted) rfl (if_pos inits)
  | counted =>
    simp only [workerStep, found] at stepped
    obtain rfl := Option.some.inj stepped
    rw [notifyOne_eq]
    refine ⟨_, ⟨rfl, rfl, rfl, rfl, rfl, s.notifyOne_main⟩,
      .init .counted found there rfl (.inl rfl) rfl (.notify i) ?_⟩
    refine init_acts (w := .init .notified) rfl ((if_pos inits).trans ?_)
    simp only [setWorker, notifyOne_atInit]
    rfl
  | notified =>
    simp only [workerStep, found] at stepped
    obtain rfl := Option.some.inj stepped
    refine ⟨_, ⟨rfl, rfl, rfl, rfl, rfl, .inl rfl⟩, .init .notified found there rfl (.inr rfl) rfl (.unlock i) ?_⟩
    exact init_acts (w := .init .gone) rfl (if_pos inits)
  | gone => exact absurd rfl there

/-- One step of a worker in its second section. The cases are the places in the section, from
the entry to its end. -/
theorem exit_moves {p : Party} (found : s.workers i = .exit p) (stepped : s.workerStep i = some s') :
    ∃ w, Frame s s' i w ∧ Moves s s' i w := by
  have exits : s.exitBarrier.party i = p := congrArg Worker.atExit found
  cases p with
  | away =>
    simp only [workerStep, found] at stepped
    obtain ⟨free, rest⟩ := Option.ite_none_right_eq_some.mp stepped
    obtain rfl := Option.some.inj rest
    refine ⟨_, ⟨rfl, rfl, rfl, rfl, rfl, .inl rfl⟩, .exit .away found (by decide) rfl (.inr rfl) (.lock i) ?_⟩
    exact exit_acts (w := .exit .locked) rfl (if_pos ⟨exits, free⟩)
  | locked =>
    simp only [workerStep, found] at stepped
    obtain rfl := Option.some.inj stepped
    refine ⟨_, ⟨rfl, rfl, rfl, rfl, rfl, .inl rfl⟩, .exit .locked found (by decide) rfl (.inr rfl) (.count i) ?_⟩
    exact exit_acts (w := .exit .counted) rfl (if_pos exits)
  | counted =>
    simp only [workerStep, found] at stepped
    obtain rfl := Option.some.inj stepped
    rw [notifyOne_eq]
    refine ⟨_, ⟨rfl, rfl, rfl, rfl, rfl, s.notifyOne_main⟩,
      .exit .counted found (by decide) rfl (.inl rfl) (.notify i) ?_⟩
    refine exit_acts (w := .exit .notified) rfl ((if_pos exits).trans ?_)
    simp only [setWorker, notifyOne_atExit]
    rfl
  | notified =>
    simp only [workerStep, found] at stepped
    obtain rfl := Option.some.inj stepped
    refine ⟨_, ⟨rfl, rfl, rfl, rfl, rfl, .inl rfl⟩, .exit .notified found (by decide) rfl (.inr rfl) (.unlock i) ?_⟩
    exact exit_acts (w := .exit .gone) rfl (if_pos exits)
  | gone => simp [workerStep, found] at stepped

/-- One step of a worker. It is a step of the first wait, the beginning or the end of its loop,
or a step of the second wait. -/
theorem workerStep_moves (stepped : s.workerStep i = some s') : ∃ w, Frame s s' i w ∧ Moves s s' i w := by
  cases found : s.workers i with
  | unborn => simp [workerStep, found] at stepped
  | loop =>
    simp only [workerStep, found] at stepped
    obtain ⟨told, rest⟩ := Option.ite_none_right_eq_some.mp stepped
    obtain rfl := Option.some.inj rest
    have same := barriers_same s (s.setWorker i (.exit .away)) rfl ⟨rfl, rfl⟩ rfl ⟨rfl, rfl⟩
    exact ⟨_, ⟨rfl, rfl, rfl, rfl, rfl, .inl rfl⟩, .break found told rfl rfl (same.2 (by rw [found]; rfl))⟩
  | init p =>
    by_cases gone : p = .gone
    · subst gone
      simp only [workerStep, found] at stepped
      obtain rfl := Option.some.inj stepped
      have same := barriers_same s (s.setWorker i .loop) rfl ⟨rfl, rfl⟩ rfl ⟨rfl, rfl⟩
      exact ⟨_, ⟨rfl, rfl, rfl, rfl, rfl, .inl rfl⟩,
        .begin found rfl rfl (same.1 (by rw [found]; rfl)) (same.2 (by rw [found]; rfl))⟩
    · exact init_moves found gone stepped
  | exit p => exact exit_moves found stepped

end Steps

end Lifecycle

end Naruto.Server
