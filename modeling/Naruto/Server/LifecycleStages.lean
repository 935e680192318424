import Naruto.Server.Lifecycle
import Naruto.Theory.Simulation

/-!
# The stages of the server

Until the main thread is behind the first wait nobody has come to the second; from there
until the loop is broken the first is over; behind a broken loop the workers are gone. In
each of the first two stages one of the waits is a barrier and nobody is at the other.
-/

namespace Naruto.Server.Lifecycle

open Naruto.Theory

variable {workerNum : Nat}

/-- A step of a thread. -/
def Event.own : Event workerNum → Bool
  | .main | .worker _ => true
  | _ => false

/-- No thread can go on. -/
def Stuck (s : Lifecycle workerNum) : Prop := ∀ event : Event workerNum, event.own = true → s.step event = none

/-- Until the main thread is behind the first wait: the first wait is a barrier, and nobody
has come to the second. -/
structure Starting (s : Lifecycle workerNum) : Prop where
  barrier : s.initBarrier.Inv
  early : s.main.atInit ≠ .passed
  unended : ∀ i p, s.workers i ≠ .exit p
  created : ∀ i, s.workers i = .unborn ↔ ∃ j, s.main = .create j ∧ j ≤ i
  quiet : ∀ i, s.stopAsync i = false
  counter : s.exitSuccessWorkers = 0
  unbroken : s.broken = false
  pending : s.pending = []

/-- From there until the loop is broken: the second wait is a barrier, and the workers that
have ended their loop have been told so. -/
structure Running (s : Lifecycle workerNum) : Prop where
  barrier : s.exitBarrier.Inv
  late : s.main.atInit = .passed
  inLoop : ∀ i, (s.workers i).atInit = .gone
  told : ∀ i, s.stopAsync i = true ↔
    (∃ j, s.main = .stop j ∧ i < j) ∨ ∃ w, s.main = .exit w
  ended : ∀ i p, s.workers i = .exit p → s.stopAsync i = true
  unbroken : s.broken = false
  unfinished : s.main ≠ .finished

/-- Behind a broken loop the workers are gone, and the mutex is free but for the main thread.
The counter of the second barrier may have been cleared again. -/
structure Stopped (s : Lifecycle workerNum) : Prop where
  broken : s.broken = true
  late : s.main.atInit = .passed
  gone : ∀ i, s.workers i = .exit .gone
  mux : s.mux = none ∨ s.main = .exit .checks
  finished : s.main = .finished → s.pending = []

/-- The three stages. -/
def Inv (s : Lifecycle workerNum) : Prop := s.Starting ∨ s.Running ∨ s.Stopped

section Steps

variable {s s' : Lifecycle workerNum} {i : Fin workerNum}

/-- Before the first wait is over a worker moves on in its first section, or begins its loop.
The first barrier keeps its invariant with the worker's move, and the second is untouched. -/
theorem Starting.worker (starting : s.Starting) (stepped : s.workerStep i = some s') : s'.Starting := by
  obtain ⟨w, frame, moves⟩ := workerStep_moves stepped
  have kept : (∃ p, s.workers i = .init p) ∧ w ≠ .unborn ∧ (∀ p, w ≠ .exit p) ∧ s'.initBarrier.Inv ∧
      s'.exitSuccessWorkers = s.exitSuccessWorkers := by
    cases moves with
    | init p old there new main count action acts =>
      exact ⟨⟨p, old⟩, by simp [new], by simp [new], starting.barrier.step acts, count⟩
    | begin old new main inits exits =>
      exact ⟨⟨.gone, old⟩, by simp [new], by simp [new], inits ▸ starting.barrier, congrArg Barrier.count exits⟩
    | «break» old told => simp [starting.quiet i] at told
    | exit p old => exact absurd old (starting.unended i p)
  obtain ⟨⟨p, old⟩, born, unended, barrier, counter⟩ := kept
  have main : s'.main = s.main ∨ (s.main = .init .waits ∧ s'.main = .init .woken) := by
    rcases frame.main with same | woken | ⟨late, _⟩
    · exact .inl same
    · exact .inr woken
    · exact absurd starting.early (by simp [late, MainThread.atInit])
  refine ⟨barrier, ?_, fun j p' => ?_, fun j => ?_, fun j => ?_, ?_, ?_, ?_⟩
  · rcases main with same | ⟨_, woken⟩
    · simpa [same] using starting.early
    · simp [woken, MainThread.atInit]
  · by_cases here : j = i
    · simp [frame.workers, here, unended]
    · simpa [frame.workers, here] using starting.unended j p'
  · have before := starting.created j
    rcases main with same | ⟨waits, woken⟩
    · by_cases here : j = i
      · subst here
        simpa [frame.workers, same, born, old] using before
      · simpa [frame.workers, same, here] using before
    · by_cases here : j = i
      · simp [frame.workers, woken, here, born]
      · simpa [frame.workers, woken, waits, here] using before
  · simpa [frame.stopAsync] using starting.quiet j
  · simpa [counter] using starting.counter
  · simpa [frame.broken] using starting.unbroken
  · simpa [frame.pending] using starting.pending

/-- Behind the first wait a worker begins its loop, ends it when it has been told to, or moves
on in its second section. The second barrier keeps its invariant with the worker's move; nobody
is in the first one. -/
theorem Running.worker (running : s.Running) (stepped : s.workerStep i = some s') : s'.Running := by
  obtain ⟨w, frame, moves⟩ := workerStep_moves stepped
  have kept : w.atInit = .gone ∧ (∀ p, w = .exit p → s.stopAsync i = true) ∧ s'.exitBarrier.Inv := by
    have inside := running.inLoop i
    cases moves with
    | init p old there => exact absurd inside (by simpa [old, Worker.atInit] using there)
    | begin old new main inits exits => exact ⟨by simp [new, Worker.atInit], by simp [new], exits ▸ running.barrier⟩
    | «break» old told new main exits =>
      exact ⟨by simp [new, Worker.atInit], fun _ _ => told, exits ▸ running.barrier⟩
    | exit p old there new main action acts =>
      exact ⟨by simp [new, Worker.atInit], fun _ _ => running.ended i p old, running.barrier.step acts⟩
  obtain ⟨inside, ended, barrier⟩ := kept
  have main : s'.main = s.main ∨ (s.main = .exit .waits ∧ s'.main = .exit .woken) := by
    rcases frame.main with same | ⟨early, _⟩ | woken
    · exact .inl same
    · exact absurd running.late (by simp [early, MainThread.atInit])
    · exact .inr woken
  refine ⟨barrier, ?_, fun j => ?_, fun j => ?_, fun j p => ?_, ?_, ?_⟩
  · rcases main with same | ⟨_, woken⟩
    · simpa [same] using running.late
    · simp [woken, MainThread.atInit]
  · by_cases here : j = i
    · simp [frame.workers, here, inside]
    · simpa [frame.workers, here] using running.inLoop j
  · have told := running.told j
    rcases main with same | ⟨waits, woken⟩
    · simpa [frame.stopAsync, same] using told
    · simpa [frame.stopAsync, waits, woken] using told
  · by_cases here : j = i
    · simpa [frame.workers, frame.stopAsync, here] using ended p
    · simpa [frame.workers, frame.stopAsync, here] using running.ended j p
  · simpa [frame.broken] using running.unbroken
  · rcases main with same | ⟨_, woken⟩
    · simpa [same] using running.unfinished
    · simp [woken]

/-- Behind a broken loop no worker moves. -/
theorem Stopped.worker (stopped : s.Stopped) : s.workerStep i = none := by
  simp [workerStep, stopped.gone i]

/-- The creation of a worker moves nobody. The new thread has not come to the first wait, where
the unborn one counted as being too. -/
theorem Starting.creates (starting : s.Starting) {j : Nat} (inside : j < workerNum) (found : s.main = .create j) :
    Starting { s.setWorker ⟨j, inside⟩ (.init .away) with main := .create (j + 1) } := by
  have unborn : s.workers ⟨j, inside⟩ = .unborn := (starting.created ⟨j, inside⟩).mpr ⟨j, found, Nat.le_refl j⟩
  refine ⟨?_, by simp [MainThread.atInit], fun k p => ?_, fun k => ?_, starting.quiet, starting.counter,
    starting.unbroken, starting.pending⟩
  · have same := barriers_same s { s.setWorker ⟨j, inside⟩ (.init .away) with main := .create (j + 1) }
      (w := .init .away) rfl ⟨rfl, rfl⟩ rfl (by simp [found, MainThread.atInit, MainThread.atExit])
    rw [same.1 (by rw [unborn]; rfl)]
    exact starting.barrier
  · by_cases here : k = ⟨j, inside⟩
    · simp [setWorker, here]
    · simpa [setWorker, here] using starting.unended k p
  · by_cases here : k = ⟨j, inside⟩
    · simp [setWorker, here]
    · have apart : (k : Nat) ≠ j := fun same => here (Fin.ext same)
      simp [setWorker, here, starting.created k, found]
      omega

/-- A worker that has not ended its loop has not come to the second wait. -/
theorem atExit_away (unended : ∀ p, s.workers i ≠ .exit p) : (s.workers i).atExit = .away := by
  cases found : s.workers i with
  | exit p => exact absurd found (unended p)
  | unborn | init _ | loop => rfl

/-- Behind the first wait nobody has come to the second. -/
theorem Starting.passes (starting : s.Starting) (gone : ∀ i, (s.workers i).atInit = .gone)
    (same : s' = { s with main := .init .passed, mux := none }) : s'.Running := by
  have away := fun i => atExit_away (starting.unended i)
  subst same
  refine ⟨?_, rfl, gone, fun i => ?_, fun i p ended => absurd ended (starting.unended i p), starting.unbroken, by simp⟩
  · refine ⟨fun i => ?_, ?_, ?_, ?_, ?_⟩
    · simp [exitBarrier, away, Party.holds]
    · simp [exitBarrier, MainThread.atExit]
    · simp [exitBarrier, away, Party.done, starting.counter]
    · simp [exitBarrier, MainThread.atExit]
    · simp [exitBarrier, MainThread.atExit]
  · simp [starting.quiet i]

/-- Until it is behind the first wait the main thread moves nothing but itself and the mutex.
What it does is an action of the first barrier. -/
theorem Starting.waits (starting : s.Starting) {w w' : Waiter} (action : Barrier.Action (Fin workerNum))
    (old : s.main = .init w) (new : s'.main = .init w') (early : w' ≠ .passed)
    (same : s' = { s with main := s'.main, mux := s'.mux })
    (acts : s.initBarrier.step action = some s'.initBarrier) : s'.Starting where
  barrier := starting.barrier.step acts
  early := by simpa [new, MainThread.atInit] using early
  unended := by
    rw [same]
    exact starting.unended
  created := fun j => by
    have before := starting.created j
    rw [same]
    simpa [old, new] using before
  quiet := by
    rw [same]
    exact starting.quiet
  counter := by
    rw [same]
    exact starting.counter
  unbroken := by
    rw [same]
    exact starting.unbroken
  pending := by
    rw [same]
    exact starting.pending

/-- One step of the main thread before the first wait is over. It creates a worker, which joins
the barrier, or moves as the waiter; behind the wait the server runs. -/
theorem Starting.main (starting : s.Starting) (stepped : s.mainStep = some s') : s'.Starting ∨ s'.Running := by
  have barrier := starting.barrier
  have early := starting.early
  rw [mainStep] at stepped
  cases found : s.main with
  | loop | stop _ | exit _ | finished => simp [found, MainThread.atInit] at early
  | create j =>
    simp only [found] at stepped
    by_cases inside : j < workerNum
    · rw [dif_pos inside] at stepped
      obtain rfl := Option.some.inj stepped
      exact .inl (starting.creates inside found)
    · rw [dif_neg inside] at stepped
      obtain rfl := Option.some.inj stepped
      refine .inl ⟨?_, by simp [MainThread.atInit], starting.unended, fun i => ?_, starting.quiet, starting.counter,
        starting.unbroken, starting.pending⟩
      · simpa [initBarrier, found, MainThread.atInit] using barrier
      · have outside : ¬ j ≤ i := fun beyond => inside (Nat.lt_of_le_of_lt beyond i.isLt)
        simpa [found, outside] using starting.created i
  | init w =>
    cases w with
    | waits => simp [found] at stepped
    | passed => simp [found, MainThread.atInit] at early
    | before =>
      simp only [found] at stepped
      obtain ⟨free, rest⟩ := Option.ite_none_right_eq_some.mp stepped
      obtain rfl := Option.some.inj rest
      refine .inl (starting.waits .enter found rfl (by decide) rfl (if_pos ⟨?_, free⟩))
      simp [initBarrier, found, MainThread.atInit]
    | woken =>
      simp only [found] at stepped
      obtain ⟨free, rest⟩ := Option.ite_none_right_eq_some.mp stepped
      obtain rfl := Option.some.inj rest
      refine .inl (starting.waits .wake found rfl (by decide) rfl (if_pos ⟨?_, free⟩))
      simp [initBarrier, found, MainThread.atInit]
    | checks =>
      simp only [found] at stepped
      obtain rfl := Option.some.inj stepped
      have looks : s.initBarrier.waiter = .checks := by simp [initBarrier, found, MainThread.atInit]
      by_cases missing : s.initSuccessWorkers < workerNum
      · simp only [missing, if_true]
        refine .inl (starting.waits .check found rfl (by decide) rfl ((if_pos looks).trans ?_))
        simp [initBarrier, missing, MainThread.atInit]
      · simp only [missing, if_false]
        have checked : s.initBarrier.step .check = some _ := (if_pos looks).trans rfl
        have passed := barrier.step checked
        have gone : ∀ i, (s.workers i).atInit = .gone := passed.passed (by simp [initBarrier, missing])
        exact .inr (starting.passes gone rfl)

/-- In the wait for the ends of the workers the main thread moves nothing but itself and the
mutex. -/
theorem Running.waits (running : s.Running) {w w' : Waiter} (action : Barrier.Action (Fin workerNum))
    (old : s.main = .exit w) (new : s'.main = .exit w') (same : s' = { s with main := s'.main, mux := s'.mux })
    (acts : s.exitBarrier.step action = some s'.exitBarrier) : s'.Running where
  barrier := running.barrier.step acts
  late := by simp [new, MainThread.atInit]
  inLoop := by
    rw [same]
    exact running.inLoop
  told := fun i => by
    have before := running.told i
    rw [same]
    simpa [old, new] using before
  ended := by
    rw [same]
    exact running.ended
  unbroken := by
    rw [same]
    exact running.unbroken
  unfinished := by simp [new]

/-- As long as no worker has been told to stop none has ended its loop. -/
theorem Running.unended (running : s.Running) (loop : s.main = .loop) (i : Fin workerNum) (p : Party) :
    s.workers i ≠ .exit p := by
  intro found
  have told := running.told i
  simp [running.ended i p found, loop] at told

/-- `onSignal` before any other. -/
theorem Running.signalled (running : s.Running) (loop : s.main = .loop) (signal : Signal) (pending : List Signal) :
    Running { s.onSignal signal with pending := pending } := by
  have away := fun i => atExit_away (running.unended loop i)
  have told : ∀ i, s.stopAsync i = false := fun i => by simpa [loop] using running.told i
  have barrier := running.barrier
  refine ⟨⟨fun i => ?_, ?_, ?_, ?_, ?_⟩, rfl, running.inLoop, fun i => ?_, running.ended, running.unbroken, ?_⟩
  · exact barrier.party i
  · simpa [exitBarrier, onSignal, loop, MainThread.atExit] using barrier.waiter
  · simp [exitBarrier, onSignal, away, Party.done]
  · simp [exitBarrier, onSignal, MainThread.atExit]
  · simp [exitBarrier, onSignal, MainThread.atExit]
  · simp [onSignal, told i]
  · simp [onSignal]

/-- A worker is told to stop. -/
theorem Running.tells (running : s.Running) {j : Nat} (inside : j < workerNum) (found : s.main = .stop j) :
    Running { s with stopAsync := Function.update s.stopAsync ⟨j, inside⟩ true, main := .stop (j + 1) } := by
  refine ⟨?_, rfl, running.inLoop, fun i => ?_, fun i p ended => ?_, running.unbroken, by simp⟩
  · simpa [exitBarrier, found, MainThread.atExit] using running.barrier
  · have told := running.told i
    by_cases here : i = ⟨j, inside⟩
    · simp [here]
    · have apart : (i : Nat) ≠ j := fun same => here (Fin.ext same)
      simp [here, told, found]
      omega
  · by_cases here : i = ⟨j, inside⟩
    · simp [here]
    · simpa [here] using running.ended i p ended

/-- All workers have been told to stop. -/
theorem Running.toldAll (running : s.Running) {j : Nat} (outside : ¬ j < workerNum) (found : s.main = .stop j) :
    Running { s with main := .exit .before } := by
  refine ⟨?_, rfl, running.inLoop, fun i => ?_, running.ended, running.unbroken, by simp⟩
  · simpa [exitBarrier, found, MainThread.atExit] using running.barrier
  · have below : (i : Nat) < j := by omega
    simpa [found, below] using running.told i

/-- The main thread breaks its loop behind the second wait, when every worker is gone from its
second section; then nobody is left who could hold the mutex. -/
theorem Running.breaks (running : s.Running) (found : s.main = .exit .passed) :
    Stopped { s with main := .loop, broken := true } := by
  have barrier := running.barrier
  have gone : ∀ i, (s.workers i).atExit = .gone := barrier.passed (by simp [exitBarrier, found, MainThread.atExit])
  refine ⟨rfl, rfl, fun i => ?_, .inl ?_, by simp⟩
  · have last := gone i
    cases here : s.workers i with
    | exit p => simpa [here, Worker.atExit] using last
    | unborn | init _ | loop => simp [here, Worker.atExit] at last
  · have holder := barrier.waiter
    cases held : s.mux with
    | none => rfl
    | some thread =>
      cases thread with
      | none => simp [exitBarrier, held, found, MainThread.atExit] at holder
      | some i => simpa [exitBarrier, held, gone i, Party.holds] using barrier.party i

/-- One step of the main thread in the second wait. It moves as the waiter of the second
barrier; when all are gone it passes, and breaks the loop. -/
theorem Running.exits (running : s.Running) {w : Waiter} (found : s.main = .exit w) (stepped : s.mainStep = some s') :
    s'.Running ∨ s'.Stopped := by
  rw [mainStep] at stepped
  cases w with
  | waits => simp [found] at stepped
  | before =>
    simp only [found] at stepped
    obtain ⟨free, rest⟩ := Option.ite_none_right_eq_some.mp stepped
    obtain rfl := Option.some.inj rest
    refine .inl (running.waits .enter found rfl rfl (if_pos ⟨?_, free⟩))
    simp [exitBarrier, found, MainThread.atExit]
  | woken =>
    simp only [found] at stepped
    obtain ⟨free, rest⟩ := Option.ite_none_right_eq_some.mp stepped
    obtain rfl := Option.some.inj rest
    refine .inl (running.waits .wake found rfl rfl (if_pos ⟨?_, free⟩))
    simp [exitBarrier, found, MainThread.atExit]
  | checks =>
    simp only [found] at stepped
    obtain rfl := Option.some.inj stepped
    have looks : s.exitBarrier.waiter = .checks := by simp [exitBarrier, found, MainThread.atExit]
    by_cases missing : s.exitSuccessWorkers < workerNum
    · simp only [missing, if_true]
      refine .inl (running.waits .check found rfl rfl ((if_pos looks).trans ?_))
      simp [exitBarrier, missing, MainThread.atExit]
    · simp only [missing, if_false]
      refine .inl (running.waits .check found rfl rfl ((if_pos looks).trans ?_))
      simp [exitBarrier, missing, MainThread.atExit]
  | passed =>
    simp only [found] at stepped
    obtain rfl := Option.some.inj stepped
    exact .inr (running.breaks found)

/-- One step of the main thread behind the first wait. It polls or takes a signal, tells the
workers to stop, and goes through the second wait. -/
theorem Running.main (running : s.Running) (stepped : s.mainStep = some s') : s'.Running ∨ s'.Stopped := by
  have late := running.late
  have unbroken := running.unbroken
  cases found : s.main with
  | create _ => simp [found, MainThread.atInit] at late
  | finished => exact absurd found running.unfinished
  | init w =>
    obtain rfl : w = .passed := by simpa [found, MainThread.atInit] using late
    simp only [mainStep, found] at stepped
    obtain rfl := Option.some.inj stepped
    refine .inl ⟨?_, rfl, running.inLoop, fun i => ?_, running.ended, unbroken, by simp⟩
    · simpa [exitBarrier, found, MainThread.atExit] using running.barrier
    · simpa [found] using running.told i
  | loop =>
    simp only [mainStep, found] at stepped
    cases pending : s.pending with
    | cons signal rest =>
      simp only [pending] at stepped
      obtain rfl := Option.some.inj stepped
      exact .inl (running.signalled found signal rest)
    | nil =>
      simp only [pending, unbroken, Bool.false_eq_true, if_false] at stepped
      obtain ⟨_, rest⟩ := Option.ite_none_left_eq_some.mp stepped
      obtain rfl := Option.some.inj rest
      refine .inl ⟨?_, rfl, running.inLoop, fun i => ?_, running.ended, rfl, by simp⟩
      · simpa [exitBarrier, found, MainThread.atExit] using running.barrier
      · simpa [found] using running.told i
  | stop j =>
    simp only [mainStep, found] at stepped
    by_cases inside : j < workerNum
    · rw [dif_pos inside] at stepped
      obtain rfl := Option.some.inj stepped
      exact .inl (running.tells inside found)
    · rw [dif_neg inside] at stepped
      obtain rfl := Option.some.inj stepped
      exact .inl (running.toldAll inside found)
  | exit w => exact running.exits found stepped

/-- One step of the main thread behind a broken loop. It ends, or makes another callback, whose
wait finds the counter cleared and nobody to raise it. -/
theorem Stopped.main (stopped : s.Stopped) (stepped : s.mainStep = some s') : s'.Stopped := by
  have broken := stopped.broken
  have late := stopped.late
  rw [mainStep] at stepped
  cases found : s.main with
  | create _ => simp [found, MainThread.atInit] at late
  | finished => simp [found] at stepped
  | init w =>
    obtain rfl : w = .passed := by simpa [found, MainThread.atInit] using late
    simp only [found] at stepped
    obtain rfl := Option.some.inj stepped
    exact ⟨broken, rfl, stopped.gone, by simpa [found] using stopped.mux, by simp⟩
  | loop =>
    simp only [found] at stepped
    cases pending : s.pending with
    | cons signal rest =>
      simp only [pending] at stepped
      obtain rfl := Option.some.inj stepped
      exact ⟨broken, rfl, stopped.gone, by simpa [onSignal, found] using stopped.mux, by simp [onSignal]⟩
    | nil =>
      simp only [pending, broken, if_true] at stepped
      obtain rfl := Option.some.inj stepped
      exact ⟨rfl, rfl, stopped.gone, by simpa [found] using stopped.mux, by simp⟩
  | stop j =>
    simp only [found] at stepped
    by_cases inside : j < workerNum
    · rw [dif_pos inside] at stepped
      obtain rfl := Option.some.inj stepped
      exact ⟨broken, rfl, stopped.gone, by simpa [found] using stopped.mux, by simp⟩
    · rw [dif_neg inside] at stepped
      obtain rfl := Option.some.inj stepped
      exact ⟨broken, rfl, stopped.gone, by simpa [found] using stopped.mux, by simp⟩
  | exit w =>
    cases w with
    | waits => simp [found] at stepped
    | before | woken =>
      simp only [found] at stepped
      obtain ⟨_, rest⟩ := Option.ite_none_right_eq_some.mp stepped
      obtain rfl := Option.some.inj rest
      exact ⟨broken, rfl, stopped.gone, .inr rfl, by simp⟩
    | checks =>
      simp only [found] at stepped
      obtain rfl := Option.some.inj stepped
      refine ⟨broken, ?_, stopped.gone, .inl rfl, ?_⟩ <;>
        by_cases missing : s.exitSuccessWorkers < workerNum <;> simp [missing, MainThread.atInit]
    | passed =>
      simp only [found] at stepped
      obtain rfl := Option.some.inj stepped
      exact ⟨rfl, rfl, stopped.gone, by simpa [found] using stopped.mux, by simp⟩

/-- A signal that comes is none of the threads' business yet. -/
theorem Inv.raise (inv : s.Inv) (raised : Signal → Bool) : Inv { s with raised := raised } := by
  rcases inv with ⟨barrier, early, unended, created, quiet, counter, unbroken, pending⟩ | running | stopped
  · exact .inl ⟨barrier, early, unended, created, quiet, counter, unbroken, pending⟩
  · obtain ⟨barrier, late, inLoop, told, ended, unbroken, unfinished⟩ := running
    exact .inr (.inl ⟨barrier, late, inLoop, told, ended, unbroken, unfinished⟩)
  · obtain ⟨broken, late, gone, mux, finished⟩ := stopped
    exact .inr (.inr ⟨broken, late, gone, mux, finished⟩)

/-- The main thread wakes by itself. That is an action of the barrier at which it waits. -/
theorem Inv.spurious (inv : s.Inv) (stepped : s.step .spurious = some s') : s'.Inv := by
  rw [step] at stepped
  cases found : s.main with
  | create _ | loop | stop _ | finished => simp [found] at stepped
  | init w =>
    cases w with
    | before | checks | woken | passed => simp [found] at stepped
    | waits =>
      simp only [found] at stepped
      obtain rfl := Option.some.inj stepped
      rcases inv with starting | running | stopped
      · refine .inl (starting.waits .spurious found rfl (by decide) rfl ((if_pos ?_).trans ?_)) <;>
          simp [initBarrier, found, MainThread.atInit]
      · exact absurd running.late (by simp [found, MainThread.atInit])
      · exact absurd stopped.late (by simp [found, MainThread.atInit])
  | exit w =>
    cases w with
    | before | checks | woken | passed => simp [found] at stepped
    | waits =>
      simp only [found] at stepped
      obtain rfl := Option.some.inj stepped
      rcases inv with starting | running | stopped
      · exact absurd starting.early (by simp [found, MainThread.atInit])
      · refine .inr (.inl (running.waits .spurious found rfl rfl ((if_pos ?_).trans ?_))) <;>
          simp [exitBarrier, found, MainThread.atExit]
      · exact .inr (.inr ⟨stopped.broken, rfl, stopped.gone, by simpa [found] using stopped.mux, by simp⟩)

/-- Every step keeps the invariant. By cases on the thread and the stage. -/
theorem Inv.step {event : Event workerNum} (inv : s.Inv) (stepped : s.step event = some s') : s'.Inv := by
  cases event with
  | main =>
    rcases inv with starting | running | stopped
    · exact (starting.main stepped).imp id .inl
    · exact .inr (running.main stepped)
    · exact .inr (.inr (stopped.main stepped))
  | worker i =>
    rcases inv with starting | running | stopped
    · exact .inl (starting.worker stepped)
    · exact .inr (.inl (running.worker stepped))
    · exact absurd stepped (by simp [Lifecycle.step, stopped.worker])
  | spurious => exact inv.spurious stepped
  | raise signal =>
    obtain ⟨_, rest⟩ := Option.ite_none_right_eq_some.mp stepped
    obtain rfl := Option.some.inj rest
    exact inv.raise _

/-- Where a worker that cannot go on is. -/
theorem worker_blocked (blocked : s.workerStep i = none) :
    s.workers i = .unborn ∨ (s.mux ≠ none ∧ (s.workers i = .init .away ∨ s.workers i = .exit .away)) ∨
      (s.workers i = .loop ∧ s.stopAsync i = false) ∨ s.workers i = .exit .gone := by
  cases found : s.workers i with
  | unborn => simp
  | loop => simpa [workerStep, found] using blocked
  | init p => cases p <;> simp_all [workerStep]
  | exit p => cases p <;> simp_all [workerStep]

/-- Where the main thread is when it cannot go on. It waits for a notification, for the mutex or
for a signal, or is at its end. -/
theorem main_blocked (blocked : s.mainStep = none) :
    s.main = .init .waits ∨ s.main = .exit .waits ∨ s.main = .finished ∨
      (s.mux ≠ none ∧ ∃ w, (w = .before ∨ w = .woken) ∧ (s.main = .init w ∨ s.main = .exit w)) ∨
      (s.main = .loop ∧ s.pending = [] ∧ s.broken = false ∧ s.poll = []) := by
  cases found : s.main with
  | create j => by_cases inside : j < workerNum <;> simp [mainStep, found, inside] at blocked
  | stop j => by_cases inside : j < workerNum <;> simp [mainStep, found, inside] at blocked
  | finished => simp
  | loop =>
    cases pending : s.pending with
    | cons signal rest => simp [mainStep, found, pending] at blocked
    | nil =>
      cases broken : s.broken <;> simp [mainStep, found, pending, broken] at blocked
      simp [blocked]
  | init w => cases w <;> simp_all [mainStep]
  | exit w => cases w <;> simp_all [mainStep]

/-- The start does not get stuck. The first barrier would be at its end then, with the main
thread behind it. -/
theorem Starting.not_stuck (starting : s.Starting) (stuck : s.Stuck) : False := by
  have main := main_blocked (stuck .main rfl)
  have early := starting.early
  refine early (starting.barrier.ended ⟨fun i => ?_, ?_⟩).1
  · rcases worker_blocked (stuck (.worker i) rfl) with unborn | ⟨held, away | away⟩ | ⟨loop, _⟩ | gone
    · obtain ⟨j, create, _⟩ := (starting.created i).mp unborn
      simp [create] at main
    · exact .inr ⟨by simp [initBarrier, away, Worker.atInit], held⟩
    · exact absurd away (starting.unended i .away)
    · exact .inl (by simp [initBarrier, loop, Worker.atInit])
    · exact absurd gone (starting.unended i .gone)
  · rcases main with waits | late | late | ⟨held, w, place, found | late⟩ | ⟨late, _⟩
    · exact .inr (.inl (by simp [initBarrier, waits, MainThread.atInit]))
    · simp [late, MainThread.atInit] at early
    · simp [late, MainThread.atInit] at early
    · exact .inr (.inr ⟨by simpa [initBarrier, found, MainThread.atInit] using place, held⟩)
    · simp [late, MainThread.atInit] at early
    · simp [late, MainThread.atInit] at early

/-- The main thread in its loop with nothing to do, and the workers in theirs. Every worker has
passed its first section, and no signal has come. -/
structure Idle (s : Lifecycle workerNum) : Prop where
  main : s.main = .loop
  pending : s.pending = []
  poll : s.poll = []
  broken : s.broken = false
  workers : ∀ i, s.workers i = .loop

/-- Behind the first wait only an idle server is stuck. Any thread that is not waiting for an
event can move: a worker in its section, or the main thread in its loop or its wait. -/
theorem Running.idle (running : s.Running) (stuck : s.Stuck) : s.Idle := by
  have late := running.late
  have worker := fun i => worker_blocked (stuck (.worker i) rfl)
  have ended : ∀ w, s.main = .exit w → w = .waits ∨ ((w = .before ∨ w = .woken) ∧ s.mux ≠ none) → False := by
    intro w found idle
    have told : ∀ i, s.stopAsync i = true := fun i => (running.told i).mpr (.inr ⟨w, found⟩)
    have passed := running.barrier.ended ⟨fun i => ?_, ?_⟩
    · have passed' : w = .passed := by simpa [exitBarrier, found, MainThread.atExit] using passed.1
      simp [passed'] at idle
    · have inside := running.inLoop i
      rcases worker i with unborn | ⟨held, away | away⟩ | ⟨_, untold⟩ | gone
      · simp [unborn, Worker.atInit] at inside
      · simp [away, Worker.atInit] at inside
      · exact .inr ⟨by simp [exitBarrier, away, Worker.atExit], held⟩
      · simp [told i] at untold
      · exact .inl (by simp [exitBarrier, gone, Worker.atExit])
    · rcases idle with waits | ⟨place, held⟩
      · exact .inr (.inl (by simp [exitBarrier, found, waits, MainThread.atExit]))
      · exact .inr (.inr ⟨by simpa [exitBarrier, found, MainThread.atExit] using place, held⟩)
  rcases main_blocked (stuck .main rfl) with early | waits | finished | ⟨held, w, place, early | found⟩ | idle
  · simp [early, MainThread.atInit] at late
  · exact (ended .waits waits (.inl rfl)).elim
  · exact absurd finished running.unfinished
  · rcases place with before | woken <;> simp_all [MainThread.atInit]
  · exact (ended w found (.inr ⟨place, held⟩)).elim
  · obtain ⟨loop, pending, broken, poll⟩ := idle
    refine ⟨loop, pending, poll, broken, fun i => ?_⟩
    have inside := running.inLoop i
    rcases worker i with unborn | ⟨_, early | ended⟩ | ⟨found, _⟩ | gone
    · simp [unborn, Worker.atInit] at inside
    · simp [early, Worker.atInit] at inside
    · exact absurd ended (running.unended loop i .away)
    · exact found
    · exact absurd gone (running.unended loop i .gone)

/-- Behind a broken loop the main thread is stuck only at the end, or in another wait. -/
theorem Stopped.stuck (stopped : s.Stopped) (stuck : s.Stuck) : s.main = .finished ∨ s.main = .exit .waits := by
  have late := stopped.late
  have broken := stopped.broken
  have mux := stopped.mux
  rcases main_blocked (stuck .main rfl) with early | waits | finished | ⟨held, w, place, early | found⟩ | idle
  · simp [early, MainThread.atInit] at late
  · exact .inr waits
  · exact .inl finished
  · rcases place with before | woken <;> simp_all [MainThread.atInit]
  · rcases place with before | woken <;> simp_all
  · simp [idle.2.2.1] at broken

/-- Before `_init_workers` nobody has come to a wait. -/
theorem inv_fresh : (fresh workerNum).Inv :=
  .inl ⟨⟨fun i => by simp [initBarrier, fresh, Worker.atInit, Party.holds],
      by simp [initBarrier, fresh, MainThread.atInit],
      by simp [initBarrier, fresh, Worker.atInit, Party.done],
      by simp [initBarrier, fresh, MainThread.atInit],
      by simp [initBarrier, fresh, MainThread.atInit]⟩,
    by simp [fresh, MainThread.atInit], fun _ _ => by simp [fresh], fun _ => by simp [fresh],
    fun _ => rfl, rfl, rfl, rfl⟩

/-- A worker that is about to be created is not there. -/
theorem Inv.unborn (inv : s.Inv) {j : Nat} (inside : j < workerNum) (create : s.main = .create j) :
    s.workers ⟨j, inside⟩ = .unborn := by
  rcases inv with starting | running | stopped
  · exact (starting.created ⟨j, inside⟩).mpr ⟨j, create, Nat.le_refl j⟩
  · exact absurd running.late (by simp [create, MainThread.atInit])
  · exact absurd stopped.late (by simp [create, MainThread.atInit])

/-- Where the threads are stuck. -/
theorem Inv.stuck (inv : s.Inv) (stuck : s.Stuck) :
    s.Idle ∨ (s.Stopped ∧ (s.main = .finished ∨ s.main = .exit .waits)) := by
  rcases inv with starting | running | stopped
  · exact (starting.not_stuck stuck).elim
  · exact .inl (running.idle stuck)
  · exact .inr ⟨stopped, stopped.stuck stuck⟩

end Steps

/-- The invariant holds along a run. -/
theorem inv_run {events : List (Event workerNum)} {s : Lifecycle workerNum}
    (ran : run step (fresh workerNum) events = some s) : s.Inv :=
  run_preserves Inv (fun _ _ _ inv stepped => inv.step stepped) _ _ events inv_fresh ran

/-- In any order of the steps: the main thread goes to its loop when every worker is behind
its first section, the loop is broken when every worker is behind its second, and the threads
are only stuck in an idle server, at the end, or in an `onSignal` that another was made
before.

Proof: each wait is a counted barrier with its lemma that nobody is stuck while somebody is
missing. A run goes through three stages, starting, running and stopped; in each of them one
of the barriers is at work, and the other is not entered yet or is over. The callbacks of the
workers are taken to return. -/
theorem waits_pass {events : List (Event workerNum)} {s : Lifecycle workerNum}
    (ran : run step (fresh workerNum) events = some s) :
    (s.main.atInit = .passed → ∀ i, (s.workers i).atInit = .gone) ∧
      (s.broken = true → ∀ i, s.workers i = .exit .gone) ∧
      (s.Stuck → s.Idle ∨ (s.broken = true ∧ (s.main = .finished ∨ s.main = .exit .waits))) := by
  have inv := inv_run ran
  refine ⟨fun late => ?_, fun broken => ?_, fun stuck => ?_⟩
  · rcases inv with starting | running | stopped
    · exact absurd late starting.early
    · exact running.inLoop
    · exact fun i => by simp [stopped.gone i, Worker.atInit]
  · rcases inv with starting | running | stopped
    · exact absurd broken (by simp [starting.unbroken])
    · exact absurd broken (by simp [running.unbroken])
    · exact stopped.gone
  · exact (inv.stuck stuck).imp id fun both => ⟨both.1.broken, both.2⟩

/-- A start with one worker. -/
def startUp : List (Event 1) :=
  [.main, .main, .main, .main] ++ List.replicate 5 (.worker ⟨0, Nat.one_pos⟩) ++ [.main, .main, .main]

/-- The stop of one worker. -/
def stopOne : List (Event 1) :=
  [.main, .main, .main, .worker ⟨0, Nat.one_pos⟩, .main, .main] ++ List.replicate 4 (.worker ⟨0, Nat.one_pos⟩) ++
    [.main, .main, .main, .main]

/-- One worker's run from its start to its end. -/
theorem stopOne_ends :
    (run step (fresh 1) (startUp ++ .raise .sigint :: .main :: stopOne)).map (fun s => (s.main, s.broken)) =
      some (.finished, true) := by
  decide +kernel

/-- The theorem of the waits at this run: the worker is gone when the loop is broken. -/
theorem waits_pass_one : ∃ s, run step (fresh 1) (startUp ++ .raise .sigint :: .main :: stopOne) = some s ∧
    ∀ i, s.workers i = .exit .gone := by
  obtain ⟨s, ran, found⟩ := Option.map_eq_some_iff.mp stopOne_ends
  exact ⟨s, ran, (waits_pass ran).2.1 (Prod.mk.inj found).2⟩

end Naruto.Server.Lifecycle
