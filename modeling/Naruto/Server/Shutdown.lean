import Naruto.Server.LifecycleStages

/-!
# The end of the server

The steps of the threads are bounded by the signals that come and the idle wake-ups, so a
stop that nothing can get stuck in ends. An iteration of the main loop that has found one
signal ends with the workers gone and the main thread at its end. One that has found both
makes the second `onSignal` behind workers that are gone: it clears their counter, and the
main thread waits for ever.
-/

namespace Naruto.Server.Lifecycle

open Naruto.Theory

variable {workerNum : Nat}

/-- What a worker has left to do in a section, its notification with the round of the main
thread that it causes. -/
def sectionWeight : Party → Nat
  | .away => 6
  | .locked => 5
  | .counted => 4
  | .notified => 1
  | .gone => 0

/-- What the main thread has left to do before it waits. -/
def waitWeight : Waiter → Nat
  | .before | .woken => 2
  | .checks => 1
  | .waits | .passed => 0

/-- What a worker has left to do. -/
def workerWeight : Worker → Nat
  | .unborn => 14
  | .init p => sectionWeight p + 8
  | .loop => 7
  | .exit p => sectionWeight p

/-- What the main thread has left to do but for the signals. -/
def mainWeight (workerNum : Nat) : MainThread → Nat
  | .create j => (workerNum - j) + 5
  | .init w => waitWeight w + 2
  | .loop => 1
  | .stop i => (workerNum - i) + 5
  | .exit w => waitWeight w + 2
  | .finished => 0

/-- How many signals the main loop will find. -/
def raisedCount (raised : Signal → Bool) : Nat := (raised .sigint).toNat + (raised .sigterm).toNat

/-- What the threads have left to do: a signal that was found costs an `onSignal`. -/
def weight (s : Lifecycle workerNum) : Nat :=
  (∑ i, workerWeight (s.workers i)) + mainWeight workerNum s.main + (workerNum + 5) * s.pending.length +
    (workerNum + 6) * raisedCount s.raised

/-- The steps of the threads. -/
def cost (event : Event workerNum) : Nat := event.own.toNat

/-- What a wake-up and a signal bring. -/
def earns : Event workerNum → Nat
  | .main | .worker _ => 0
  | .spurious => 2
  | .raise _ => workerNum + 6

section Steps

variable {s s' : Lifecycle workerNum}

/-- What is left to do when one worker is somewhere else. -/
theorem weight_move {i : Fin workerNum} {w : Worker} (frame : Frame s s' i w) :
    s'.weight + workerWeight (s.workers i) + mainWeight workerNum s.main =
      s.weight + workerWeight w + mainWeight workerNum s'.main := by
  have sum := sum_update s.workers i w workerWeight
  simp only [weight, frame.workers, frame.pending, frame.raised]
  omega

/-- A notification brings at most one round of the main thread. -/
theorem Frame.woken {i : Fin workerNum} {w : Worker} (frame : Frame s s' i w) :
    mainWeight workerNum s'.main ≤ mainWeight workerNum s.main + 2 := by
  rcases frame.main with same | ⟨waits, woken⟩ | ⟨waits, woken⟩
  · simp [same]
  · simp [waits, woken, mainWeight, waitWeight]
  · simp [waits, woken, mainWeight, waitWeight]

/-- In a section each step is paid, the notification with what it brings. -/
theorem section_paid {p : Party} (there : p ≠ .gone) :
    1 + sectionWeight p.next + (if p = .counted then 2 else 0) ≤ sectionWeight p := by
  cases p <;> simp [Party.next, sectionWeight] at there ⊢

/-- A step of a worker leaves it less to do. A station of a section is done, or the loop is
left, each once. -/
theorem worker_paid {i : Fin workerNum} (stepped : s.workerStep i = some s') : 1 + s'.weight ≤ s.weight := by
  obtain ⟨w, frame, moves⟩ := workerStep_moves stepped
  have move := weight_move frame
  have woken := frame.woken
  cases moves with
  | init p old there new main =>
    have paid := section_paid there
    simp only [old, new, workerWeight] at move
    rcases main with rfl | same
    · simp only [if_true] at paid
      omega
    · simp only [same] at move
      omega
  | begin old new main =>
    simp only [old, new, main, workerWeight, sectionWeight] at move
    omega
  | «break» old told new main =>
    simp only [old, new, main, workerWeight, sectionWeight] at move
    omega
  | exit p old there new main =>
    have paid := section_paid there
    simp only [old, new, workerWeight] at move
    rcases main with rfl | same
    · simp only [if_true] at paid
      omega
    · simp only [same] at move
      omega

/-- The main loop finds the signals that have come. -/
theorem poll_length (s : Lifecycle workerNum) : s.poll.length = raisedCount s.raised := by
  cases first : s.raised .sigint <;> cases second : s.raised .sigterm <;> simp [poll, raisedCount, first, second]

/-- A signal is counted once. -/
theorem raisedCount_update (raised : Signal → Bool) (signal : Signal) :
    raisedCount (Function.update raised signal true) ≤ raisedCount raised + 1 := by
  cases signal <;> cases first : raised .sigint <;> cases second : raised .sigterm <;>
    simp [raisedCount, Function.update, first, second]

/-- A step that moves only the main thread, to a place with less to do. -/
theorem paid_of_main (workers : s'.workers = s.workers) (pending : s'.pending = s.pending) (raised : s'.raised = s.raised)
    (less : mainWeight workerNum s'.main < mainWeight workerNum s.main) : 1 + s'.weight ≤ s.weight := by
  simp only [weight, workers, pending, raised]
  omega

/-- The creation of a worker leaves it to do what it has to. -/
theorem weight_create {j : Nat} (inside : j < workerNum) (unborn : s.workers ⟨j, inside⟩ = .unborn) :
    ({ s.setWorker ⟨j, inside⟩ (.init .away) with main := .create (j + 1) } : Lifecycle workerNum).weight +
      mainWeight workerNum s.main = s.weight + mainWeight workerNum (.create (j + 1)) := by
  have sum := sum_update s.workers ⟨j, inside⟩ (.init .away) workerWeight
  rw [unborn] at sum
  have same : workerWeight (.init .away) = workerWeight .unborn := rfl
  simp only [weight, setWorker]
  omega

/-- A step of the main thread in its loop: it calls a callback, which is paid with the signal,
looks for signals, which are then left, or ends. -/
theorem loop_paid (found : s.main = .loop) (stepped : s.mainStep = some s') : 1 + s'.weight ≤ s.weight := by
  simp only [mainStep, found] at stepped
  cases pending : s.pending with
  | cons signal rest =>
    simp only [pending] at stepped
    obtain rfl := Option.some.inj stepped
    simp only [weight, onSignal, found, pending, mainWeight, List.length_cons, Nat.mul_add]
    omega
  | nil =>
    simp only [pending] at stepped
    by_cases broken : s.broken = true
    · rw [if_pos broken] at stepped
      obtain rfl := Option.some.inj stepped
      exact paid_of_main rfl pending.symm rfl (by simp [found, mainWeight])
    · rw [if_neg broken] at stepped
      obtain ⟨polled, rest⟩ := Option.ite_none_left_eq_some.mp stepped
      obtain rfl := Option.some.inj rest
      have length := s.poll_length
      have positive : 0 < s.poll.length := List.length_pos_iff.mpr polled
      have quiet : raisedCount (fun _ => false) = 0 := rfl
      simp only [weight, found, pending, mainWeight, List.length_nil, length, quiet, Nat.add_mul]
      omega

/-- A step of the main thread at the first wait. Every place of it has less to come than the one
before. -/
theorem init_paid {w : Waiter} (found : s.main = .init w) (stepped : s.mainStep = some s') :
    1 + s'.weight ≤ s.weight := by
  cases w with
  | waits => simp [mainStep, found] at stepped
  | before | woken =>
    simp only [mainStep, found] at stepped
    obtain ⟨_, rest⟩ := Option.ite_none_right_eq_some.mp stepped
    obtain rfl := Option.some.inj rest
    exact paid_of_main rfl rfl rfl (by simp [found, mainWeight, waitWeight])
  | checks =>
    simp only [mainStep, found] at stepped
    obtain rfl := Option.some.inj stepped
    refine paid_of_main rfl rfl rfl ?_
    by_cases missing : s.initSuccessWorkers < workerNum <;> simp [missing, found, mainWeight, waitWeight]
  | passed =>
    simp only [mainStep, found] at stepped
    obtain rfl := Option.some.inj stepped
    exact paid_of_main rfl rfl rfl (by simp [found, mainWeight, waitWeight])

/-- A step of the main thread at the second wait. Every place of it has less to come than the
one before. -/
theorem exit_paid {w : Waiter} (found : s.main = .exit w) (stepped : s.mainStep = some s') :
    1 + s'.weight ≤ s.weight := by
  cases w with
  | waits => simp [mainStep, found] at stepped
  | before | woken =>
    simp only [mainStep, found] at stepped
    obtain ⟨_, rest⟩ := Option.ite_none_right_eq_some.mp stepped
    obtain rfl := Option.some.inj rest
    exact paid_of_main rfl rfl rfl (by simp [found, mainWeight, waitWeight])
  | checks =>
    simp only [mainStep, found] at stepped
    obtain rfl := Option.some.inj stepped
    refine paid_of_main rfl rfl rfl ?_
    by_cases missing : s.exitSuccessWorkers < workerNum <;> simp [missing, found, mainWeight, waitWeight]
  | passed =>
    simp only [mainStep, found] at stepped
    obtain rfl := Option.some.inj stepped
    exact paid_of_main rfl rfl rfl (by simp [found, mainWeight, waitWeight])

/-- A step of the main thread leaves it less to do. One lemma for each place of the main
thread. -/
theorem main_paid (inv : s.Inv) (stepped : s.mainStep = some s') : 1 + s'.weight ≤ s.weight := by
  cases found : s.main with
  | finished => simp [mainStep, found] at stepped
  | create j =>
    simp only [mainStep, found] at stepped
    by_cases inside : j < workerNum
    · rw [dif_pos inside] at stepped
      obtain rfl := Option.some.inj stepped
      have move := weight_create inside (inv.unborn inside found)
      simp only [found, mainWeight] at move
      omega
    · rw [dif_neg inside] at stepped
      obtain rfl := Option.some.inj stepped
      exact paid_of_main rfl rfl rfl (by simp only [found, mainWeight, waitWeight]; omega)
  | loop => exact loop_paid found stepped
  | stop j =>
    simp only [mainStep, found] at stepped
    by_cases inside : j < workerNum
    · rw [dif_pos inside] at stepped
      obtain rfl := Option.some.inj stepped
      exact paid_of_main rfl rfl rfl (by simp only [found, mainWeight]; omega)
    · rw [dif_neg inside] at stepped
      obtain rfl := Option.some.inj stepped
      exact paid_of_main rfl rfl rfl (by simp only [found, mainWeight, waitWeight]; omega)
  | init w => exact init_paid found stepped
  | exit w => exact exit_paid found stepped

/-- Every step of a thread leaves less to do, and the others bring what they bring. A signal
brings a call of `onSignal`, a wake-up without a notification one more test. -/
theorem step_paid {event : Event workerNum} (inv : s.Inv) (stepped : s.step event = some s') :
    cost event + s'.weight ≤ s.weight + earns event := by
  cases event with
  | main => exact main_paid inv stepped
  | worker i => exact worker_paid stepped
  | spurious =>
    rw [step] at stepped
    cases found : s.main with
    | create _ | loop | stop _ | finished => simp [found] at stepped
    | init w | exit w =>
      cases w with
      | before | checks | woken | passed => simp [found] at stepped
      | waits =>
        simp only [found] at stepped
        obtain rfl := Option.some.inj stepped
        simp [weight, found, mainWeight, waitWeight, cost, Event.own, earns]
        omega
  | raise signal =>
    obtain ⟨_, rest⟩ := Option.ite_none_right_eq_some.mp stepped
    obtain rfl := Option.some.inj rest
    have once := Nat.mul_le_mul_left (workerNum + 6) (raisedCount_update s.raised signal)
    simp only [weight, cost, Event.own, earns, Bool.toNat_false, Nat.mul_add] at once ⊢
    omega

/-- In an `onSignal`, before or at its wait. -/
def handling : MainThread → Nat
  | .stop _ | .exit _ => 1
  | _ => 0

/-- The signals of an iteration: those that are left, the one that is handled and the one
that has broken the loop. An `onSignal` behind a broken loop does not get behind its wait. -/
structure Left (k : Nat) (s : Lifecycle workerNum) : Prop where
  count : s.pending.length + handling s.main + s.broken.toNat = k
  looped : handling s.main = 1 ∨ s.main = .loop ∨ s.main = .finished
  counter : s.broken = true → handling s.main = 1 → s.exitSuccessWorkers = 0
  waits : s.broken = true → s.main ≠ .exit .passed

/-- The main thread in an iteration that has found signals. A callback is taken from those
found, and the wait of a second one never ends. -/
theorem Left.main {k : Nat} (left : Left k s) (signalled : 0 < k) (positive : 0 < workerNum)
    (stepped : s.mainStep = some s') : Left k s' := by
  obtain ⟨count, looped, counter, waits⟩ := left
  rw [mainStep] at stepped
  cases found : s.main with
  | finished => simp [found] at stepped
  | create _ | init _ => simp [found, handling] at looped
  | loop =>
    simp only [found] at stepped
    cases pending : s.pending with
    | cons signal rest =>
      simp only [pending] at stepped
      obtain rfl := Option.some.inj stepped
      refine ⟨?_, .inl rfl, fun _ _ => rfl, by simp [onSignal]⟩
      simpa [pending, found, handling, onSignal] using count
    | nil =>
      simp only [pending] at stepped
      cases broken : s.broken with
      | false =>
        simp [pending, found, broken, handling] at count
        omega
      | true =>
        simp only [broken, if_true] at stepped
        obtain rfl := Option.some.inj stepped
        refine ⟨?_, by simp, by simp [handling], by simp⟩
        simpa [pending, found, broken, handling] using count
  | stop j =>
    simp only [found] at stepped
    by_cases inside : j < workerNum
    · rw [dif_pos inside] at stepped
      obtain rfl := Option.some.inj stepped
      exact ⟨by simpa [found, handling] using count, .inl rfl, by simpa [found, handling] using counter, by simp⟩
    · rw [dif_neg inside] at stepped
      obtain rfl := Option.some.inj stepped
      exact ⟨by simpa [found, handling] using count, .inl rfl, by simpa [found, handling] using counter, by simp⟩
  | exit w =>
    cases w with
    | waits => simp [found] at stepped
    | before | woken =>
      simp only [found] at stepped
      obtain ⟨_, rest⟩ := Option.ite_none_right_eq_some.mp stepped
      obtain rfl := Option.some.inj rest
      exact ⟨by simpa [found, handling] using count, .inl rfl, by simpa [found, handling] using counter, by simp⟩
    | checks =>
      simp only [found] at stepped
      obtain rfl := Option.some.inj stepped
      refine ⟨?_, ?_, ?_, fun broken => ?_⟩
      · by_cases missing : s.exitSuccessWorkers < workerNum <;> simpa [missing, found, handling] using count
      · by_cases missing : s.exitSuccessWorkers < workerNum <;> simp [missing, handling]
      · by_cases missing : s.exitSuccessWorkers < workerNum <;> simpa [missing, found, handling] using counter
      · have zero := counter broken (by simp [found, handling])
        simp [zero, positive]
    | passed =>
      simp only [found] at stepped
      obtain rfl := Option.some.inj stepped
      cases broken : s.broken with
      | true => exact absurd found (waits broken)
      | false => exact ⟨by simpa [found, broken, handling] using count, by simp, by simp [handling], by simp⟩

/-- Any step in an iteration that has found signals. The steps of the workers and the signals
that come leave what the iteration has found. -/
theorem Left.step {k : Nat} {event : Event workerNum} (left : Left k s) (inv : s.Inv) (signalled : 0 < k)
    (positive : 0 < workerNum) (stepped : s.step event = some s') : Left k s' := by
  cases event with
  | main => exact left.main signalled positive stepped
  | raise signal =>
    obtain ⟨_, rest⟩ := Option.ite_none_right_eq_some.mp stepped
    obtain rfl := Option.some.inj rest
    exact ⟨left.count, left.looped, left.counter, left.waits⟩
  | worker i =>
    obtain ⟨w, frame, moves⟩ := workerStep_moves stepped
    obtain ⟨count, looped, counter, waits⟩ := left
    rcases inv with starting | running | stopped
    · refine absurd ?_ starting.early
      cases found : s.main with
      | create _ | init _ => simp [found, handling] at looped
      | loop | stop _ | exit _ | finished => rfl
    · have unbroken : s'.broken = false := by rw [frame.broken, running.unbroken]
      have same : handling s'.main = handling s.main ∧ (s'.main = s.main ∨ handling s.main = 1) := by
        rcases frame.main with same | ⟨old, new⟩ | ⟨old, new⟩
        · simp [same]
        · simp [old, handling] at looped
        · simp [old, new, handling]
      refine ⟨by rw [frame.pending, frame.broken, same.1, count], ?_, by simp [unbroken], by simp [unbroken]⟩
      rcases same.2 with here | handled
      · simpa [here] using looped
      · exact .inl (same.1.trans handled)
    · exact absurd stepped (by simp [Lifecycle.step, stopped.worker])
  | spurious =>
    obtain ⟨count, looped, counter, waits⟩ := left
    rw [Lifecycle.step] at stepped
    cases found : s.main with
    | create _ | loop | stop _ | finished => simp [found] at stepped
    | init w => simp [found, handling] at looped
    | exit w =>
      cases w with
      | before | checks | woken | passed => simp [found] at stepped
      | waits =>
        simp only [found] at stepped
        obtain rfl := Option.some.inj stepped
        exact ⟨by simpa [found, handling] using count, .inl rfl, by simpa [found, handling] using counter, by simp⟩

end Steps

/-- The steps of the threads in any run are bounded by the number of the workers, the signals
that come and the idle wake-ups.

Proof: a weight counts what every thread has still to do: the stations of its two sections,
the workers that are still to be created or stopped, and a return to the wait for each
notification that is still to come. Every step takes off one, and only a signal or an idle
wake-up adds to it. -/
theorem steps_bounded {events : List (Event workerNum)} {s : Lifecycle workerNum}
    (ran : run step (fresh workerNum) events = some s) :
    (events.map cost).sum ≤ 15 * workerNum + 5 + (events.map earns).sum := by
  have bound := run_within weight cost earns Inv (fun _ _ _ inv stepped => inv.step stepped)
    (fun _ _ _ inv stepped => step_paid inv stepped) (fresh workerNum) s events inv_fresh ran
  have start : (fresh workerNum).weight = 15 * workerNum + 5 := by
    simp [weight, fresh, workerWeight, mainWeight, raisedCount]
    omega
  omega

/-- The bound at the run of one worker. -/
theorem steps_bounded_one :
    ((startUp ++ .raise .sigint :: .main :: stopOne).map cost).sum ≤
      15 * 1 + 5 + ((startUp ++ .raise .sigint :: .main :: stopOne).map earns).sum := by
  obtain ⟨s, ran, _⟩ := Option.map_eq_some_iff.mp stopOne_ends
  exact steps_bounded ran

/-- An iteration of the main loop that has found one signal gets stuck only at the end, with
the workers gone; one that has found both never gets to the end.

Proof: the calls of `onSignal` that an iteration still has to make and those it has made are
together as many as the signals it has found. The first one passes its wait and breaks the
loop. A second one clears the counter behind workers that are gone, and nobody is left to
count. -/
theorem stops_unless_twice {before after : List (Event workerNum)} {s s' last : Lifecycle workerNum}
    (positive : 0 < workerNum) (ran : run step (fresh workerNum) before = some s) (loop : s.main = .loop)
    (unbroken : s.broken = false) (idle : s.pending = []) (polled : s.step .main = some s')
    (went : run step s' after = some last) :
    (s.poll.length = 1 → last.Stuck → last.main = .finished ∧ ∀ i, last.workers i = .exit .gone) ∧
      (s.poll.length = 2 → last.main ≠ .finished) := by
  have found : ¬ s.poll = [] ∧ some { s with pending := s.poll, raised := fun _ => false } = some s' := by
    simpa [step, mainStep, loop, idle, unbroken, Option.ite_none_left_eq_some] using polled
  obtain ⟨signalled, same⟩ := found
  obtain rfl := Option.some.inj same
  have several : 0 < s.poll.length := List.length_pos_iff.mpr signalled
  have start : Left s.poll.length { s with pending := s.poll, raised := fun _ => false } :=
    ⟨by simp [loop, unbroken, handling], by simp [loop], by simp [unbroken], by simp [unbroken]⟩
  obtain ⟨inv, left⟩ := run_preserves (fun s' => s'.Inv ∧ Left s.poll.length s')
    (fun _ _ _ both stepped => ⟨both.1.step stepped, both.2.step both.1 several positive stepped⟩) _ last after
    ⟨(inv_run ran).step polled, start⟩ went
  constructor
  · intro one stuck
    have count := left.count
    rcases inv.stuck stuck with server | ⟨stopped, finished | waits⟩
    · simp [server.main, server.pending, server.broken, handling, one] at count
    · exact ⟨finished, stopped.gone⟩
    · simp [waits, stopped.broken, handling, one] at count
  · intro two finished
    have count := left.count
    rcases inv with starting | running | stopped
    · exact absurd starting.early (by simp [finished, MainThread.atInit])
    · exact running.unfinished finished
    · simp [finished, stopped.finished finished, stopped.broken, handling, two] at count

/-- Both signals in one iteration. -/
def stopTwice : List (Event 1) := stopOne ++ List.replicate 4 .main

/-- Both signals in one iteration, at one worker: no run from there gets to the end. The run
goes through both calls of `onSignal` and is at the second wait of the second call then. -/
theorem stops_unless_twice_one :
    ∃ last, run step (fresh 1) ((startUp ++ [.raise .sigint, .raise .sigterm]) ++ .main :: stopTwice) = some last ∧
      last.main ≠ .finished := by
  have ends : (run step (fresh 1) ((startUp ++ [.raise .sigint, .raise .sigterm]) ++ .main :: stopTwice)).map
      (fun s => s.main) = some (.exit .waits) := by
    decide +kernel
  have polls : (run step (fresh 1) (startUp ++ [.raise .sigint, .raise .sigterm])).map
      (fun s => (s.main, s.broken, s.pending, s.poll)) = some (.loop, false, [], [.sigint, .sigterm]) := by
    decide +kernel
  obtain ⟨last, ran, _⟩ := Option.map_eq_some_iff.mp ends
  obtain ⟨s, reached, rest⟩ := Option.bind_eq_some_iff.mp ((run_append _ _ _).symm.trans ran)
  obtain ⟨s', polled, went⟩ := Option.bind_eq_some_iff.mp rest
  simp only [reached, Option.map_some, Option.some.injEq, Prod.mk.injEq] at polls
  obtain ⟨loop, unbroken, idle, both⟩ := polls
  refine ⟨last, ran, ?_⟩
  exact (stops_unless_twice Nat.one_pos reached loop unbroken idle polled went).2 (by rw [both]; rfl)

end Naruto.Server.Lifecycle
