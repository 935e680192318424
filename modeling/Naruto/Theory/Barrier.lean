import Mathlib.Algebra.Order.BigOperators.Group.Finset
import Mathlib.Data.Fintype.BigOperators
import Mathlib.Data.Nat.Cast.Basic

/-!
# A counted barrier

A waiter passes when a counter has reached the number of the parties. Each party takes
the mutex, counts itself, notifies the condition variable and lets go of the mutex; the
waiter looks at the counter under the mutex and waits on the condition variable as long
as somebody is missing. A notification that finds nobody waiting is lost, and the waiter
may also wake without one. Whatever the order of the steps, the waiter passes only when
all parties have counted themselves, and it never waits for a notification that nobody
is going to send.
-/

namespace Naruto.Theory

/-- Where a party is: not there yet, with the mutex before it counts itself, before it
notifies and before it lets go, and gone. -/
inductive Party
  | away
  | locked
  | counted
  | notified
  | gone
deriving DecidableEq, Repr

/-- Where the waiter is: before it takes the mutex, at the counter with the mutex, on the
condition variable, awake before it has the mutex again, and behind the barrier. -/
inductive Waiter
  | before
  | checks
  | waits
  | woken
  | passed
deriving DecidableEq, Repr

/-- The counter, the holder of the mutex (the waiter is nobody of the parties), the parties
and the waiter. -/
structure Barrier (ι : Type*) where
  count : Nat
  mutex : Option (Option ι)
  party : ι → Party
  waiter : Waiter

/-- Where a party goes. -/
def Party.next : Party → Party
  | .away => .locked
  | .locked => .counted
  | .counted => .notified
  | .notified | .gone => .gone

/-- A party that has the mutex. -/
def Party.holds : Party → Bool
  | .locked | .counted | .notified => true
  | _ => false

/-- A party that has counted itself. -/
def Party.done : Party → Nat
  | .counted | .notified | .gone => 1
  | _ => 0

/-- A sum over a family when one member of it is another. -/
theorem sum_update {ι α : Type*} [DecidableEq ι] [Fintype ι] (family : ι → α) (i : ι) (a : α) (f : α → Nat) :
    (∑ j, f (Function.update family i a j)) + f (family i) = (∑ j, f (family j)) + f a := by
  have others : ∀ j ∈ Finset.univ.erase i, f (Function.update family i a j) = f (family j) := by
    intro j apart
    simp [Finset.ne_of_mem_erase apart]
  have own : f (Function.update family i a i) = f a := by simp
  rw [← Finset.add_sum_erase _ _ (Finset.mem_univ i),
    ← Finset.add_sum_erase _ (fun j => f (family j)) (Finset.mem_univ i), Finset.sum_congr rfl others, own]
  omega

namespace Barrier

variable {ι : Type*}

/-- The steps of a party and of the waiter, and a wake-up without a notification. Locking and
entering need the mutex, and so does going on behind a wake-up. -/
inductive Action (ι : Type*)
  | lock (i : ι)
  | count (i : ι)
  | notify (i : ι)
  | unlock (i : ι)
  | enter
  | check
  | wake
  | spurious
deriving DecidableEq, Repr

/-- A party is somewhere else. -/
def setParty [DecidableEq ι] (b : Barrier ι) (i : ι) (p : Party) : Barrier ι :=
  { b with party := Function.update b.party i p }

/-- One step. A party locks, counts itself, notifies and unlocks; the waiter looks at the count
under the mutex and waits, which lets the mutex go, until it finds everybody counted. -/
def step [DecidableEq ι] [Fintype ι] (b : Barrier ι) : Action ι → Option (Barrier ι)
  | .lock i =>
    if b.party i = .away ∧ b.mutex = none then some { b.setParty i .locked with mutex := some (some i) } else none
  | .count i => if b.party i = .locked then some { b.setParty i .counted with count := b.count + 1 } else none
  | .notify i =>
    if b.party i = .counted then
      some { b.setParty i .notified with waiter := if b.waiter = .waits then .woken else b.waiter }
    else none
  | .unlock i => if b.party i = .notified then some { b.setParty i .gone with mutex := none } else none
  | .enter =>
    if b.waiter = .before ∧ b.mutex = none then some { b with waiter := .checks, mutex := some none } else none
  | .check =>
    if b.waiter = .checks then
      some { b with waiter := if b.count < Fintype.card ι then .waits else .passed, mutex := none }
    else none
  | .wake =>
    if b.waiter = .woken ∧ b.mutex = none then some { b with waiter := .checks, mutex := some none } else none
  | .spurious => if b.waiter = .waits then some { b with waiter := .woken } else none

/-- Nobody has done anything. -/
def fresh (ι : Type*) : Barrier ι := ⟨0, none, fun _ => .away, .before⟩

/-- Moving a party moves that party only, -/
@[simp] theorem setParty_party [DecidableEq ι] (b : Barrier ι) (i j : ι) (p : Party) :
    (b.setParty i p).party j = if j = i then p else b.party j := by
  simp [setParty, Function.update_apply]

/-- leaves the count, -/
@[simp] theorem setParty_count [DecidableEq ι] (b : Barrier ι) (i : ι) (p : Party) :
    (b.setParty i p).count = b.count := rfl

/-- the mutex, -/
@[simp] theorem setParty_mutex [DecidableEq ι] (b : Barrier ι) (i : ι) (p : Party) :
    (b.setParty i p).mutex = b.mutex := rfl

/-- and the waiter as they are. -/
@[simp] theorem setParty_waiter [DecidableEq ι] (b : Barrier ι) (i : ι) (p : Party) :
    (b.setParty i p).waiter = b.waiter := rfl

/-- A party that has counted itself is still there when another moves. -/
theorem counted_setParty [DecidableEq ι] {b : Barrier ι} {i : ι} (p : Party) (other : b.party i ≠ .counted)
    (found : ∃ j, b.party j = .counted) : ∃ j, (b.setParty i p).party j = .counted := by
  obtain ⟨j, counted⟩ := found
  refine ⟨j, ?_⟩
  have apart : j ≠ i := by
    rintro rfl
    exact other counted
  simpa [apart] using counted

/-- A sum over the parties when one of them is somewhere else. -/
theorem sum_setParty [DecidableEq ι] [Fintype ι] (b : Barrier ι) (i : ι) (p : Party) (f : Party → Nat) :
    (∑ j, f ((b.setParty i p).party j)) + f (b.party i) = (∑ j, f (b.party j)) + f p :=
  sum_update b.party i p f

/-- The invariant: the mutex is with whoever is in its section, the counter counts, a waiter
that waits has somebody who will notify it, and when one has passed everybody is gone. -/
structure Inv [Fintype ι] (b : Barrier ι) : Prop where
  party : ∀ i, b.mutex = some (some i) ↔ (b.party i).holds = true
  waiter : b.mutex = some none ↔ b.waiter = .checks
  count : b.count = ∑ i, (b.party i).done
  heard : b.waiter = .waits → b.count < Fintype.card ι ∨ ∃ i, b.party i = .counted
  passed : b.waiter = .passed → ∀ i, b.party i = .gone

variable [Fintype ι]

/-- At the start nobody holds the mutex, and the count is that of nobody. -/
theorem inv_fresh : Inv (fresh ι) where
  party := by simp [fresh, Party.holds]
  waiter := by simp [fresh]
  count := by simp [fresh, Party.done]
  heard := by simp [fresh]
  passed := by simp [fresh]

variable {b b' : Barrier ι} {action : Action ι}

/-- Nobody else has the mutex. -/
theorem Inv.alone (inv : Inv b) {i j : ι} (holds : (b.party i).holds = true) (apart : j ≠ i) :
    (b.party j).holds = false := by
  have own := (inv.party i).mpr holds
  have other := inv.party j
  rw [own] at other
  simpa [Ne.symm apart] using other

/-- The counter does not pass the number of the parties. -/
theorem Inv.count_le (inv : Inv b) : b.count ≤ Fintype.card ι := by
  rw [inv.count, Fintype.card_eq_sum_ones]
  exact Finset.sum_le_sum fun i _ => by cases b.party i <;> simp [Party.done]

/-- Whoever is missing has not counted itself. -/
theorem Inv.missing (inv : Inv b) {i : ι} (early : (b.party i).done = 0) : b.count < Fintype.card ι := by
  rw [inv.count, Fintype.card_eq_sum_ones]
  refine Finset.sum_lt_sum (fun j _ => ?_) ⟨i, Finset.mem_univ i, by omega⟩
  cases b.party j <;> simp [Party.done]

/-- When the counter has the number of the parties, everybody has counted itself. -/
theorem Inv.everybody (inv : Inv b) (all : b.count = Fintype.card ι) (i : ι) : (b.party i).done = 1 := by
  by_contra early
  have zero : (b.party i).done = 0 := by
    cases found : b.party i <;> simp_all [Party.done]
  exact absurd all (Nat.ne_of_lt (inv.missing zero))

/-- The waiter has not passed somebody who is still there. -/
theorem Inv.not_passed (inv : Inv b) {i : ι} {p : Party} (found : b.party i = p) (there : p ≠ .gone) :
    b.waiter ≠ .passed :=
  fun passed => there (found.symm.trans (inv.passed passed i))

/-- Nobody moves: whoever is not done waits for the mutex, or for a notification. -/
structure Stuck (b : Barrier ι) : Prop where
  party : ∀ i, b.party i = .gone ∨ (b.party i = .away ∧ b.mutex ≠ none)
  waiter : b.waiter = .passed ∨ b.waiter = .waits ∨ ((b.waiter = .before ∨ b.waiter = .woken) ∧ b.mutex ≠ none)

/-- Nobody waits for ever: when nobody moves everybody is gone and the waiter has passed. The
mutex is free, so the waiter has looked at the count; when all are counted it passes. -/
theorem Inv.ended (inv : Inv b) (stuck : Stuck b) : b.waiter = .passed ∧ ∀ i, b.party i = .gone := by
  have free : b.mutex = none := by
    cases held : b.mutex with
    | none => rfl
    | some holder =>
      cases holder with
      | none =>
        have checks := inv.waiter.mp held
        have idle := stuck.waiter
        simp [checks] at idle
      | some i =>
        have holds := (inv.party i).mp held
        rcases stuck.party i with gone | ⟨away, _⟩
        · simp [gone, Party.holds] at holds
        · simp [away, Party.holds] at holds
  have gone : ∀ i, b.party i = .gone := fun i => (stuck.party i).resolve_right fun locked => locked.2 free
  refine ⟨?_, gone⟩
  rcases stuck.waiter with passed | waits | ⟨_, locked⟩
  · exact passed
  · have all : b.count = Fintype.card ι := by simp [inv.count, gone, Party.done]
    rcases inv.heard waits with missing | ⟨i, counted⟩
    · exact absurd all (Nat.ne_of_lt missing)
    · simp [gone i] at counted
  · exact absurd free locked

/-- The waiter takes the mutex, to look at the counter. -/
theorem Inv.enter (inv : Inv b) (free : b.mutex = none) : Inv { b with waiter := .checks, mutex := some none } := by
  refine ⟨?_, by simp, inv.count, by simp, by simp⟩
  simpa [free] using inv.party

/-- The waiter looks at the counter: when nobody is missing everybody has counted itself, and
nobody is in the section any more, since the waiter has the mutex. -/
theorem Inv.check (inv : Inv b) (checks : b.waiter = .checks) :
    Inv { b with waiter := if b.count < Fintype.card ι then .waits else .passed, mutex := none } := by
  have holds := inv.waiter.mpr checks
  refine ⟨?_, ?_, inv.count, ?_, ?_⟩
  · simpa [holds] using inv.party
  · by_cases missing : b.count < Fintype.card ι <;> simp [missing]
  · by_cases missing : b.count < Fintype.card ι <;> simp [missing]
  · by_cases missing : b.count < Fintype.card ι
    · simp [missing]
    · intro _ i
      have most := inv.count_le
      have done := inv.everybody (by omega) i
      have idle := inv.party i
      cases found : b.party i <;> simp [found, holds, Party.holds, Party.done] at done idle ⊢

variable [DecidableEq ι]

/-- What the counter counts when a party is somewhere else. -/
theorem Inv.count_setParty (inv : Inv b) (i : ι) (p : Party) :
    b.count + p.done = (∑ j, ((b.setParty i p).party j).done) + (b.party i).done := by
  rw [sum_setParty, inv.count]

/-- A party takes the mutex: nobody has it, and the counter has not counted the party yet. -/
theorem Inv.lock (inv : Inv b) {i : ι} (away : b.party i = .away) (free : b.mutex = none) :
    Inv { b.setParty i .locked with mutex := some (some i) } := by
  have sum := inv.count_setParty i .locked
  have waiter := inv.waiter
  refine ⟨fun j => ?_, ?_, ?_, fun waits => ?_, fun passed => absurd passed (inv.not_passed away (by decide))⟩
  · have party := inv.party j
    by_cases here : j = i
    · simp [here, Party.holds]
    · simpa [here, Ne.symm here, free] using party
  · simpa [free] using waiter
  · simpa [away, Party.done] using sum
  · exact (inv.heard waits).imp id (counted_setParty .locked (by simp [away]))

/-- A party counts itself, and is now one that will notify the waiter. -/
theorem Inv.counts (inv : Inv b) {i : ι} (locked : b.party i = .locked) :
    Inv { b.setParty i .counted with count := b.count + 1 } := by
  have sum := inv.count_setParty i .counted
  have own := (inv.party i).mpr (by simp [locked, Party.holds])
  refine ⟨fun j => ?_, inv.waiter, ?_, fun _ => .inr ⟨i, by simp⟩,
    fun passed => absurd passed (inv.not_passed locked (by decide))⟩
  · have party := inv.party j
    by_cases here : j = i
    · simp [here, own, Party.holds]
    · simpa [here] using party
  · simpa [locked, Party.done] using sum

/-- A party notifies: behind that nobody waits. A waiter that waits is woken and will test the
count again; any other stays where it is. -/
theorem Inv.notify (inv : Inv b) {i : ι} (counted : b.party i = .counted) :
    Inv { b.setParty i .notified with waiter := if b.waiter = .waits then .woken else b.waiter } := by
  have sum := inv.count_setParty i .notified
  have own := (inv.party i).mpr (by simp [counted, Party.holds])
  have waiter := inv.waiter
  refine ⟨fun j => ?_, ?_, ?_, ?_, ?_⟩
  · have party := inv.party j
    by_cases here : j = i
    · simp [here, own, Party.holds]
    · simpa [here] using party
  · by_cases waits : b.waiter = .waits
    · simp [waits, own]
    · simpa [waits] using waiter
  · simpa [counted, Party.done] using sum
  · by_cases waits : b.waiter = .waits <;> simp [waits]
  · have early : b.waiter ≠ .passed := inv.not_passed counted (by decide)
    by_cases waits : b.waiter = .waits <;> simp [waits, early]

/-- A party lets go of the mutex, and is gone. -/
theorem Inv.unlock (inv : Inv b) {i : ι} (notified : b.party i = .notified) :
    Inv { b.setParty i .gone with mutex := none } := by
  have sum := inv.count_setParty i .gone
  have own := (inv.party i).mpr (by simp [notified, Party.holds])
  have waiter := inv.waiter
  refine ⟨fun j => ?_, ?_, ?_, fun waits => ?_, fun passed => absurd passed (inv.not_passed notified (by decide))⟩
  · have party := inv.party j
    by_cases here : j = i
    · simp [here, Party.holds]
    · simpa [here, own, Ne.symm here] using party
  · simpa [own] using waiter
  · simpa [notified, Party.done] using sum
  · exact (inv.heard waits).imp id (counted_setParty .gone (by simp [notified]))

/-- Every step keeps the invariant. One lemma for each kind of move; the count is that of the
parties behind it, and a waiter that sleeps has one still to come or a notification. -/
theorem Inv.step (inv : Inv b) (stepped : Barrier.step b action = some b') : Inv b' := by
  cases action with
  | lock i =>
    obtain ⟨⟨away, free⟩, rest⟩ := Option.ite_none_right_eq_some.mp stepped
    obtain rfl := Option.some.inj rest
    exact inv.lock away free
  | count i =>
    obtain ⟨locked, rest⟩ := Option.ite_none_right_eq_some.mp stepped
    obtain rfl := Option.some.inj rest
    exact inv.counts locked
  | notify i =>
    obtain ⟨counted, rest⟩ := Option.ite_none_right_eq_some.mp stepped
    obtain rfl := Option.some.inj rest
    exact inv.notify counted
  | unlock i =>
    obtain ⟨notified, rest⟩ := Option.ite_none_right_eq_some.mp stepped
    obtain rfl := Option.some.inj rest
    exact inv.unlock notified
  | enter =>
    obtain ⟨⟨_, free⟩, rest⟩ := Option.ite_none_right_eq_some.mp stepped
    obtain rfl := Option.some.inj rest
    exact inv.enter free
  | check =>
    obtain ⟨checks, rest⟩ := Option.ite_none_right_eq_some.mp stepped
    obtain rfl := Option.some.inj rest
    exact inv.check checks
  | wake =>
    obtain ⟨⟨_, free⟩, rest⟩ := Option.ite_none_right_eq_some.mp stepped
    obtain rfl := Option.some.inj rest
    exact inv.enter free
  | spurious =>
    obtain ⟨waits, rest⟩ := Option.ite_none_right_eq_some.mp stepped
    obtain rfl := Option.some.inj rest
    refine ⟨inv.party, ?_, inv.count, by simp, by simp⟩
    simpa [waits] using inv.waiter

end Barrier

end Naruto.Theory
