import Naruto.Cluster.ClusterView
import Naruto.Theory.Runs
import Naruto.Utils.AofName

/-!
# The state of the cluster

`updateView` decides whether the cluster is up: it is not when a slot has no node or a failed one,
or when a majority of the masters that have slots has failed. The masters are counted in `size`,
which is never set back to zero: each call adds the masters once more, and the majority that is
needed grows with the number of calls.
-/

namespace Naruto.Cluster

open Naruto.Theory Naruto.Utils

/-- `++` of an `int`. Nothing when it overflows. -/
def increment (value : Int) : Option Int := if File.isInt (value + 1) = true then some (value + 1) else none

namespace ClusterView

/-- A slot without a node, or with a failed one. -/
def brokenSlot (view : ClusterView) (slot : Fin clusterSlots) : Bool :=
  match view.slots slot with
  | none => true
  | some id => (view.node id).has .fail

/-- A master that has slots. -/
def counts (view : ClusterView) (entry : String × Nat) : Bool :=
  (view.node entry.2).has .master ∧ 0 < (view.node entry.2).numslots

/-- The body of the loop over the nodes, on `size` and `unreachable_masters`. -/
def countMaster (view : ClusterView) (counters : Int × Int) (entry : String × Nat) : Option (Int × Int) := do
  if view.counts entry = true then
    let size ← increment counters.1
    if (view.node entry.2).has .fail = true ∨ (view.node entry.2).has .fail = true then
      let unreachableMasters ← increment counters.2
      some (size, unreachableMasters)
    else some (size, counters.2)
  else some counters

/-- `first_call_time_ms`, set by the first call. -/
def firstCall (view : ClusterView) (nowMs : Int) : Int :=
  if view.firstCallTimeMs = 0 then nowMs else view.firstCallTimeMs

/-- `updateView`, at a time and with `cluster_writable_delay_ms`. Nothing when `myself` is null or
a counter overflows. -/
def updateView (delayMs : Int) (view : ClusterView) (nowMs : Int) : Option ClusterView := do
  let myself ← view.myself
  let view := { view with firstCallTimeMs := view.firstCall nowMs }
  if (view.node myself).has .master = true ∧ nowMs - view.firstCallTimeMs < delayMs then some view
  else
    let newState := if (List.finRange clusterSlots).any view.brokenSlot = true then ClusterState.fail else .ok
    let (size, unreachableMasters) ← run view.countMaster (view.size, 0) view.nodes.entries
    let neededQuorum := size.tdiv 2 + 1
    let newState := if neededQuorum ≤ unreachableMasters then .fail else newState
    some { view with size := size, state := newState }

/-- The masters that have slots. -/
def masters (view : ClusterView) : Nat := view.nodes.entries.countP view.counts

/-- A failed one. -/
def countsFailed (view : ClusterView) (entry : String × Nat) : Bool :=
  view.counts entry && (view.node entry.2).has .fail

/-- The masters that have slots and have failed. -/
def failedMasters (view : ClusterView) : Nat := view.nodes.entries.countP view.countsFailed

/-- Some slot is broken. -/
def Broken (view : ClusterView) : Prop := ∃ slot, view.brokenSlot slot = true

/-- The cluster is down: some slot is broken, or a majority of its masters has failed. -/
def Down (view : ClusterView) : Prop := view.Broken ∨ view.masters / 2 + 1 ≤ view.failedMasters

/-- `size` and `state` are what the tables say. -/
def Updated (view : ClusterView) : Prop := view.size = view.masters ∧ (view.state = .fail ↔ view.Down)

/-- The time is past the write protection. -/
def Past (delayMs : Int) (view : ClusterView) (nowMs : Int) : Prop :=
  ∀ myself, view.myself = some myself → (view.node myself).has .master = true →
    delayMs ≤ nowMs - view.firstCall nowMs

variable {view view' : ClusterView} {delayMs nowMs : Int}

/-- A counter that does not overflow goes up by one and stays an `int`. -/
theorem increment_some {value next : Int} (incremented : increment value = some next) :
    next = value + 1 ∧ File.isInt next = true := by
  obtain ⟨inside, same⟩ := Option.ite_none_right_eq_some.mp incremented
  obtain rfl := Option.some.inj same
  exact ⟨rfl, inside⟩

/-- What one pass adds to the counters. It raises the first for a master with slots, and the
second when that master has failed as well. -/
theorem countMaster_some {counters counters' : Int × Int} {entry : String × Nat}
    (counted : view.countMaster counters entry = some counters') :
    counters'.1 = counters.1 + (view.counts entry).toNat ∧
      counters'.2 = counters.2 + (view.countsFailed entry).toNat ∧
      (view.counts entry = true → File.isInt counters'.1 = true) := by
  unfold countMaster at counted
  cases counts : view.counts entry with
  | false =>
    rw [counts, if_neg Bool.false_ne_true] at counted
    obtain rfl := Option.some.inj counted
    simp [countsFailed, counts]
  | true =>
    rw [counts, if_pos rfl] at counted
    obtain ⟨size, incremented, rest⟩ := Option.bind_eq_some_iff.mp counted
    obtain ⟨rfl, inside⟩ := increment_some incremented
    cases failed : (view.node entry.2).has .fail with
    | false =>
      simp only [failed, Bool.false_eq_true, or_self, if_false, Option.some.injEq] at rest
      subst rest
      simp [countsFailed, counts, failed, inside]
    | true =>
      simp only [failed, or_self, if_true] at rest
      obtain ⟨unreachable, again, same⟩ := Option.bind_eq_some_iff.mp rest
      obtain ⟨rfl, _⟩ := increment_some again
      obtain rfl := Option.some.inj same
      simp [countsFailed, counts, failed, inside]

/-- The counters behind the loop. By induction on the nodes. So the first has grown by the
masters with slots, and the second by those that have failed. -/
theorem countMasters_some {counters counters' : Int × Int} {entries : List (String × Nat)}
    (counted : run view.countMaster counters entries = some counters') :
    counters'.1 = counters.1 + entries.countP view.counts ∧
      counters'.2 = counters.2 + entries.countP view.countsFailed ∧
      (0 < entries.countP view.counts → File.isInt counters'.1 = true) := by
  induction entries generalizing counters with
  | nil =>
    obtain rfl := Option.some.inj counted
    simp
  | cons entry entries ih =>
    obtain ⟨middle, first, rest⟩ := Option.bind_eq_some_iff.mp counted
    obtain ⟨size, unreachable, inside⟩ := countMaster_some first
    obtain ⟨sizes, unreachables, insides⟩ := ih rest
    refine ⟨?_, ?_, fun positive => ?_⟩
    · rw [List.countP_cons, sizes, size]
      cases view.counts entry <;> simp
      omega
    · rw [List.countP_cons, unreachables, unreachable]
      cases view.countsFailed entry <;> simp
      omega
    · rcases Nat.eq_zero_or_pos (entries.countP view.counts) with none | some
      · rw [List.countP_cons, none] at positive
        rw [sizes, none, Int.natCast_zero, Int.add_zero]
        cases counts : view.counts entry with
        | true => exact inside counts
        | false =>
          rw [counts] at positive
          simp at positive
      · exact insides some

/-- A loop that begins with zeros goes through when the masters are an `int`. By induction on
the nodes. The second counter stays below the first, so only the first can be too large. -/
theorem countMasters_progress {counters : Int × Int} {entries : List (String × Nat)} (positive : 0 ≤ counters.2)
    (fewer : counters.2 ≤ counters.1) (bound : counters.1 + entries.countP view.counts ≤ 2147483647) :
    ∃ counters', run view.countMaster counters entries = some counters' := by
  induction entries generalizing counters with
  | nil => exact ⟨counters, rfl⟩
  | cons entry entries ih =>
    obtain ⟨middle, counted⟩ : ∃ middle, view.countMaster counters entry = some middle := by
      have inc : ∀ value : Int, 0 ≤ value → value + 1 ≤ 2147483647 → increment value = some (value + 1) := by
        intro value low high
        rw [increment, if_pos]
        rw [File.isInt, decide_eq_true_iff]
        omega
      unfold countMaster
      cases counts : view.counts entry with
      | false => exact ⟨counters, rfl⟩
      | true =>
        rw [List.countP_cons_of_pos counts] at bound
        cases failed : (view.node entry.2).has .fail with
        | false =>
          rw [inc counters.1 (by omega) (by omega)]
          exact ⟨_, rfl⟩
        | true =>
          rw [inc counters.1 (by omega) (by omega), inc counters.2 (by omega) (by omega)]
          exact ⟨_, rfl⟩
    obtain ⟨size, unreachable, _⟩ := countMaster_some counted
    rw [List.countP_cons] at bound
    have least : (view.countsFailed entry).toNat ≤ (view.counts entry).toNat := by
      rw [countsFailed]
      cases view.counts entry <;> cases (view.node entry.2).has .fail <;> decide
    have same : (if view.counts entry = true then 1 else 0) = (view.counts entry).toNat := by
      cases view.counts entry <;> rfl
    rw [same] at bound
    obtain ⟨counters', rest⟩ := @ih middle (by omega) (by omega) (by omega)
    exact ⟨counters', by rw [run_cons, counted]; exact rest⟩

/-- The loop over the slots finds a broken one. -/
theorem any_broken (view : ClusterView) : (List.finRange clusterSlots).any view.brokenSlot = true ↔ view.Broken := by
  simp [Broken]

/-- A call past the write protection keeps the tables, adds the masters to `size`, and
decides by what is then in it. The state is `FAIL` when a slot is broken or half of the sum
has failed. -/
theorem updateView_some (past : view.Past delayMs nowMs) (updated : view.updateView delayMs nowMs = some view') :
    ∃ state, view' = { view with
        firstCallTimeMs := view.firstCall nowMs, size := view.size + view.masters, state := state } ∧
      (state = .fail ↔ view.Broken ∨ (view.size + view.masters).tdiv 2 + 1 ≤ view.failedMasters) ∧
      (0 < view.masters → view.size + view.masters ≤ 2147483647) := by
  obtain ⟨myself, pointer, updated⟩ := Option.bind_eq_some_iff.mp updated
  dsimp only at updated
  split at updated
  · rename_i early
    have late := past myself pointer early.1
    have before := early.2
    omega
  · obtain ⟨⟨size, unreachable⟩, counted, same⟩ := Option.bind_eq_some_iff.mp updated
    obtain rfl := Option.some.inj same
    obtain ⟨sizes, unreachables, inside⟩ := countMasters_some counted
    have total : size = view.size + view.masters := sizes
    have failed : unreachable = view.failedMasters := unreachables.trans (Int.zero_add _)
    subst total failed
    refine ⟨_, rfl, ?_, fun some => (of_decide_eq_true (inside some)).2⟩
    have broken := any_broken view
    dsimp only
    split
    · rename_i quorum
      simp [quorum]
    · rename_i quorum
      split
      · rename_i found
        simp [broken.mp found]
      · rename_i found
        have whole : ¬ view.Broken := fun some => found (broken.mpr some)
        simp [whole, quorum]

/-- A call goes through when `size` is zero and the masters are an `int`. The count of a call
starts at `size` and goes up by one for each master, so it never passes an `int`. -/
theorem updateView_progress {myself : Nat} (pointer : view.myself = some myself) (zero : view.size = 0)
    (bound : view.masters ≤ 2147483647) : ∃ view', view.updateView delayMs nowMs = some view' := by
  have fits : view.size + (view.nodes.entries.countP view.counts : Int) ≤ 2147483647 := by
    have masters : view.nodes.entries.countP view.counts = view.masters := rfl
    omega
  obtain ⟨counters, counted⟩ := @countMasters_progress view (view.size, 0) view.nodes.entries (Int.le_refl 0)
    (Int.le_of_eq zero.symm) fits
  have counted' : ∀ pointer, run { view with myself := pointer, firstCallTimeMs := view.firstCall nowMs }.countMaster
      (view.size, 0) view.nodes.entries = some counters := fun _ => counted
  rw [updateView, pointer, Option.bind_eq_bind, Option.bind_some]
  dsimp only
  split
  · exact ⟨_, rfl⟩
  · rw [counted']
    exact ⟨_, rfl⟩

/-- What a call leaves in `size`, and what it decides, when `size` was zero. -/
theorem updated_of_zero (past : view.Past delayMs nowMs) (zero : view.size = 0)
    (updated : view.updateView delayMs nowMs = some view') : view'.Updated := by
  obtain ⟨state, rfl, down, _⟩ := updateView_some past updated
  have quorum : (view.size + (view.masters : Int)).tdiv 2 + 1 ≤ view.failedMasters ↔
      view.masters / 2 + 1 ≤ view.failedMasters := by
    rw [zero, Int.zero_add, Int.tdiv_eq_ediv_of_nonneg (Int.natCast_nonneg _)]
    omega
  have size : view.size + (view.masters : Int) = view.masters := by omega
  exact ⟨size, down.trans (or_congr Iff.rfl quorum)⟩

/-- A call leaves the view as it should exactly when `size` was zero. What it leaves in `size`
is what was there and the masters. -/
theorem call_updated_iff (past : view.Past delayMs nowMs) :
    (∃ view', view.updateView delayMs nowMs = some view' ∧ view'.Updated) ↔
      view.myself ≠ none ∧ view.size = 0 ∧ view.masters ≤ 2147483647 := by
  constructor
  · rintro ⟨view', updated, sound⟩
    obtain ⟨myself, pointer, _⟩ := Option.bind_eq_some_iff.mp updated
    obtain ⟨state, rfl, _, bound⟩ := updateView_some past updated
    have size : view.size + (view.masters : Int) = view.masters := sound.1
    refine ⟨by simp [pointer], by omega, ?_⟩
    rcases Nat.eq_zero_or_pos view.masters with none | some
    · omega
    · have := bound some
      omega
  · rintro ⟨pointer, zero, bound⟩
    obtain ⟨myself, pointer⟩ := Option.ne_none_iff_exists'.mp pointer
    obtain ⟨view', updated⟩ := updateView_progress pointer zero bound
    exact ⟨view', updated, updated_of_zero past zero updated⟩

/-- Without masters that have slots nothing is added up. By induction on the calls. -/
theorem calls_without_masters {times : List Int} (nonempty : times ≠ [])
    (past : Along (updateView delayMs) (Past delayMs) view times) (pointer : view.myself ≠ none)
    (zero : view.size = 0) (noMasters : view.masters = 0) :
    ∃ view', run (updateView delayMs) view times = some view' ∧ view'.Updated := by
  induction times generalizing view with
  | nil => exact absurd rfl nonempty
  | cons time times ih =>
    obtain ⟨view', updated, sound⟩ := (call_updated_iff past.1).mpr ⟨pointer, zero, by omega⟩
    rw [run_cons, updated, Option.bind_some]
    cases times with
    | nil => exact ⟨view', rfl, sound⟩
    | cons next times =>
      have later := past.2 view' updated
      obtain ⟨state, rfl, _, _⟩ := updateView_some past.1 updated
      have zero' : view.size + (view.masters : Int) = 0 := by omega
      exact ih (List.cons_ne_nil _ _) later pointer zero' noMasters

/-- The second call finds the masters of the first one in `size`: when both leave what the tables
say, there are none. -/
theorem masters_of_second {view'' : ClusterView} {nextMs : Int} (past : view.Past delayMs nowMs)
    (updated : view.updateView delayMs nowMs = some view') (sound : view'.Updated)
    (past' : view'.Past delayMs nextMs) (updated' : view'.updateView delayMs nextMs = some view'')
    (sound' : view''.Updated) : view.masters = 0 := by
  have zero : view'.size = 0 := ((call_updated_iff past').mp ⟨view'', updated', sound'⟩).2.1
  have size : view'.size = view'.masters := sound.1
  have masters : view'.masters = view.masters := by
    obtain ⟨state, rfl, _, _⟩ := updateView_some past updated
    rfl
  omega

/-- In consecutive calls past the write protection, `size` and `state` are what the tables say
behind each of them exactly when `size` was zero before the first one and there are no more
calls, or no masters with slots.

Proof: a call adds the number of masters with slots to `size`, which nothing resets, and the
state is decided by the sum. So the first call is right from zero, and a second one only when
the first has added nothing; without masters no call adds anything. -/
theorem calls_updated_iff (delayMs : Int) (view : ClusterView) (times : List Int)
    (past : Along (updateView delayMs) (Past delayMs) view times) :
    (∀ front back, times = front ++ back → front ≠ [] →
        ∃ view', run (updateView delayMs) view front = some view' ∧ view'.Updated) ↔
      times = [] ∨ view.myself ≠ none ∧ view.size = 0 ∧ view.masters ≤ 2147483647 ∧
        (times.length = 1 ∨ view.masters = 0) := by
  constructor
  · intro all
    cases times with
    | nil => exact Or.inl rfl
    | cons time times =>
      obtain ⟨view', ran, sound⟩ := all [time] times rfl (List.cons_ne_nil _ _)
      obtain ⟨last, updated, same⟩ := Option.bind_eq_some_iff.mp ran
      obtain rfl := Option.some.inj same
      obtain ⟨pointer, zero, bound⟩ := (call_updated_iff past.1).mp ⟨last, updated, sound⟩
      refine Or.inr ⟨pointer, zero, bound, ?_⟩
      cases times with
      | nil => exact Or.inl rfl
      | cons next times =>
        obtain ⟨view'', ran', sound'⟩ := all [time, next] times rfl (List.cons_ne_nil _ _)
        rw [run_cons, updated, Option.bind_some] at ran'
        obtain ⟨last', updated', same'⟩ := Option.bind_eq_some_iff.mp ran'
        obtain rfl := Option.some.inj same'
        exact Or.inr (masters_of_second past.1 updated sound (past.2 last updated).1 updated' sound')
  · rintro (rfl | ⟨pointer, zero, bound, once | noMasters⟩) front back split nonempty
    · exact absurd (List.append_eq_nil_iff.mp split.symm).1 nonempty
    · obtain ⟨time, rfl⟩ := List.length_eq_one_iff.mp once
      obtain ⟨view', updated, sound⟩ := (call_updated_iff past.1).mpr ⟨pointer, zero, bound⟩
      refine ⟨view', ?_, sound⟩
      obtain ⟨first, front', rfl⟩ := List.exists_cons_of_ne_nil nonempty
      obtain ⟨rfl, rest⟩ := List.cons.inj split
      obtain ⟨rfl, _⟩ := List.append_eq_nil_iff.mp rest.symm
      rw [run_cons, updated]
      rfl
    · rw [split] at past
      exact calls_without_masters nonempty past.append.1 pointer zero noMasters

/-- A master that serves all slots alone, past its first call. -/
def alone : ClusterView where
  node := fun _ => { ClusterNode.new "127.0.0.1" 7290 17#32 0 with numslots := 16384 }
  nodes := ⟨[("127.0.0.1:7290", 0)], by decide, by decide⟩
  slots := fun _ => some 0
  myself := some 0
  currentEpoch := 0#64
  state := .ok
  size := 0
  firstCallTimeMs := 1

/-- The delays of its first call are over. -/
theorem alone_past : alone.Past 2000 10000 := fun _ _ _ => by
  have first : alone.firstCall 10000 = 1 := rfl
  omega

/-- Its first call. -/
theorem alone_updated :
    (∀ front back, [10000] = front ++ back → front ≠ [] →
        ∃ view', run (updateView 2000) alone front = some view' ∧ view'.Updated) ↔
      [(10000 : Int)] = [] ∨ alone.myself ≠ none ∧ alone.size = 0 ∧ alone.masters ≤ 2147483647 ∧
        ([(10000 : Int)].length = 1 ∨ alone.masters = 0) :=
  calls_updated_iff 2000 alone [10000] ⟨alone_past, fun _ _ => trivial⟩

/-- With its second call it is counted twice. A view with one master that has slots, and two
calls ten seconds apart. -/
theorem calls_not_updated : ¬ ∀ (delayMs : Int) (view : ClusterView) (times : List Int),
    Along (updateView delayMs) (Past delayMs) view times → ∀ front back, times = front ++ back → front ≠ [] →
      ∃ view', run (updateView delayMs) view front = some view' ∧ view'.Updated := by
  intro all
  have later : ∀ view', alone.updateView 2000 10000 = some view' → view'.size = 1 ∧ view'.Past 2000 20000 := by
    intro view' updated
    obtain ⟨state, rfl, _, _⟩ := updateView_some alone_past updated
    refine ⟨rfl, fun _ _ _ => ?_⟩
    show (2000 : Int) ≤ 20000 - 1
    decide
  have past : Along (updateView 2000) (Past 2000) alone [10000, 20000] :=
    ⟨alone_past, fun view' updated => ⟨(later view' updated).2, fun _ _ => trivial⟩⟩
  obtain ⟨last, ran, sound⟩ := all 2000 alone [10000, 20000] past [10000, 20000] [] rfl (List.cons_ne_nil _ _)
  obtain ⟨middle, updated, rest⟩ := Option.bind_eq_some_iff.mp ran
  obtain ⟨last', updated', same⟩ := Option.bind_eq_some_iff.mp rest
  obtain rfl := Option.some.inj same
  obtain ⟨size, past'⟩ := later middle updated
  have zero := ((call_updated_iff past').mp ⟨last', updated', sound⟩).2.1
  omega

end ClusterView

end Naruto.Cluster
