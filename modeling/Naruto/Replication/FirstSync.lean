import Naruto.Replication.Psync

/-!
# The first sync from an AOF

A master without a database file lets a new slave begin with its first AOF file.
Its store is what its AOF makes of an empty one. The slave executes the AOF on
the store it has: nothing empties it first, as the full sync does. A cell that the
slave holds already must be one that the master has, of the same type, for the
two to agree in the end.
-/

namespace Naruto.Replication.FirstSync

open Naruto.Theory Naruto.Utils Naruto.Sink Naruto.Database Naruto.Command SlavePosition

variable {k m : Nat}

/-- What happens to a master: its own clients, with the memory behind their packets, a master
above it, and the rest. -/
inductive Event (k : Nat)
  | hset (tid : Fin k) (clock : Clock) (pack : Pack) (beyond : List UInt8)
  | multi (tid : Fin k) (clock : Clock) (message : Multi)
  | merge
  | bgsave
  | bgsaveFinish
  | confFlush
  | crash (clock : Clock) (genRandomID : String)

/-- One event. Each is one function of the server; a crash is a start on what is on disk. -/
def step (parse : ParseHset) (sorting : Sorting k) (s : Server k) : Event k → Option (Server k)
  | .hset tid clock pack beyond =>
    if pack.type = clientHset then s.commandHset parse clock tid pack beyond else none
  | .multi tid clock message => s.commandAof parse clock tid message
  | .merge => some (s.merge sorting)
  | .bgsave => some s.bgsave
  | .bgsaveFinish => some s.onBgsaveFinish
  | .confFlush => some s.replConfFlush
  | .crash clock genRandomID => s.init parse clock genRandomID

/-- An `hset` that is accepted does to the store what its packet does in a replay. -/
def HsetsOwn (parse : ParseHset) (s : Server k) : Event k → Prop
  | .hset _ _ pack beyond => s.ExecutesOwn parse pack beyond
  | _ => True

/-- A packet as a message carries it: without its flag. -/
def carried (p : Pack) : Pack := { p with flag := 0 }

/-- Messages from the master, executed one after another. -/
def applyAll (parse : ParseHset) (s : Server m) (messages : List (Fin m × Clock × Multi)) : Option (Server m) :=
  messages.foldlM (fun s message => s.commandAof parse message.2.1 message.1 message.2.2) s

/-- The invariant of a master as long as it has no database file: the AOF and what
waits have led from an empty store to its own, and no position is recorded. -/
structure Logged (parse : ParseHset) (s : Server k) (pending : List Pack) : Prop where
  waiting : s.backlog.Waiting pending
  live : performPacks parse Buckets.empty.cells (s.aofFiles.flatten ++ pending) = some s.buckets.cells
  opened : s.aofFiles ≠ []
  memory : s.replConf.dbDumpAof = ⟨none, 0⟩
  disk : s.diskConf.dbDumpAof = ⟨none, 0⟩

section Master

variable {parse : ParseHset} {sorting : Sorting k} {s s' : Server k} {pending packs : List Pack}

/-- Packets are performed and fed. They wait behind what waits, and the store has performed them
last. -/
theorem Logged.fed (logged : Logged parse s pending) (fed : s.Fed parse packs s') :
    Logged parse s' (pending ++ packs) := by
  have files : s'.aofFiles = s.aofFiles := fed.files
  have same := fed.same
  constructor
  · exact fed.waiting pending logged.waiting
  · rw [files, ← List.append_assoc]
    exact performAll_join logged.live fed.performed
  · rw [files]
    exact logged.opened
  · rw [same]
    exact logged.memory
  · rw [same]
    exact logged.disk

/-- The configuration is flushed. -/
theorem Logged.confFlush (logged : Logged parse s pending) : Logged parse s.replConfFlush pending := by
  obtain ⟨buckets, backlog, _, _, _, position, disk⟩ := s.replConfFlush_frame
  have files := s.replConfFlush_files
  constructor
  · rw [backlog]
    exact logged.waiting
  · rw [files, buckets]
    exact logged.live
  · rw [files]
    exact logged.opened
  · exact position.trans logged.memory
  · rw [disk]
    exact position.trans logged.memory

/-- What waits is merged. It goes to the end of the AOF, and the AOF alone leads to the store.
-/
theorem Logged.merge (logged : Logged parse s pending) (sorting : Sorting k) : Logged parse (s.merge sorting) [] := by
  obtain ⟨b, waits, extended, result⟩ := s.merge_spec logged.waiting sorting
  have merged : Logged parse { s with backlog := b } [] := by
    constructor
    · exact waits
    · have files : ({ s with backlog := b } : Server k).aofFiles.flatten = s.aofFiles.flatten ++ pending :=
        extended.log
      rw [files, List.append_nil]
      exact logged.live
    · exact List.concat_ne_nil _ _
    · exact logged.memory
    · exact logged.disk
  rw [result]
  by_cases nothing : pending = []
  · rw [if_pos nothing]
    exact merged
  · rw [if_neg nothing]
    exact merged.confFlush

/-- A start without a database file executes the AOF on an empty store. No position was
recorded, so the AOF is executed from its beginning. -/
theorem Logged.crash (logged : Logged parse s pending) (undumped : s.dbFile = none) {clock : Clock}
    {genRandomID : String} (started : s.init parse clock genRandomID = some s') : Logged parse s' [] := by
  obtain ⟨recovered, _, conf, _⟩ := Server.init_spec started
  obtain ⟨waiting, opened, extended, disk, _⟩ := Server.init_files started
  have replayed := s.recover_spec parse clock (at_start s.aofFiles logged.opened)
  have base : s.loadDb.cells = Buckets.empty.cells := by
    rw [Server.loadDb, undumped]
    exact Buckets.load_nil
  rw [logged.disk] at recovered
  rw [recovered, Option.map_some, base, List.drop_zero] at replayed
  constructor
  · exact waiting
  · rw [extended.log, List.append_nil, List.append_nil]
    exact replayed.symm
  · exact opened
  · rw [conf]
    exact logged.disk
  · rw [disk]
    exact logged.disk

/-- An `hset` that does what its packet does feeds what it performs. -/
theorem hset_fed {tid : Fin k} {clock : Clock} {pack : Pack} {beyond : List UInt8}
    (own : s.ExecutesOwn parse pack beyond) (stepped : step parse sorting s (.hset tid clock pack beyond) = some s') :
    s.Fed parse [pack] s' ∨ s.Fed parse [] s' :=
  (Server.commandHset_spec own (Option.ite_none_right_eq_some.mp stepped).2).2

/-- No event takes a database file away. A bgsave that finishes makes one, and the others leave
it alone. -/
theorem undumped_before {event : Event k} (stepped : step parse sorting s event = some s')
    (undumped : s'.dbFile = none) : s.dbFile = none := by
  cases event with
  | hset tid clock pack beyond =>
    have same := Server.commandHset_frame (Option.ite_none_right_eq_some.mp stepped).2
    rw [same] at undumped
    exact undumped
  | multi tid clock message =>
    have same := (Server.commandAof_spec stepped).1.same
    rw [same] at undumped
    exact undumped
  | merge =>
    obtain rfl := Option.some.inj stepped
    rw [Server.merge] at undumped
    split at undumped <;> exact undumped
  | bgsave =>
    obtain rfl := Option.some.inj stepped
    rcases s.bgsave_cases with same | ⟨_, _, forks⟩
    · rw [same] at undumped
      exact undumped
    · rw [forks] at undumped
      exact undumped
  | bgsaveFinish =>
    obtain rfl := Option.some.inj stepped
    rw [Server.onBgsaveFinish] at undumped
    split at undumped
    · exact undumped
    · cases undumped
  | confFlush =>
    obtain rfl := Option.some.inj stepped
    exact undumped
  | crash clock genRandomID =>
    have dbFile := (Server.init_spec stepped).2.2.2.2.2.1
    exact dbFile.symm.trans undumped

/-- Every event that brings no database file keeps the invariant. The AOF with what waits makes
the store of an empty one, whatever the event adds to both. -/
theorem Logged.step {event : Event k} (logged : Logged parse s pending) (own : HsetsOwn parse s event)
    (stepped : step parse sorting s event = some s') (undumped : s'.dbFile = none) :
    ∃ pending', Logged parse s' pending' := by
  have before := undumped_before stepped undumped
  cases event with
  | hset tid clock pack beyond =>
    rcases hset_fed own stepped with fed | fed
    · exact ⟨_, logged.fed fed⟩
    · exact ⟨_, logged.fed fed⟩
  | multi tid clock message => exact ⟨_, logged.fed (Server.commandAof_spec stepped).1⟩
  | merge =>
    obtain rfl := Option.some.inj stepped
    exact ⟨[], logged.merge sorting⟩
  | bgsave =>
    obtain rfl := Option.some.inj stepped
    refine ⟨pending, ?_⟩
    rcases s.bgsave_cases with same | ⟨_, _, forks⟩
    · rw [same]
      exact logged
    · rw [forks]
      exact ⟨logged.waiting, logged.live, logged.opened, logged.memory, logged.disk⟩
  | bgsaveFinish =>
    obtain rfl := Option.some.inj stepped
    rw [Server.onBgsaveFinish] at undumped ⊢
    split at undumped
    · exact ⟨pending, logged⟩
    · cases undumped
  | confFlush =>
    obtain rfl := Option.some.inj stepped
    exact ⟨pending, logged.confFlush⟩
  | crash clock genRandomID => exact ⟨[], logged.crash before stepped⟩

/-- A server in an empty directory. -/
theorem Logged.fresh (parse : ParseHset) (rotateAofFileSize : Nat) (runId : String) :
    Logged parse (Server.fresh rotateAofFileSize runId : Server k) [] :=
  ⟨Backlog.Waiting.initializer _ _, rfl, List.cons_ne_nil _ _, rfl, rfl⟩

/-- A master without a database file, whose `hset`s do what their packets do, when nothing
waits: its store is what its AOF makes of an empty one. -/
theorem live_of_run {rotateAofFileSize : Nat} {runId : String} {events : List (Event k)}
    (own : Along (FirstSync.step parse sorting) (HsetsOwn parse) (Server.fresh rotateAofFileSize runId) events)
    (ran : run (FirstSync.step parse sorting) (Server.fresh rotateAofFileSize runId) events = some s)
    (undumped : s.dbFile = none) (merged : s.unmerged sorting = []) :
    performPacks parse Buckets.empty.cells s.aofFiles.flatten = some s.buckets.cells := by
  have invariant : s.dbFile = none → ∃ pending, Logged parse s pending := by
    refine run_invariant (fun s => s.dbFile = none → ∃ pending, Logged parse s pending) ?_ _ s events ?_ own ran
    · intro s event s' inv own stepped undumped
      obtain ⟨pending, logged⟩ := inv (undumped_before stepped undumped)
      exact logged.step own stepped undumped
    · exact fun _ => ⟨[], Logged.fresh parse rotateAofFileSize runId⟩
  obtain ⟨pending, logged⟩ := invariant undumped
  rw [s.unmerged_eq logged.waiting] at merged
  have live := logged.live
  rw [merged, List.append_nil] at live
  exact live

end Master

/-- The flag of a packet does not count. -/
theorem performPacks_carried (parse : ParseHset) (s : Cell → Option Object) (packs : List Pack) :
    performPacks parse s (packs.map carried) = performPacks parse s packs := by
  induction packs generalizing s with
  | nil => rfl
  | cons p packs ih =>
    have same : perform Object.type (entryOf parse) s (carried p) = perform Object.type (entryOf parse) s p := rfl
    rw [List.map_cons, performPacks, performPacks, performAll_cons, performAll_cons, same]
    exact congrArg _ (funext ih)

/-- Packets that the store can perform are executed and fed. By induction on them: what
`execMsg` does to the cells is what the packet performs. -/
theorem execFeed_all {parse : ParseHset} (clock : Clock) (tid : Fin m) {s : Server m} {packs : List Pack}
    {t : Cell → Option Object} (performed : performPacks parse s.buckets.cells packs = some t) :
    ∃ s', packs.foldlM (Server.execFeed parse clock tid) s = some s' := by
  induction packs generalizing s with
  | nil => exact ⟨s, rfl⟩
  | cons p packs ih =>
    rw [performPacks, performAll_cons] at performed
    obtain ⟨middle, first, rest⟩ := Option.bind_eq_some_iff.mp performed
    obtain ⟨result, executes, rfl⟩ := Option.map_eq_some_iff.mp ((execPack_cells parse clock s.buckets p).trans first)
    obtain ⟨s₁, fed⟩ : ∃ s₁, s.execFeed parse clock tid p = some s₁ := by
      rw [Server.execFeed, executes]
      exact ⟨_, rfl⟩
    have cells : s₁.buckets.cells = result.1.cells := by
      have once := (Server.execFeed_spec fed).1.performed
      rw [performPacks, performAll_cons, first] at once
      exact (Option.some.inj once).symm
    rw [← cells] at rest
    obtain ⟨s', done⟩ := ih rest
    rw [List.foldlM_cons, fed]
    exact ⟨s', done⟩

/-- Messages that the store can perform are executed, and do to the cells what they say. By
induction on the messages. -/
theorem applyAll_cells {parse : ParseHset} {s : Server m} {messages : List (Fin m × Clock × Multi)}
    {t : Cell → Option Object}
    (performed : performPacks parse s.buckets.cells (messages.flatMap fun message => message.2.2.commands) = some t) :
    ∃ s', applyAll parse s messages = some s' ∧ s'.buckets.cells = t := by
  induction messages generalizing s with
  | nil => exact ⟨s, rfl, Option.some.inj performed⟩
  | cons message messages ih =>
    rw [List.flatMap_cons] at performed
    obtain ⟨middle, first, rest⟩ := performAll_split performed
    obtain ⟨last, fed⟩ := execFeed_all message.2.1 message.1 first
    obtain ⟨s₁, executed⟩ : ∃ s₁, s.commandAof parse message.2.1 message.1 message.2.2 = some s₁ := by
      rw [Server.commandAof, fed]
      exact ⟨_, rfl⟩
    have cells : middle = s₁.buckets.cells :=
      Option.some.inj (first.symm.trans (Server.commandAof_spec executed).1.performed)
    rw [cells] at rest
    obtain ⟨s', done, cells'⟩ := ih rest
    refine ⟨s', ?_, cells'⟩
    rw [applyAll, List.foldlM_cons, executed]
    exact done

/-- The AOF of the master on any store: the slave executes it, and has the store of the
master exactly when the cells it held before are cells of the master of the same type. -/
theorem applyAll_agrees {parse : ParseHset} (slave : Server m) {messages : List (Fin m × Clock × Multi)}
    {packs : List Pack} {master : Cell → Option Object}
    (live : performPacks parse Buckets.empty.cells packs = some master)
    (delivered : (messages.flatMap fun message => message.2.2.commands) = packs.map carried) :
    ∃ slave', applyAll parse slave messages = some slave' ∧
      (slave'.buckets.cells = master ↔
        ∀ cell o, slave.buckets.cells cell = some o → ∃ o', master cell = some o' ∧ o'.type = o.type) := by
  have wider : ∀ cell, (Buckets.empty.cells cell).isSome → (slave.buckets.cells cell).isSome :=
    fun _ present => absurd present Bool.false_ne_true
  have performed : performPacks parse slave.buckets.cells packs =
      some (replay Object.type slave.buckets.cells (writesOf (entryOf parse) packs)) := performAll_wider wider live
  rw [← performPacks_carried, ← delivered] at performed
  obtain ⟨slave', executed, cells⟩ := applyAll_cells performed
  refine ⟨slave', executed, ?_⟩
  rw [cells, (performAll_eq live).1]
  exact replay_forgets slave.buckets.cells (writesOf (entryOf parse) packs)

/-- A master that has set one key and merged. -/
def oneKey : List (Event 1) := [.hset (Fin.last 0) ⟨0, 0⟩ copiedPack [], .merge]

/-- Its `hset` does what its packet does. -/
theorem oneKey_own : Along (step keyedHset (Sorting.insertion 1)) (HsetsOwn keyedHset) (Server.fresh 2 "a") oneKey :=
  ⟨Server.executesOwn_copied rfl (by decide) [], fun _ _ => ⟨trivial, fun _ _ => trivial⟩⟩

/-- It has one packet in its AOF, nothing that waits, and no database file. -/
theorem run_oneKey : ∃ master, run (step keyedHset (Sorting.insertion 1)) (Server.fresh 2 "a") oneKey = some master ∧
    master.dbFile = none ∧ master.unmerged (Sorting.insertion 1) = [] ∧
    master.aofFiles.flatten = [copiedPack] := by
  have same : (run (step keyedHset (Sorting.insertion 1)) (Server.fresh 2 "a") oneKey).map
      (fun s => (s.dbFile, s.unmerged (Sorting.insertion 1), s.aofFiles.flatten)) =
        some (none, [], [copiedPack]) := by decide +kernel
  obtain ⟨master, ran, same⟩ := Option.map_eq_some_iff.mp same
  simp only [Prod.mk.injEq] at same
  exact ⟨master, ran, same⟩

end Naruto.Replication.FirstSync
