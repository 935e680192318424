import Naruto.Replication.Pair

/-!
# What a slave has of its master

In every run of the pair the store of the slave covers the position of its link: the
messages in flight carry the commands between this position and the cursor of the
master, and the cursor, the position and the file announced all stand on packet
boundaries of the one AOF, which only grows. When nothing is in flight and nothing
waits, the two stores are equal. What is left out is what each side is known to get
wrong: an `hset` of a client that is executed with other arguments than its packet's,
windows that divide a packet, bodies with a zero byte, transfers that are given up, a
flush while commands wait, a crash of the master that loses commands.
-/

namespace Naruto.Replication.Pair

open Naruto.Theory Naruto.Utils Naruto.Sink Naruto.Database Naruto.Command SlavePosition

variable {k m : Nat} {parse : ParseHset}

/-- What goes wrong on the side of the master is left out: what it accepts of its clients does
to the store what the packet does in a replay, no body has a zero byte, the numbers of its AOF
files are in range, and a crash finds nothing that waits. -/
def MasterOrderly (parse : ParseHset) (sorting : Sorting k) (s : Server k) : FirstSync.Event k → Prop
  | .hset _ _ pack beyond => 0 ∉ pack.body ∧ s.ExecutesOwn parse pack beyond
  | .multi _ _ message => ∀ p ∈ message.commands, 0 ∉ p.body
  | .merge => s.aofFiles.length + 1 < 2 ^ 31
  | .crash _ _ => s.unmerged sorting = [] ∧ s.aofFiles.length + 1 < 2 ^ 31
  | _ => True

/-- What goes wrong on the side of the slave is left out. A transfer that is given up, a
restart with commands that wait, a flush before a merge, and a full sync over an AOF of its own
are what can go wrong there. -/
def SlaveOrderly (sorting : Sorting m) (s : Slave m) : Slave.Event m → Prop
  | .cron transferTimeout _ => s.control.replState = .transfor → transferTimeout = false
  | .payload .failed | .payload (.last false) => False
  | .payload (.last true) => s.server.aofFiles.flatten = [] ∧ s.server.unmerged sorting = [] ∧
      (Cached s.server.diskConf → s.server.diskConf.masterAof = s.server.replConf.masterAof)
  | .confFlush => s.server.unmerged sorting = []
  | .restart _ _ => s.control.replState = .transfor →
      s.server.diskConf.masterAof ≠ s.server.replConf.masterAof
  | _ => True

/-- The condition on the events of a run. A tick reads a window that fits. -/
def Orderly (parse : ParseHset) (sorting : Sorting k) (sorting' : Sorting m) (s : Pair k m) : Event k m → Prop
  | .master event => MasterOrderly parse sorting s.master event
  | .slave event => SlaveOrderly sorting' s.slave event
  | .tick => ∀ replica place, s.replica = some replica → OnBoundary 0 s.master.aofFiles place replica.cursor →
      WindowFits s.master.aofFiles place
  | _ => True

/-! ### The master -/

/-- The AOF stays as it is or grows, and what it becomes later with what waits is what it
would have become before. -/
structure Moves (s s' : Server k) (pending pending' : List Pack) : Prop where
  grows : s'.aofFiles = s.aofFiles ∨ ∃ more, Grows s.aofFiles more s'.aofFiles
  later : ∀ files later, Extends s'.aofFiles (pending' ++ later) files →
    ∃ later', Extends s.aofFiles (pending ++ later') files

/-- The AOF of the master: no body has a zero byte, and the file numbers are in range. -/
structure Plain (s : Server k) (pending : List Pack) : Prop where
  uncut : ∀ p ∈ s.aofFiles.flatten ++ pending, 0 ∉ p.body
  numbered : s.aofFiles.length < 2 ^ 31

/-- A log grows by one file at most. -/
theorem grows_length_le {files files' : List (List Pack)} {more : List Pack} (grows : Grows files more files') :
    files'.length ≤ files.length + 1 := by
  cases grows with
  | extend before segment more => simp
  | rotate files more => simp

section Master

variable {s s' : Server k} {pending packs : List Pack}

/-- The AOF and what waits are as before. -/
theorem Moves.refl (files : s'.aofFiles = s.aofFiles) : Moves s s' pending pending where
  grows := .inl files
  later := fun _ later extended => ⟨later, files ▸ extended⟩

/-- A plain history stays plain while nothing is written. -/
theorem Plain.same (plain : Plain s pending) (files : s'.aofFiles = s.aofFiles) : Plain s' pending :=
  ⟨files ▸ plain.uncut, files ▸ plain.numbered⟩

/-- Commands are fed. -/
theorem Moves.fed (fed : s.Fed parse packs s') : Moves s s' pending (pending ++ packs) where
  grows := .inl fed.files
  later := fun files later extended => ⟨packs ++ later, by
    rw [← List.append_assoc]
    exact fed.files ▸ extended⟩

/-- Uncut packets that are fed keep it plain, -/
theorem Plain.fed (plain : Plain s pending) (fed : s.Fed parse packs s') (uncut : ∀ p ∈ packs, 0 ∉ p.body) :
    Plain s' (pending ++ packs) := by
  have files : s'.aofFiles = s.aofFiles := fed.files
  refine ⟨fun p among => ?_, files ▸ plain.numbered⟩
  rw [files, ← List.append_assoc] at among
  rcases List.mem_append.mp among with old | new
  · exact plain.uncut p old
  · exact uncut p new

/-- One extension after another. -/
theorem extends_after {files files' files'' : List (List Pack)} {more later : List Pack}
    (first : Extends files more files') (second : Extends files' later files'') :
    Extends files (more ++ later) files'' where
  log := by rw [second.log, first.log, List.append_assoc]
  positions := fun position n located => second.positions position n (first.positions position n located)

/-- What waits has been written. -/
theorem Moves.written (grows : Grows s.aofFiles pending s'.aofFiles) : Moves s s' pending [] where
  grows := .inr ⟨pending, grows⟩
  later := fun _ later extended => ⟨later, extends_after (Extends.of_grows grows) extended⟩

/-- and a merge of what waits does, as long as there is a number for the next file. -/
theorem Plain.written (plain : Plain s pending) (grows : Grows s.aofFiles pending s'.aofFiles)
    (room : s.aofFiles.length + 1 < 2 ^ 31) : Plain s' [] where
  uncut := fun p among => plain.uncut p (by
    rw [List.append_nil, grows.flatten] at among
    exact among)
  numbered := Nat.lt_of_le_of_lt (grows_length_le grows) room

/-- The files behind a merge. -/
theorem merge_files (sorting : Sorting k) (s : Server k) :
    (s.merge sorting).aofFiles = (s.backlog.mergeBacklogFeedSlaves sorting).1.aofFile.files := by
  rw [Server.merge]
  split
  · exact Server.replConfFlush_files _
  · rfl

/-- A merge leaves the AOF as it is when nothing waits, and writes what waits otherwise. -/
theorem merge_moves (waiting : s.backlog.Waiting pending) (sorting : Sorting k) :
    pending = [] ∧ (s.merge sorting).aofFiles = s.aofFiles ∨
      Grows s.aofFiles pending (s.merge sorting).aofFiles := by
  have written := (waiting.merge sorting).2.1
  rw [merge_files, written]
  by_cases nothing : pending = []
  · exact .inl ⟨nothing, by rw [if_pos nothing]; rfl⟩
  · rw [if_neg nothing]
    exact .inr (s.backlog.aofFile.write_grows pending)

/-- Every event of the master that is in order keeps its invariant, and its AOF moves on.
Commands and merges move the log on, a fork and its end move the dump, and a flush the disk. -/
theorem master_step {sorting : Sorting k} {event : FirstSync.Event k} (inv : MasterDump.Inv parse s pending)
    (plain : Plain s pending) (orderly : MasterOrderly parse sorting s event)
    (stepped : FirstSync.step parse sorting s event = some s') :
    ∃ pending', MasterDump.Inv parse s' pending' ∧ Plain s' pending' ∧ Moves s s' pending pending' := by
  cases event with
  | hset tid clock pack beyond =>
    obtain ⟨uncut, own⟩ := orderly
    rcases FirstSync.hset_fed own stepped with fed | fed
    · exact ⟨_, inv.feed fed, plain.fed fed (by simpa using uncut), .fed fed⟩
    · exact ⟨_, inv.feed fed, plain.fed fed (by simp), .fed fed⟩
  | multi tid clock message =>
    have fed := (Server.commandAof_spec stepped).1
    exact ⟨_, inv.feed fed, plain.fed fed orderly, .fed fed⟩
  | merge =>
    obtain rfl := Option.some.inj stepped
    refine ⟨[], inv.merge sorting, ?_⟩
    rcases merge_moves inv.waiting sorting with ⟨rfl, same⟩ | grows
    · exact ⟨plain.same same, .refl same⟩
    · exact ⟨plain.written grows orderly, .written grows⟩
  | bgsave =>
    obtain rfl := Option.some.inj stepped
    have same : s.bgsave.aofFiles = s.aofFiles := by
      rcases s.bgsave_cases with same | ⟨_, _, forks⟩
      · rw [same]
      · rw [forks]
        rfl
    exact ⟨pending, inv.bgsave, plain.same same, .refl same⟩
  | bgsaveFinish =>
    obtain rfl := Option.some.inj stepped
    have same : s.onBgsaveFinish.aofFiles = s.aofFiles := by
      rw [Server.onBgsaveFinish]
      split <;> rfl
    exact ⟨pending, inv.bgsaveFinish, plain.same same, .refl same⟩
  | confFlush =>
    obtain rfl := Option.some.inj stepped
    exact ⟨pending, inv.confFlush, plain.same s.replConfFlush_files, .refl s.replConfFlush_files⟩
  | crash clock genRandomID =>
    obtain ⟨nothing, room⟩ := orderly
    rw [s.unmerged_eq inv.waiting] at nothing
    subst nothing
    have backlog := (Server.init_spec stepped).2.1
    have grows : Grows s.aofFiles [] s'.aofFiles := by
      have files : s'.aofFiles = (RotateFileStream.rotateInit s.backlog.aofFile.rotateAofFileSize s.aofFiles).files :=
        congrArg (fun b => b.aofFile.files) backlog
      rw [files]
      exact RotateFileStream.rotateInit_grows _ _
    exact ⟨[], inv.crash stepped, plain.written grows room, .written grows⟩

end Master

/-! ### The slave -/

/-- The slave reads its link, or waits for the file. -/
def Attached (s : Slave m) : Prop := s.replRio = true ∨ s.control.replState = .transfor

section Slave

variable {fileSize : List Features → Nat} {sorting : Sorting m} {s s' : Slave m}

/-- A slave that does not read and is in another state is not attached. -/
theorem not_attached (unread : s.replRio = false) (state : s.control.replState ≠ .transfor) : ¬ Attached s := by
  rintro (reads | transfor)
  · cases unread.symm.trans reads
  · exact state transfor

/-- A merge leaves the link as it is. -/
theorem merge_master (sorting : Sorting m) (s : Server m) : (s.merge sorting).master = s.master := by
  rw [Server.merge]
  split
  · exact Server.replConfFlush_frame _ |>.2.2.1
  · rfl

/-- The tests of a tick attach nothing, and whoever is still attached has its link. Each test
gives a connection up or leaves the slave alone. -/
theorem followCron_attached {transferTimeout interactionTimeout : Bool}
    (attached : Attached (s.followCron transferTimeout interactionTimeout)) :
    Attached s ∧ (s.followCron transferTimeout interactionTimeout).server.master = s.server.master := by
  rw [Slave.followCron] at attached ⊢
  split at attached
  · rename_i alone
    rw [if_pos alone]
    exact ⟨attached, rfl⟩
  rename_i follows
  rw [if_neg follows]
  by_cases connect : ((s.dropLate transferTimeout).cacheLate interactionTimeout).control.replState = .connect
  · -- The new link is not read, and its state is `connecting`.
    rw [Slave.connectAnew, if_pos connect] at attached
    exact absurd attached (not_attached rfl (by simp [SlaveState.connectMaster]))
  rw [Slave.connectAnew, if_neg connect] at attached ⊢
  by_cases silent : (s.dropLate transferTimeout).control.replState = .connected ∧ interactionTimeout = true
  · -- The cached link is not read any more, and its state is what it was or `connect`.
    rw [Slave.cacheLate, if_pos silent] at attached
    refine absurd attached (not_attached rfl ?_)
    simp only [SlaveState.cacheMaster]
    split
    · rw [silent.1]
      decide
    · intro impossible
      cases impossible
  rw [Slave.cacheLate, if_neg silent] at attached ⊢
  refine ⟨attached.imp id fun transfor => ?_, rfl⟩
  simp only [Slave.dropLate, SlaveState.undoLate, SlaveState.abortLate] at transfor
  split at transfor
  · cases transfor
  · split at transfor
    · cases transfor
    · exact transfor

/-- What a slave does on its own attaches nothing, and leaves the link of a slave that is still
attached. These are its ticks, the reads of a transfer, its flushes and a restart, which
detaches it. -/
theorem own_attached {event : Slave.Event m} (own : Own event = true) (armed : SlaveState.Armed s.control)
    (stepped : s.step fileSize parse sorting event = some s') (attached : Attached s') :
    Attached s ∧ s'.server.master = s.server.master := by
  obtain ⟨_, enabled, handled⟩ := Slave.step_handle stepped
  cases event with
  | slaveof host port => cases own
  | readable sockerr pong answer => cases own
  | writable sockerr pong answer => cases own
  | multi tid clock message => cases own
  | cron transferTimeout interactionTimeout =>
    obtain rfl := Option.some.inj handled
    rw [Slave.onReplCron] at attached ⊢
    have before : Attached (s.followCron transferTimeout interactionTimeout) := by
      rw [Attached, Slave.merge_control] at attached
      refine attached.imp (fun reads => ?_) id
      rw [Slave.merge] at reads
      split at reads <;> exact reads
    rw [Slave.merge_server, merge_master]
    exact followCron_attached before
  | payload result =>
    obtain rfl := Option.some.inj handled
    refine ⟨.inr (armed.bulk enabled), ?_⟩
    cases result with
    | failed => rfl
    | data => rfl
    | last renamed => cases renamed <;> rfl
  | confFlush =>
    obtain rfl := Option.some.inj handled
    exact ⟨attached, s.server.replConfFlush_frame.2.2.1⟩
  | restart clock genRandomID =>
    obtain ⟨server, _, rfl⟩ := Option.map_eq_some_iff.mp handled
    refine absurd attached (not_attached rfl ?_)
    simp only [Slave.start, SlaveState.init]
    split <;> decide

/-- The events that a slave has on its own are in order for every history. None of them brings
anything from the master. -/
theorem own_orderly (fileSize : List Features → Nat) {h : History parse} {pending : List Pack}
    {recovered : Cell → Option Object}
    {event : Slave.Event m} (inv : Slave.Inv h false s pending recovered) (own : Own event = true)
    (orderly : SlaveOrderly sorting s event) (enabled : s.Enabled event) :
    Slave.FromMaster h s event ∧ Slave.Orderly fileSize sorting h false s event := by
  cases event with
  | slaveof host port => cases own
  | readable sockerr pong answer => cases own
  | writable sockerr pong answer => cases own
  | multi tid clock message => cases own
  | cron transferTimeout interactionTimeout =>
    refine ⟨trivial, fun _ transfor late => ?_⟩
    cases late.symm.trans (orderly transfor)
  | payload result =>
    refine ⟨trivial, ?_⟩
    cases result with
    | failed => exact orderly.elim
    | data => trivial
    | last renamed =>
      cases renamed with
      | false => exact orderly.elim
      | true =>
        obtain ⟨unlogged, merged, same⟩ := orderly
        refine ⟨unlogged, merged, fun cached => ?_⟩
        rw [same cached]
        exact (inv.transfer (inv.armed.bulk enabled)).2
  | confFlush => exact ⟨trivial, orderly⟩
  | restart clock genRandomID => exact ⟨trivial, fun _ transfor same => absurd same (orderly transfor)⟩

/-- What a readiness event of the handshake makes of the slave. -/
theorem ready_handled {writable sockerr pong : Bool} {answer : Option ((k : Nat) × Server k)}
    (stepped : s.step fileSize parse sorting (ready writable sockerr pong answer) = some s') :
    s.Enabled (ready writable sockerr pong answer) ∧ s' = s.onSyncWithMaster fileSize sockerr pong answer := by
  obtain ⟨_, enabled, handled⟩ := Slave.step_handle stepped
  refine ⟨enabled, ?_⟩
  cases writable <;> exact (Option.some.inj handled).symm

/-- A handshake that asks nobody, or is not answered, leaves the slave unattached. It waits for
an answer to its `PING` or has given the connection up. -/
theorem unanswered {sockerr pong : Bool} {answer : Option ((k : Nat) × Server k)}
    (state : s.control.replState = .connecting ∨ s.control.replState = .receivePong)
    (alone : s.control.Asks sockerr pong → answer = none) :
    ¬ Attached (s.onSyncWithMaster fileSize sockerr pong answer) := by
  by_cases asks : s.control.Asks sockerr pong
  · have nobody := alone asks
    subst nobody
    have control := SlaveState.onSyncWithMaster_asks asks .failed
    refine not_attached ?_ ?_
    · rw [Slave.onSyncWithMaster, if_pos asks]
      rfl
    · rw [Slave.onSyncWithMaster_control]
      exact fun transfor => by cases control.symm.trans transfor
  · refine not_attached ?_ ?_
    · rw [Slave.onSyncWithMaster, if_neg asks]
    · rw [Slave.onSyncWithMaster_control]
      rcases SlaveState.onSyncWithMaster_waits asks (s.outcome fileSize answer) state with here | here
      · rw [here]
        decide
      · rw [here]
        decide

/-- A handshake whose answer has a position leaves the link at this position; otherwise the
slave is not attached. -/
theorem answered_attached {sockerr pong : Bool} {master : Server k} (asks : s.control.Asks sockerr pong)
    (attached : Attached (s.onSyncWithMaster fileSize sockerr pong (some ⟨k, master⟩))) :
    (master.commandPsync fileSize s.server.psync).1.psyncType ≠ .trysync ∧
      (s.onSyncWithMaster fileSize sockerr pong (some ⟨k, master⟩)).server.master =
        some ⟨(master.commandPsync fileSize s.server.psync).1.runId,
          (master.commandPsync fileSize s.server.psync).1.replAof⟩ := by
  have control := SlaveState.onSyncWithMaster_asks asks (s.outcome fileSize (some ⟨k, master⟩))
  have answer : s.outcome fileSize (some ⟨k, master⟩) =
      (master.commandPsync fileSize s.server.psync).1.outcome := rfl
  rw [answer, PsyncReply.outcome] at control
  cases kind : (master.commandPsync fileSize s.server.psync).1.psyncType with
  | trysync =>
    rw [kind] at control
    refine absurd attached (not_attached ?_ ?_)
    · simp only [Slave.onSyncWithMaster, if_pos asks, Slave.slaveTryPartialResynchronization, kind]
    · rw [Slave.onSyncWithMaster_control, answer, PsyncReply.outcome, kind]
      exact fun transfor => by cases control.symm.trans transfor
  | fullsync =>
    refine ⟨PsyncType.noConfusion, ?_⟩
    simp only [Slave.onSyncWithMaster, if_pos asks, Slave.slaveTryPartialResynchronization, kind, Server.follow]
  | partsync =>
    refine ⟨PsyncType.noConfusion, ?_⟩
    simp only [Slave.onSyncWithMaster, if_pos asks, Slave.slaveTryPartialResynchronization, kind, Server.follow]

end Slave

/-! ### The position of an answer -/

/-- The beginning of a list of packets that has no more bytes than another beginning has no
more packets. -/
theorem offset_inside {file added : List Pack} {offset : Nat} (inside : offset ≤ (file ++ added).length)
    (fits : (Pack.encodeAll ((file ++ added).take offset)).length ≤ (Pack.encodeAll file).length) :
    offset ≤ file.length := by
  by_contra beyond
  have split : (file ++ added).take offset = file ++ added.take (offset - file.length) := by
    rw [List.take_append, List.take_of_length_le (by omega)]
  rw [split, Pack.encodeAll_append, List.length_append] at fits
  have nothing := encodeAll_eq_nil (List.length_eq_zero_iff.mp (by omega :
    (Pack.encodeAll (added.take (offset - file.length))).length = 0))
  have taken := congrArg List.length nothing
  rw [List.length_take, List.length_nil] at taken
  rw [List.length_append] at inside
  omega

/-- A position of a grown log that lies within the bytes of a file as it was is a position
of the log as it was. -/
theorem At.before {files files' : List (List Pack)} {more file : List Pack} {position : FileState} {n number : Nat}
    (located : At files' position n) (grows : Grows files more files') (name : position.name = some number)
    (found : files[number]? = some file) (fits : position.offset ≤ (Pack.encodeAll file).length) :
    ∃ n, At files position n := by
  obtain ⟨place, names, _⟩ := located
  have segment : number = place.segment := by simpa [name] using names.name
  subst segment
  obtain ⟨⟨added, found'⟩, _⟩ := grows.segment found
  obtain ⟨segment, there, inside⟩ := names.valid
  obtain rfl := Option.some.inj (found'.symm.trans there)
  have offset := names.offset _ found'
  have within := offset_inside inside (offset ▸ fits)
  refine ⟨_, place, ⟨⟨file, found, within⟩, names.name, fun other same => ?_⟩, rfl⟩
  obtain rfl := Option.some.inj (found.symm.trans same)
  rw [offset, List.take_append_of_le_length within]

section Answer

variable {fileSize : List Features → Nat} {master : Server k} {slave : Server m} {pending : List Pack}

/-- The request that is granted as it is names a file of the master and an offset within it. The
two tests before have excluded the rest. -/
theorem part_within {psync : Psync} (part : master.syncCase psync = .part) :
    ∃ number file, psync.replAof.name = some number ∧ master.aofFiles[number]? = some file ∧
      psync.replAof.offset ≤ (Pack.encodeAll file).length := by
  rw [Server.syncCase] at part
  split at part
  · split at part <;> cases part
  · rename_i known
    cases name : psync.replAof.name with
    | none => exact absurd (.inr name) known
    | some number =>
      rw [name, Option.bind_some, Server.aofSize] at part
      cases found : master.aofFiles[number]? with
      | none =>
        rw [found] at part
        cases part
      | some file =>
        rw [found, Option.map_some] at part
        dsimp only at part
        split at part
        · cases part
        · rename_i inside
          exact ⟨number, file, rfl, found, Nat.not_lt.mp inside⟩

/-- An answer with a position leaves the master's end at a packet boundary of its AOF, and this
is the position that is answered. `PARTSYNC` answers with the position of the request, which is
located; `FULLSYNC` with the position of the dump, which is recorded at a boundary. -/
theorem answer_located (inv : MasterDump.Inv parse master pending) {files : List (List Pack)}
    (grows : files = master.aofFiles ∨ ∃ more, Grows master.aofFiles more files)
    (conf : Cached slave.replConf → ∃ n, At files slave.replConf.masterAof n)
    (positioned : (master.commandPsync fileSize slave.psync).1.psyncType ≠ .trysync) :
    (master.commandPsync fileSize slave.psync).2.1.replAof = (master.commandPsync fileSize slave.psync).1.replAof ∧
      (master.commandPsync fileSize slave.psync).1.replAof.name ≠ none ∧
      ∃ n, At master.aofFiles (master.commandPsync fileSize slave.psync).1.replAof n := by
  rw [Server.commandPsync] at positioned ⊢
  cases kind : master.syncCase slave.psync with
  | first => exact ⟨rfl, Option.some_ne_none 0, 0, at_first master.aofFiles inv.opened⟩
  | full =>
    rw [kind] at positioned
    dsimp only at positioned ⊢
    split at positioned
    · exact absurd rfl positioned
    · rename_i named
      rw [if_neg named]
      obtain ⟨n, located, _⟩ := inv.file.memory
      exact ⟨rfl, named, n, located⟩
  | part =>
    obtain ⟨number, file, name, found, within⟩ := part_within kind
    have cached : Cached slave.replConf := by
      by_contra uncached
      rw [Server.psync, if_neg uncached] at name
      cases name
    obtain ⟨n, located⟩ := conf cached
    have request : slave.psync.replAof = slave.replConf.masterAof := by rw [Server.psync, if_pos cached]
    have named : slave.psync.replAof.name ≠ none := by
      rw [name]
      exact Option.some_ne_none number
    refine ⟨rfl, named, ?_⟩
    rcases grows with rfl | ⟨more, grows⟩
    · exact ⟨n, request ▸ located⟩
    · exact At.before (request ▸ located) grows name found within

/-- An answer may start a bgsave, and does nothing else to the master. Only a full
synchronization without a recorded position does that. -/
theorem answer_master (fileSize : List Features → Nat) (inv : MasterDump.Inv parse master pending) (psync : Psync) :
    MasterDump.Inv parse (master.commandPsync fileSize psync).2.2 pending ∧
      (master.commandPsync fileSize psync).2.2.aofFiles = master.aofFiles := by
  have forked : master.bgsave.aofFiles = master.aofFiles := by
    rcases master.bgsave_cases with same | ⟨_, _, forks⟩
    · rw [same]
    · rw [forks]
      rfl
  have same : (master.commandPsync fileSize psync).2.2 = master ∨
      (master.commandPsync fileSize psync).2.2 = master.bgsave := by
    rw [Server.commandPsync]
    cases master.syncCase psync with
    | first => simp
    | full => dsimp only; split <;> simp
    | part => simp
  rcases same with same | same
  · rw [same]
    exact ⟨inv, rfl⟩
  · rw [same]
    exact ⟨inv.bgsave, forked⟩

end Answer

/-! ### The connection -/

/-- The link of the slave stands behind `n` packets of the AOF; the messages in flight carry
the packets from there up to `sent`, and the cursor of the master stands there. -/
structure Wired (s : Pair k m) (n sent : Nat) : Prop where
  link : ∃ link, s.slave.server.master = some link ∧ At s.master.aofFiles link.replAof n
  wire : Follows 0 s.master.aofFiles n s.wire sent
  replica : ∀ replica, s.replica = some replica →
    ∃ place, OnBoundary 0 s.master.aofFiles place replica.cursor ∧ place.index s.master.aofFiles = sent

section Wired

variable {s s' : Pair k m} {n sent : Nat} {pending pending' : List Pack}

/-- The AOF of the master moves on; its end of the connection may be gone. Places keep their
commands when the log grows behind them. -/
theorem Wired.moves (wired : Wired s n sent) (moves : Moves s.master s'.master pending pending')
    (slave : s'.slave = s.slave) (wire : s'.wire = s.wire) (replica : s'.replica = s.replica ∨ s'.replica = none) :
    Wired s' n sent := by
  obtain ⟨link, linked, located⟩ := wired.link
  have kept : ∀ r, s'.replica = some r → s.replica = some r := by
    intro r there
    rcases replica with same | gone
    · exact same.symm.trans there
    · cases gone.symm.trans there
  rcases moves.grows with files | ⟨more, grows⟩
  · refine ⟨⟨link, slave ▸ linked, files ▸ located⟩, ?_, fun r there => ?_⟩
    · rw [wire, files]
      exact wired.wire
    · rw [files]
      exact wired.replica r (kept r there)
  · refine ⟨⟨link, slave ▸ linked, located.grows grows⟩, ?_, fun r there => ?_⟩
    · rw [wire]
      exact wired.wire.grows grows
    · obtain ⟨place, boundary, index⟩ := wired.replica r (kept r there)
      exact ⟨place, boundary.grows grows, (grows.place boundary.valid).2.trans index⟩

/-- A part of a log up to an index, cut out of a longer log. -/
theorem drop_slice {files : List (List Pack)} {more : List Pack} {start stop : Nat} (order : start ≤ stop)
    (inside : stop ≤ files.flatten.length) :
    (files.flatten ++ more).drop start = slice files start stop ++ (files.flatten ++ more).drop stop := by
  have whole := List.take_append_drop (stop - start) ((files.flatten ++ more).drop start)
  rw [List.drop_drop, Nat.add_sub_of_le order] at whole
  rw [← whole, slice, List.drop_append_of_le_length (Nat.le_trans order inside),
    List.take_append_of_le_length (by rw [List.length_drop]; omega)]

/-- The first message in flight brings the slave the next packets, for every history that the
AOF becomes, and leaves the others in flight. The messages in flight are slices of the AOF, one
behind the other, and stay so when it grows. -/
theorem Wired.first (parse : ParseHset) (wired : Wired s n sent) (numbered : s.master.aofFiles.length < 2 ^ 31)
    {message : CommandAof}
    {wire : List CommandAof} (inFlight : s.wire = message :: wire) :
    ∃ n' aof, message.multi = some ⟨(slice s.master.aofFiles n n').map reframe, aof⟩ ∧ n < n' ∧
      At s.master.aofFiles aof n' ∧ Follows 0 s.master.aofFiles n' wire sent ∧
      ∀ (h : History parse) more, Extends s.master.aofFiles more h.files →
        Slave.Brings h s.slave ⟨(slice s.master.aofFiles n n').map reframe, aof⟩
          (slice s.master.aofFiles n n') := by
  obtain ⟨link, linked, located⟩ := wired.link
  have follows := wired.wire
  rw [inFlight] at follows
  obtain ⟨place, boundary, later, content, rest⟩ := follows
  have reached := boundary.located numbered
  refine ⟨place.index s.master.aofFiles, ⟨fileNumber message.aofName, message.aofOff⟩, ?_, later, reached, rest,
    ?_⟩
  · rw [content]
    exact multi_messageFor _ _
  · intro h more extended
    refine ⟨rfl, ⟨_, extended.positions _ _ reached⟩, fun other same => ?_⟩
    obtain rfl := Option.some.inj (linked.symm.trans same)
    rw [(extended.positions _ _ located).loadAof, (extended.positions _ _ reached).loadAof, extended.log]
    exact drop_slice (Nat.le_of_lt later) reached.le

/-- A connection that an answer has just opened. -/
theorem Wired.opened {position : FileState} {link : MasterLink}
    (named : position.name ≠ none) (located : At s.master.aofFiles position n)
    (linked : s.slave.server.master = some link) (same : link.replAof = position)
    (replica : ∃ replState, s.replica = some ⟨replState, replicaLink position⟩) (wire : s.wire = []) :
    Wired s n n := by
  obtain ⟨place, boundary, index⟩ := At.boundary located named
  refine ⟨⟨link, linked, same ▸ located⟩, ?_, fun r there => ?_⟩
  · rw [wire]
    rfl
  · obtain ⟨_, replica⟩ := replica
    obtain rfl := Option.some.inj (replica.symm.trans there)
    exact ⟨place, boundary, index⟩

/-- A tick sends the next packets of the AOF, if there are any, and moves the cursor behind
them. -/
theorem Wired.tick (wired : Wired s n sent) (numbered : s.master.aofFiles.length < 2 ^ 31) {cursor : ReplicaLink}
    (connected : s.replica = some ⟨.connected, cursor⟩)
    (fits : ∀ place, OnBoundary 0 s.master.aofFiles place cursor → WindowFits s.master.aofFiles place) :
    ∃ cursor' message sent', onSendIncrToSlave (aofDir 0 s.master.aofFiles) cursor = some (cursor', message) ∧
      Wired { s with replica := some ⟨.connected, cursor'⟩, wire := s.wire ++ message.toList } n sent' := by
  obtain ⟨place, boundary, index⟩ := wired.replica _ connected
  obtain ⟨cursor', place', packs, ticked, boundary', index', sliced⟩ :=
    tick_spec boundary (by omega) (fits place boundary)
  refine ⟨cursor', _, place'.index s.master.aofFiles, ticked, wired.link, ?_, fun r there => ?_⟩
  · by_cases nothing : packs = []
    · rw [if_pos nothing, Option.toList_none, List.append_nil]
      rw [nothing, List.length_nil, Nat.add_zero, index] at index'
      rw [index']
      exact wired.wire
    · rw [if_neg nothing, Option.toList_some]
      have grown := List.length_pos_iff.mpr nothing
      exact wired.wire.snoc _ boundary' (by omega) (by rw [← index, ← sliced]; rfl)
  · obtain rfl := Option.some.inj there
    exact ⟨place', boundary', rfl⟩

end Wired

/-! ### The invariant -/

/-- The invariant: that of the master; a connection that the slave is attached to is wired;
and for every history that the AOF becomes, that of the slave. -/
structure Inv (parse : ParseHset) (s : Pair k m) (pending : List Pack) : Prop where
  master : MasterDump.Inv parse s.master pending
  plain : Plain s.master pending
  wired : Attached s.slave → ∃ n sent, Wired s n sent
  slave : ∀ (h : History parse) (later : List Pack), Extends s.master.aofFiles (pending ++ later) h.files →
    ∃ waiting recovered, Slave.Inv h false s.slave waiting recovered

section Invariant

variable {fileSize : List Features → Nat} {sorting : Sorting k} {sorting' : Sorting m} {s s' : Pair k m}
  {pending : List Pack}

/-- The history that the next merge makes. -/
theorem Inv.merged (inv : Inv parse s pending) (sorting : Sorting k) :
    ∃ h : History parse, h.files = (s.master.merge sorting).aofFiles ∧
      Extends s.master.aofFiles (pending ++ []) h.files ∧
      (h.files = s.master.aofFiles ∨ ∃ more, Grows s.master.aofFiles more h.files) := by
  have live := (inv.master.merge sorting).live
  rw [List.append_nil] at live
  refine ⟨⟨_, (inv.master.merge sorting).opened, _, live⟩, rfl, ?_⟩
  rw [List.append_nil]
  dsimp only
  rcases merge_moves inv.master.waiting sorting with ⟨rfl, same⟩ | grows
  · rw [same]
    exact ⟨Extends.refl _, .inl rfl⟩
  · exact ⟨Extends.of_grows grows, .inr ⟨pending, grows⟩⟩

/-- The watchers of the slave belong to its state. -/
theorem Inv.armed (inv : Inv parse s pending) (sorting : Sorting k) : SlaveState.Armed s.slave.control := by
  obtain ⟨h, _, extended, _⟩ := inv.merged sorting
  obtain ⟨_, _, slave⟩ := inv.slave h [] extended
  exact slave.armed

/-- The master serves every history that its AOF becomes. -/
theorem Inv.serves (inv : Inv parse s pending) (h : History parse) (later : List Pack)
    (extended : Extends s.master.aofFiles (pending ++ later) h.files) : Slave.Serves h s.master := by
  intro _
  obtain ⟨n, located, covers⟩ := inv.master.file.memory
  refine ⟨n, extended.positions _ n located, ?_⟩
  rw [CoversTo, extended.log, ← List.append_assoc]
  apply covers.extend
  rw [List.length_append]
  exact Nat.le_trans located.le (Nat.le_add_right _ _)

/-- A handshake of the slave keeps the invariant of the slave, for every history. -/
theorem Inv.handshake_slave (inv : Inv parse s pending) {writable sockerr pong reached : Bool} {slave : Slave m}
    (stepped : s.slave.step fileSize parse sorting'
      (ready writable sockerr pong (if reached then some ⟨k, s.master⟩ else none)) = some slave)
    (h : History parse) (later : List Pack) (extended : Extends s.master.aofFiles (pending ++ later) h.files) :
    ∃ waiting recovered, Slave.Inv h false slave waiting recovered := by
  obtain ⟨waiting, recovered, before⟩ := inv.slave h later extended
  have serves : ∀ master ∈ (if reached then some (⟨k, s.master⟩ : (k : Nat) × Server k) else none),
      Slave.Serves h master.2 := by
    intro master among
    cases reached with
    | false => cases among
    | true =>
      obtain rfl := Option.some.inj among
      exact inv.serves h later extended
  have fromMaster : Slave.FromMaster h s.slave
      (ready writable sockerr pong (if reached then some ⟨k, s.master⟩ else none)) := by
    cases writable <;> exact serves
  have inOrder : Slave.Orderly fileSize sorting' h false s.slave
      (ready writable sockerr pong (if reached then some ⟨k, s.master⟩ else none)) := by
    cases writable <;> exact fun strict => by cases strict
  exact before.step fromMaster inOrder stepped

/-- A handshake. When the master answers with a position, the connection is wired anew. The
answer places the master's cursor and the slave's link at the same boundary, with nothing in
flight between them. -/
theorem Inv.handshake (inv : Inv parse s pending) {writable sockerr pong reached : Bool} {slave : Slave m}
    (stepped : s.slave.step fileSize parse sorting'
      (ready writable sockerr pong (if reached then some ⟨k, s.master⟩ else none)) = some slave) :
    ∃ pending', Inv parse
      (if reached ∧ s.slave.control.Asks sockerr pong then { s.answered fileSize with slave := slave }
        else { s with slave := slave }) pending' := by
  have kept := inv.handshake_slave stepped
  obtain ⟨enabled, rfl⟩ := ready_handled stepped
  obtain ⟨h, _, extended, grows⟩ := inv.merged (Sorting.insertion k)
  obtain ⟨_, _, before⟩ := inv.slave h [] extended
  have state : s.slave.control.replState = .connecting ∨ s.slave.control.replState = .receivePong := by
    cases writable with
    | true => exact .inl (before.armed.write enabled)
    | false => exact before.armed.sync enabled
  by_cases asked : reached ∧ s.slave.control.Asks sockerr pong
  · obtain ⟨there, asks⟩ := asked
    subst there
    rw [if_pos ⟨rfl, asks⟩]
    obtain ⟨master, files⟩ := answer_master fileSize inv.master s.slave.server.psync
    refine ⟨pending, master, inv.plain.same files, fun attached => ?_, fun h later extended => ?_⟩
    · obtain ⟨positioned, linked⟩ := answered_attached asks attached
      have conf : Cached s.slave.server.replConf → ∃ n, At h.files s.slave.server.replConf.masterAof n := by
        intro cached
        have observed : Slave.Observed false s.slave := .inr (by rcases state with here | here <;> rw [here] <;> decide)
        obtain ⟨n, located, _⟩ := before.conf observed cached
        exact ⟨n, located⟩
      obtain ⟨same, named, n, located⟩ := answer_located inv.master grows conf positioned
      have opened : (s.answered fileSize).replica =
          some ⟨(s.master.commandPsync fileSize s.slave.server.psync).2.1.replState,
            replicaLink (s.master.commandPsync fileSize s.slave.server.psync).1.replAof⟩ := by
        rw [← same]
        rfl
      exact ⟨n, n, .opened named (files ▸ located) linked rfl ⟨_, opened⟩ rfl⟩
    · exact kept h later (files ▸ extended)
  · rw [if_neg asked]
    refine ⟨pending, inv.master, inv.plain, fun attached => absurd attached ?_, kept⟩
    refine unanswered state fun asks => ?_
    cases reached with
    | true => exact absurd ⟨rfl, asks⟩ asked
    | false => rfl

/-- The next message is executed. The slave's position moves over the packets of the message,
which leave the wire. -/
theorem Inv.deliver (inv : Inv parse s pending) {message : CommandAof} {wire : List CommandAof}
    (inFlight : s.wire = message :: wire) {multi : Multi} (reads : message.multi = some multi) {tid : Fin m}
    {clock : Clock} {slave : Slave m}
    (stepped : s.slave.step fileSize parse sorting' (.multi tid clock multi) = some slave) :
    ∃ pending', Inv parse { s with wire := wire, slave := slave } pending' := by
  obtain ⟨_, enabled, handled⟩ := Slave.step_handle stepped
  have attached : Attached s.slave := .inl enabled
  obtain ⟨n, sent, wired⟩ := inv.wired attached
  obtain ⟨n', aof, content, _, reached, rest, brings⟩ := wired.first parse inv.plain.numbered inFlight
  obtain rfl := Option.some.inj (content.symm.trans reads)
  obtain ⟨server, executed, rfl⟩ := Option.map_eq_some_iff.mp handled
  obtain ⟨link, linked, _⟩ := wired.link
  have moved := (Server.commandAof_spec executed).2
  refine ⟨pending, inv.master, inv.plain, fun _ => ⟨n', sent, ?_, rest, wired.replica⟩,
    fun h later extended => ?_⟩
  · rw [linked] at moved
    exact ⟨_, moved, reached⟩
  · obtain ⟨waiting, recovered, before⟩ := inv.slave h later extended
    have fromMaster : Slave.FromMaster h s.slave
        (.multi tid clock ⟨(slice s.master.aofFiles n n').map reframe, aof⟩) := ⟨_, brings h _ extended⟩
    have inOrder : Slave.Orderly fileSize sorting' h false s.slave
        (.multi tid clock ⟨(slice s.master.aofFiles n n').map reframe, aof⟩) := ?_
    · exact before.step fromMaster inOrder stepped
    intro packs other p among
    have same : packs = slice s.master.aofFiles n n' := by
      have ours := (brings h _ extended).next link linked
      have theirs := other.next link linked
      exact List.append_cancel_right (theirs.symm.trans ours)
    rw [same, slice] at among
    exact inv.plain.uncut p (List.mem_append_left _ (List.mem_of_mem_drop (List.mem_of_mem_take among)))

/-- An event of the slave alone: what is in flight still begins at the position of its link, and
its own invariant goes on for every later log. -/
theorem Inv.ownEvent (inv : Inv parse s pending) (sorting : Sorting k) {event : Slave.Event m} (own : Own event)
    (orderly : SlaveOrderly sorting' s.slave event) {slave : Slave m}
    (moved : s.slave.step fileSize parse sorting' event = some slave) :
    Inv parse { s with slave := slave } pending := by
  refine ⟨inv.master, inv.plain, fun attached => ?_, fun h later extended => ?_⟩
  · obtain ⟨before, same⟩ := own_attached own (inv.armed sorting) moved attached
    obtain ⟨n, sent, wired⟩ := inv.wired before
    obtain ⟨link, linked, located⟩ := wired.link
    exact ⟨n, sent, ⟨link, same.trans linked, located⟩, wired.wire, wired.replica⟩
  · obtain ⟨waiting, recovered, before⟩ := inv.slave h later extended
    obtain ⟨fromMaster, inOrder⟩ := own_orderly fileSize before own orderly (Slave.step_handle moved).2.1
    exact before.step fromMaster inOrder moved

/-- Every event that is in order keeps the invariant. The events of the master move the log
under both, those of the slave its own side, and only handshake, tick and delivery touch the
wire. -/
theorem Inv.step (inv : Inv parse s pending) {event : Event k m} (orderly : Orderly parse sorting sorting' s event)
    (stepped : step fileSize parse sorting sorting' s event = some s') : ∃ pending', Inv parse s' pending' := by
  cases event with
  | master event =>
    obtain ⟨master, ran, rfl⟩ := Option.map_eq_some_iff.mp stepped
    obtain ⟨pending', kept, plain, moves⟩ := master_step inv.master inv.plain orderly ran
    refine ⟨pending', kept, plain, fun attached => ?_, fun h later extended => ?_⟩
    · obtain ⟨n, sent, wired⟩ := inv.wired attached
      refine ⟨n, sent, wired.moves moves rfl rfl ?_⟩
      cases event with
      | crash clock genRandomID => exact .inr rfl
      | _ => exact .inl rfl
    · obtain ⟨later', before⟩ := moves.later h.files later extended
      exact inv.slave h later' before
  | slave event =>
    obtain ⟨own, ran⟩ := Option.ite_none_right_eq_some.mp stepped
    obtain ⟨slave, moved, rfl⟩ := Option.map_eq_some_iff.mp ran
    exact ⟨pending, inv.ownEvent sorting own orderly moved⟩
  | handshake writable sockerr pong reached =>
    obtain ⟨slave, moved, rfl⟩ := Option.map_eq_some_iff.mp stepped
    exact inv.handshake moved
  | bulkSent =>
    simp only [Pair.step] at stepped
    split at stepped
    case h_1 cursor sending =>
      obtain rfl := Option.some.inj stepped
      refine ⟨pending, inv.master, inv.plain, fun attached => ?_, inv.slave⟩
      obtain ⟨n, sent, wired⟩ := inv.wired attached
      refine ⟨n, sent, wired.link, wired.wire, fun r there => ?_⟩
      obtain rfl := Option.some.inj there
      exact wired.replica ⟨.transfor, cursor⟩ sending
    case h_2 => cases stepped
  | tick =>
    simp only [Pair.step] at stepped
    split at stepped
    case h_1 cursor connected =>
      obtain ⟨sent, ticked, rfl⟩ := Option.map_eq_some_iff.mp stepped
      refine ⟨pending, inv.master, inv.plain, fun attached => ?_, inv.slave⟩
      obtain ⟨n, before, wired⟩ := inv.wired attached
      obtain ⟨cursor', message, sent', ticked', wired'⟩ := wired.tick inv.plain.numbered connected
        (fun place boundary => orderly _ place connected boundary)
      obtain rfl := Option.some.inj (ticked'.symm.trans ticked)
      exact ⟨n, sent', wired'⟩
    case h_2 => cases stepped
  | deliver tid clock =>
    simp only [Pair.step] at stepped
    split at stepped
    case h_1 => cases stepped
    case h_2 message wire inFlight =>
      obtain ⟨multi, reads, ran⟩ := Option.bind_eq_some_iff.mp stepped
      obtain ⟨slave, moved, rfl⟩ := Option.map_eq_some_iff.mp ran
      exact inv.deliver inFlight reads moved

/-- Two servers in empty directories. -/
theorem Inv.fresh (parse : ParseHset) (rotateAofFileSize : Nat) (runId runId' host : String) (port : Int) :
    Inv parse (fresh rotateAofFileSize runId runId' host port : Pair k m) [] where
  master := MasterDump.Inv.fresh parse rotateAofFileSize runId
  plain := ⟨fun p among => absurd among List.not_mem_nil, (by decide : 1 < 2 ^ 31)⟩
  wired := fun attached => absurd attached (not_attached rfl (fun impossible => by cases impossible))
  slave := fun h _ _ => ⟨[], _, Slave.Inv.slaveof h false rotateAofFileSize runId' host port⟩

/-- The invariant holds at the end of every run that is in order. -/
theorem reached (rotateAofFileSize : Nat) (runId runId' host : String) (port : Int) (events : List (Event k m))
    (ran : run (Pair.step fileSize parse sorting sorting') (Pair.fresh rotateAofFileSize runId runId' host port)
      events = some s)
    (orderly : Along (Pair.step fileSize parse sorting sorting') (Orderly parse sorting sorting')
      (Pair.fresh rotateAofFileSize runId runId' host port) events) : ∃ pending, Inv parse s pending := by
  have preserved : ∀ (s : Pair k m) event s', (∃ pending, Inv parse s pending) →
      Orderly parse sorting sorting' s event →
      Pair.step fileSize parse sorting sorting' s event = some s' → ∃ pending, Inv parse s' pending := by
    rintro s event s' ⟨pending, inv⟩ inOrder stepped
    exact inv.step inOrder stepped
  exact run_invariant (fun s => ∃ pending, Inv parse s pending) preserved _ s events
    ⟨[], Inv.fresh parse rotateAofFileSize runId runId' host port⟩ orderly ran

/-- No assertion fails on the slave: nobody sends it to another master, and its watchers belong
to its state. So every event of the pair is one of the slave's state machine in its place, or
does not concern it. -/
theorem Inv.control_step (inv : Inv parse s pending) (control : SlaveState.Inv s.slave.control) {event : Event k m}
    (stepped : Pair.step fileSize parse sorting sorting' s event = some s') : SlaveState.Inv s'.slave.control := by
  have armed := inv.armed sorting
  cases event with
  | master event =>
    obtain ⟨master, _, rfl⟩ := Option.map_eq_some_iff.mp stepped
    exact control
  | slave event =>
    obtain ⟨_, ran⟩ := Option.ite_none_right_eq_some.mp stepped
    obtain ⟨slave, moved, rfl⟩ := Option.map_eq_some_iff.mp ran
    exact Slave.step_inv control armed moved
  | handshake writable sockerr pong reached =>
    obtain ⟨slave, moved, rfl⟩ := Option.map_eq_some_iff.mp stepped
    have kept := Slave.step_inv control armed moved
    split <;> exact kept
  | bulkSent =>
    simp only [Pair.step] at stepped
    split at stepped
    · obtain rfl := Option.some.inj stepped
      exact control
    · cases stepped
  | tick =>
    simp only [Pair.step] at stepped
    split at stepped
    · obtain ⟨sent, _, rfl⟩ := Option.map_eq_some_iff.mp stepped
      exact control
    · cases stepped
  | deliver tid clock =>
    simp only [Pair.step] at stepped
    split at stepped
    · cases stepped
    · obtain ⟨multi, _, ran⟩ := Option.bind_eq_some_iff.mp stepped
      obtain ⟨slave, moved, rfl⟩ := Option.map_eq_some_iff.mp ran
      exact Slave.step_inv control armed moved

/-- The slave is alive at the end of every run that is in order. -/
theorem reached_alive (rotateAofFileSize : Nat) (runId runId' host : String) (port : Int) (events : List (Event k m))
    (ran : run (Pair.step fileSize parse sorting sorting') (Pair.fresh rotateAofFileSize runId runId' host port)
      events = some s)
    (orderly : Along (Pair.step fileSize parse sorting sorting') (Orderly parse sorting sorting')
      (Pair.fresh rotateAofFileSize runId runId' host port) events) : s.slave.control.asserted = false := by
  have preserved : ∀ (s : Pair k m) event s', (∃ pending, Inv parse s pending) ∧ SlaveState.Inv s.slave.control →
      Orderly parse sorting sorting' s event → Pair.step fileSize parse sorting sorting' s event = some s' →
      (∃ pending, Inv parse s' pending) ∧ SlaveState.Inv s'.slave.control := by
    rintro s event s' ⟨⟨pending, inv⟩, control⟩ inOrder stepped
    exact ⟨inv.step inOrder stepped, inv.control_step control stepped⟩
  have started : SlaveState.Inv (Pair.fresh rotateAofFileSize runId runId' host port : Pair k m).slave.control :=
    SlaveState.Inv.connect rfl rfl
  exact (run_invariant (fun s => (∃ pending, Inv parse s pending) ∧ SlaveState.Inv s.slave.control) preserved _ s
    events ⟨⟨[], Inv.fresh parse rotateAofFileSize runId runId' host port⟩, started⟩ orderly ran).2.holds

/-- What the store of a slave that reads its link lacks of its master's: the commands behind
the position of the link. -/
theorem Inv.lacks (inv : Inv parse s pending) (sorting : Sorting k) (reads : s.slave.replRio = true) :
    ∃ n sent, Wired s n sent ∧
      performPacks parse s.slave.server.buckets.cells ((s.master.aofFiles.flatten ++ pending).drop n) =
        some s.master.buckets.cells := by
  obtain ⟨n, sent, wired⟩ := inv.wired (.inl reads)
  obtain ⟨h, _, extended, _⟩ := inv.merged sorting
  obtain ⟨_, _, slave⟩ := inv.slave h [] extended
  have observed : Slave.Observed false s.slave := .inr (by rw [(slave.reads reads).1]; decide)
  obtain ⟨link, linked, located⟩ := wired.link
  obtain ⟨n', located', covers⟩ := slave.link observed link linked
  obtain rfl := located'.unique (extended.positions _ _ located)
  rw [List.append_nil] at extended
  rw [CoversTo, extended.log] at covers
  exact ⟨n', sent, wired, covers.resume inv.master.live⟩

/-- Where a cursor at the end of the AOF stands. -/
theorem Wired.at_end {n sent : Nat} (wired : Wired s n sent) (numbered : s.master.aofFiles.length < 2 ^ 31)
    {replState : ReplState}
    (cursor : s.replica = some ⟨replState, replicaLink s.master.backlog.aofFile.curRollFile⟩) :
    sent = s.master.aofFiles.flatten.length := by
  obtain ⟨place, boundary, index⟩ := wired.replica _ cursor
  have last : s.master.backlog.aofFile.closed.length < s.master.aofFiles.length := by
    simp [Server.aofFiles, RotateFileStream.files]
  have read : fileNumber (replicaLink s.master.backlog.aofFile.curRollFile).replAofFileName =
      some s.master.backlog.aofFile.closed.length := fileNumber_gen _ (Nat.lt_trans last numbered)
  have located := boundary.located numbered
  rw [read, index] at located
  exact located.unique s.master.backlog.aofFile.curRollFile_at

end Invariant

/-- A master that sets one key and merges, and a slave that connects and asks. -/
def oneKey : List (Event 1 1) :=
  [.master (.multi (Fin.last 0) ⟨0, 0⟩ ⟨[keyedPack 1 1], ⟨some 0, 10⟩⟩), .master .merge, .slave (.cron false false),
    .handshake true false false false, .handshake false false true true]

/-- This run is in order. -/
theorem oneKey_orderly : Along (step List.length keyedHset (Sorting.insertion 1) (Sorting.insertion 1))
    (Orderly keyedHset (Sorting.insertion 1) (Sorting.insertion 1)) (fresh 2 "a" "b" "host" 1) oneKey := by
  have files : (step List.length keyedHset (Sorting.insertion 1) (Sorting.insertion 1) (fresh 2 "a" "b" "host" 1)
      (.master (.multi (Fin.last 0) ⟨0, 0⟩ ⟨[keyedPack 1 1], ⟨some 0, 10⟩⟩))).map
        (fun s => s.master.aofFiles.length) = some 1 := by
    decide +kernel
  have uncut : ∀ p ∈ [keyedPack 1 1], (0 : UInt8) ∉ p.body := by decide
  refine ⟨uncut, fun s1 first => ⟨?_, fun s2 _ => ⟨fun _ => rfl, fun s3 _ => ⟨trivial, fun s4 _ =>
    ⟨trivial, fun _ _ => trivial⟩⟩⟩⟩⟩
  rw [first, Option.map_some] at files
  have one : s1.master.aofFiles.length = 1 := Option.some.inj files
  change s1.master.aofFiles.length + 1 < 2 ^ 31
  omega

/-- In its end the slave reads its link, the master sends from the beginning of its AOF, and
the AOF is the one packet. -/
theorem oneKey_reached : ∃ s, run (step List.length keyedHset (Sorting.insertion 1) (Sorting.insertion 1))
      (fresh 2 "a" "b" "host" 1) oneKey = some s ∧ s.slave.replRio = true ∧
    s.replica = some ⟨.connected, ⟨"naruto.aof.0", 0⟩⟩ ∧ s.master.unmerged (Sorting.insertion 1) = [] ∧
    s.master.aofFiles = [[keyedPack 1 1]] := by
  have ran : (run (step List.length keyedHset (Sorting.insertion 1) (Sorting.insertion 1))
      (fresh 2 "a" "b" "host" 1) oneKey).map (fun s => (s.slave.replRio, s.replica,
        s.master.unmerged (Sorting.insertion 1), s.master.aofFiles)) =
      some (true, some ⟨.connected, ⟨"naruto.aof.0", 0⟩⟩, [], [[keyedPack 1 1]]) := by
    decide +kernel
  obtain ⟨s, ran, same⟩ := Option.map_eq_some_iff.mp ran
  simp only [Prod.mk.injEq] at same
  exact ⟨s, ran, same⟩

end Naruto.Replication.Pair
