import Naruto.Replication.FullSync
import Naruto.Theory.Runs

/-!
# The states of a slave

The state of the slave side is written by the cron, by `SLAVEOF` and by two handlers
of the connection to the master, which run when their watcher is armed. `SLAVEOF`
leaves the watchers as they are, so a handler can run in a state it was not
started for, until the next cron tick connects anew and replaces them. As long as
this does not happen the assertions hold, and a slave is connected only to the
master it is configured for.
-/

namespace Naruto.Replication

open Naruto.Theory

/-- The handlers of `repl_ev_io_r_`. -/
inductive Callback
  | onSyncWithMaster
  | onReadSyncBulkPayload
deriving DecidableEq, Repr

/-- The slave side of `Replication`: `master_` with the address it was opened to, the
callback of `repl_ev_io_r_` while it is armed, and whether `repl_ev_io_w_` is.
`asserted` tells that an assertion has failed. -/
structure SlaveState where
  replState : ReplState
  masterHost : String
  masterPort : Int
  master : Option (String × Int)
  replEvIoR : Option Callback
  replEvIoW : Bool
  asserted : Bool
deriving DecidableEq, Repr

namespace SlaveState

/-- What `_slave_try_partial_resynchronization` is answered. An exception, an error code
and `TRYSYNC` count as failures. -/
inductive PsyncOutcome
  | fullsync
  | partsync
  | failed
deriving DecidableEq, Repr

/-- What `::read` brings to `onReadSyncBulkPayload`: an error or the end, bytes that do
not complete the file, or those that do, with the result of the rename. -/
inductive Payload
  | failed
  | data
  | last (renamed : Bool)
deriving DecidableEq, Repr

/-- What happens to a slave. A tick finds the time limits exceeded or not. -/
inductive Event
  | slaveof (host : String) (port : Int)
  | cron (transferTimeout interactionTimeout : Bool)
  | readable (sockerr pong : Bool) (outcome : PsyncOutcome)
  | writable (sockerr pong : Bool) (outcome : PsyncOutcome)
  | payload (result : Payload)
deriving DecidableEq, Repr

/-- `assert`. -/
def assert (s : SlaveState) (holds : Bool) : SlaveState := { s with asserted := s.asserted || !holds }

/-- `_undo_connect_master`. -/
def undoConnectMaster (s : SlaveState) : SlaveState :=
  { s.assert (s.replState = .connecting ∨ s.replState = .receivePong) with
    replEvIoR := none
    replEvIoW := false
    replState := .connect }

/-- `_abort_sync_transfer`. -/
def abortSyncTransfer (s : SlaveState) : SlaveState :=
  { s.assert (s.replState = .transfor) with
    replEvIoR := none
    replState := .connect }

/-- `cacheMaster`. -/
def cacheMaster (s : SlaveState) : SlaveState := if s.master = none then s else { s with replState := .connect }

/-- `_connect_master`: the new watchers take the places of the old ones, which stop. -/
def connectMaster (s : SlaveState) : SlaveState :=
  { s with
    master := some (s.masterHost, s.masterPort)
    replEvIoR := some .onSyncWithMaster
    replEvIoW := true
    replState := .connecting }

/-- The first test of `onReplCron`: the connection takes too long. -/
def undoLate (s : SlaveState) (transferTimeout : Bool) : SlaveState :=
  if (s.replState = .connecting ∨ s.replState = .receivePong) ∧ transferTimeout then s.undoConnectMaster else s

/-- The second test: the transfer takes too long. -/
def abortLate (s : SlaveState) (transferTimeout : Bool) : SlaveState :=
  if s.replState = .transfor ∧ transferTimeout then s.abortSyncTransfer else s

/-- The third test: the master has been silent for too long. -/
def cacheLate (s : SlaveState) (interactionTimeout : Bool) : SlaveState :=
  if s.replState = .connected ∧ interactionTimeout then s.cacheMaster else s

/-- The fourth test: there is a master to connect to. -/
def connectAnew (s : SlaveState) : SlaveState := if s.replState = .connect then s.connectMaster else s

/-- The part of `onReplCron` for a slave, test after test. Each also asks for a master. -/
def onReplCron (s : SlaveState) (transferTimeout interactionTimeout : Bool) : SlaveState :=
  if s.masterHost = "" then s
  else (((s.undoLate transferTimeout).abortLate transferTimeout).cacheLate interactionTimeout).connectAnew

/-- The end of `onSyncWithMaster` behind the label `error`. -/
def syncError (s : SlaveState) : SlaveState := { s with replState := .connect }

/-- `_slave_try_partial_resynchronization` with its answer, and what follows it. -/
def slaveTryPartialResynchronization (s : SlaveState) : PsyncOutcome → SlaveState
  | .fullsync => { s with replState := .transfor, replEvIoR := some .onReadSyncBulkPayload }
  | .partsync => { s with replState := .connected }
  | .failed => s.syncError

/-- `onSyncWithMaster`: `pong` tells that the answer to the ping is a pong. -/
def onSyncWithMaster (s : SlaveState) (sockerr pong : Bool) (outcome : PsyncOutcome) : SlaveState :=
  if s.replState = .none then s
  else if sockerr then { s with replEvIoR := none, replEvIoW := false }.syncError
  else if s.replState = .connecting then { s with replState := .receivePong, replEvIoW := false }
  else if s.replState = .receivePong then
    let s := { s with replEvIoR := none }
    if pong then s.slaveTryPartialResynchronization outcome else s.syncError
  else s.slaveTryPartialResynchronization outcome

/-- `onReadSyncBulkPayload`. -/
def onReadSyncBulkPayload (s : SlaveState) : Payload → SlaveState
  | .failed => s.abortSyncTransfer
  | .data => s
  | .last renamed =>
    if renamed then { s with replEvIoR := none, replState := .connected } else s.abortSyncTransfer

/-- `CommandSlaveof::exec`. -/
def slaveof (s : SlaveState) (host : String) (port : Int) : SlaveState :=
  { s with replState := .connect, masterPort := port, masterHost := host }

/-- A handler runs while its watcher is armed. -/
def Enabled : SlaveState → Event → Prop
  | s, .readable _ _ _ => s.replEvIoR = some .onSyncWithMaster
  | s, .writable _ _ _ => s.replEvIoW = true
  | s, .payload _ => s.replEvIoR = some .onReadSyncBulkPayload
  | _, .slaveof _ _ | _, .cron _ _ => True

/-- Whether an event is enabled can be decided, by the callback it belongs to. -/
instance : ∀ s event, Decidable (Enabled s event)
  | s, .readable _ _ _ => inferInstanceAs (Decidable (s.replEvIoR = some .onSyncWithMaster))
  | s, .writable _ _ _ => inferInstanceAs (Decidable (s.replEvIoW = true))
  | s, .payload _ => inferInstanceAs (Decidable (s.replEvIoR = some .onReadSyncBulkPayload))
  | _, .slaveof _ _ | _, .cron _ _ => isTrue trivial

/-- What the event does. -/
def handle (s : SlaveState) : Event → SlaveState
  | .slaveof host port => s.slaveof host port
  | .cron transferTimeout interactionTimeout => s.onReplCron transferTimeout interactionTimeout
  | .readable sockerr pong outcome => s.onSyncWithMaster sockerr pong outcome
  | .writable sockerr pong outcome => s.onSyncWithMaster sockerr pong outcome
  | .payload result => s.onReadSyncBulkPayload result

/-- One event. Nothing happens any more when an assertion has failed. -/
def step (s : SlaveState) (event : Event) : Option SlaveState :=
  if s.asserted = false ∧ s.Enabled event then some (s.handle event) else none

/-- `_init`: a configuration with a master makes the slave connect. -/
def init (host : String) (port : Int) : SlaveState where
  replState := if host ≠ "" ∧ 0 < port then .connect else .none
  masterHost := host
  masterPort := port
  master := none
  replEvIoR := none
  replEvIoW := false
  asserted := false

/-- A handler runs in a state it was started for. -/
def InPlace : SlaveState → Event → Prop
  | s, .readable _ _ _ | s, .writable _ _ _ => s.replState = .connecting ∨ s.replState = .receivePong
  | s, .payload _ => s.replState = .transfor
  | _, .slaveof _ _ | _, .cron _ _ => True

/-- Whether an event comes in its place can be decided. -/
instance : ∀ s event, Decidable (InPlace s event)
  | s, .readable _ _ _ | s, .writable _ _ _ =>
    inferInstanceAs (Decidable (s.replState = .connecting ∨ s.replState = .receivePong))
  | s, .payload _ => inferInstanceAs (Decidable (s.replState = .transfor))
  | _, .slaveof _ _ | _, .cron _ _ => isTrue trivial

/-- `SLAVEOF` arrives while no watcher is armed. -/
def Calm (s : SlaveState) : Event → Prop
  | .slaveof _ _ => s.replEvIoR = none ∧ s.replEvIoW = false
  | _ => True

/-- The states in which `master_` is in use. -/
def Linked (state : ReplState) : Prop :=
  state = .connecting ∨ state = .receivePong ∨ state = .transfor ∨ state = .connected

/-- The invariant: no assertion has failed, and a link in use was opened to the master
that is configured. -/
structure Inv (s : SlaveState) : Prop where
  holds : s.asserted = false
  linked : Linked s.replState → s.master = some (s.masterHost, s.masterPort)

/-- No assertion has failed, and a slave is connected to the master that is configured. -/
def Safe (s : SlaveState) : Prop :=
  s.asserted = false ∧ (s.replState = .connected → s.master = some (s.masterHost, s.masterPort))

/-- A slave that connects anew is not linked. -/
theorem Inv.connect {s : SlaveState} (holds : s.asserted = false) (state : s.replState = .connect) : Inv s where
  holds := holds
  linked := by
    rw [state]
    rintro (same | same | same | same) <;> cases same

/-- A slave that goes from one linked state to another. -/
theorem Inv.goto {s s' : SlaveState} (inv : Inv s) (linked : Linked s.replState) (asserted : s'.asserted = s.asserted)
    (host : s'.masterHost = s.masterHost) (port : s'.masterPort = s.masterPort) (master : s'.master = s.master) :
    Inv s' where
  holds := asserted.trans inv.holds
  linked := by
    intro _
    rw [master, host, port]
    exact inv.linked linked

/-- A connection is only undone in the states for which that is asserted. -/
theorem Inv.undoLate {s : SlaveState} (inv : Inv s) (transferTimeout : Bool) : Inv (s.undoLate transferTimeout) := by
  unfold SlaveState.undoLate
  split
  · rename_i late
    apply Inv.connect _ rfl
    simp [undoConnectMaster, assert, inv.holds, late.1]
  · exact inv

/-- A transfer is aborted in its own state. -/
theorem Inv.abortSyncTransfer {s : SlaveState} (inv : Inv s) (state : s.replState = .transfor) :
    Inv s.abortSyncTransfer := by
  apply Inv.connect _ rfl
  simp [SlaveState.abortSyncTransfer, assert, inv.holds, state]

/-- Giving up a transfer that takes too long keeps the invariant, -/
theorem Inv.abortLate {s : SlaveState} (inv : Inv s) (transferTimeout : Bool) : Inv (s.abortLate transferTimeout) := by
  unfold SlaveState.abortLate
  split
  · rename_i late
    exact inv.abortSyncTransfer late.1
  · exact inv

/-- and so does caching a master that has been silent too long. -/
theorem Inv.cacheLate {s : SlaveState} (inv : Inv s) (interactionTimeout : Bool) :
    Inv (s.cacheLate interactionTimeout) := by
  unfold SlaveState.cacheLate cacheMaster
  split
  · split
    · exact inv
    · exact Inv.connect inv.holds rfl
  · exact inv

/-- A new link is opened to the master that is configured. -/
theorem Inv.connectAnew {s : SlaveState} (inv : Inv s) : Inv s.connectAnew := by
  unfold SlaveState.connectAnew
  split
  · exact ⟨inv.holds, fun _ => rfl⟩
  · exact inv

/-- A tick: each test is made in the state it is meant for. -/
theorem Inv.onReplCron {s : SlaveState} (inv : Inv s) (transferTimeout interactionTimeout : Bool) :
    Inv (s.onReplCron transferTimeout interactionTimeout) := by
  unfold SlaveState.onReplCron
  split
  · exact inv
  · exact (((inv.undoLate transferTimeout).abortLate transferTimeout).cacheLate interactionTimeout).connectAnew

/-- The answer to `psync`, on a link in use. -/
theorem Inv.slaveTryPartialResynchronization {s : SlaveState} (inv : Inv s) (linked : Linked s.replState)
    (outcome : PsyncOutcome) : Inv (s.slaveTryPartialResynchronization outcome) := by
  cases outcome with
  | fullsync => exact inv.goto linked rfl rfl rfl rfl
  | partsync => exact inv.goto linked rfl rfl rfl rfl
  | failed => exact Inv.connect inv.holds rfl

/-- The handshake, in a state it was started for. Each way out gives the connection up, waits
for an answer, or makes a request. -/
theorem Inv.onSyncWithMaster {s : SlaveState} (inv : Inv s)
    (state : s.replState = .connecting ∨ s.replState = .receivePong) (sockerr pong : Bool) (outcome : PsyncOutcome) :
    Inv (s.onSyncWithMaster sockerr pong outcome) := by
  have linked : Linked s.replState := state.elim Or.inl fun pong => Or.inr (Or.inl pong)
  rw [SlaveState.onSyncWithMaster]
  split
  · exact inv
  · split
    · exact Inv.connect inv.holds rfl
    · split
      · exact inv.goto linked rfl rfl rfl rfl
      · have stopped : Inv { s with replEvIoR := none } := inv.goto linked rfl rfl rfl rfl
        split
        · dsimp only
          split
          · exact stopped.slaveTryPartialResynchronization linked outcome
          · exact Inv.connect inv.holds rfl
        · exact inv.slaveTryPartialResynchronization linked outcome

/-- The transfer, in its own state. -/
theorem Inv.onReadSyncBulkPayload {s : SlaveState} (inv : Inv s) (state : s.replState = .transfor)
    (result : Payload) : Inv (s.onReadSyncBulkPayload result) := by
  cases result with
  | failed => exact inv.abortSyncTransfer state
  | data => exact inv
  | last renamed =>
    cases renamed with
    | true => exact inv.goto (Or.inr (Or.inr (Or.inl state))) rfl rfl rfl rfl
    | false => exact inv.abortSyncTransfer state

/-- Every event in its place keeps the invariant. -/
theorem Inv.handle {s : SlaveState} {event : Event} (inv : Inv s) (inPlace : InPlace s event) :
    Inv (s.handle event) := by
  cases event with
  | slaveof host port => exact Inv.connect inv.holds rfl
  | cron transferTimeout interactionTimeout => exact inv.onReplCron transferTimeout interactionTimeout
  | readable sockerr pong outcome => exact inv.onSyncWithMaster inPlace sockerr pong outcome
  | writable sockerr pong outcome => exact inv.onSyncWithMaster inPlace sockerr pong outcome
  | payload result => exact inv.onReadSyncBulkPayload inPlace result

/-- A step is an event that was enabled. -/
theorem step_handle {s s' : SlaveState} {event : Event} (stepped : step s event = some s') :
    s.Enabled event ∧ s' = s.handle event := by
  obtain ⟨⟨_, enabled⟩, same⟩ := Option.ite_none_right_eq_some.mp stepped
  exact ⟨enabled, (Option.some.inj same).symm⟩

/-- The invariant holds where a slave starts. -/
theorem Inv.init (host : String) (port : Int) : Inv (init host port) where
  holds := rfl
  linked := by
    rw [SlaveState.init]
    dsimp only
    split
    · rintro (same | same | same | same) <;> cases same
    · rintro (same | same | same | same) <;> cases same

/-- The invariant gives what it is for. -/
theorem Inv.safe {s : SlaveState} (inv : Inv s) : Safe s := by
  constructor
  · exact inv.holds
  · intro connected
    exact inv.linked (Or.inr (Or.inr (Or.inr connected)))

/-- In every run in which the handlers run only in states they were started for, no assertion
fails, and a slave is connected only to the master that is configured.

Proof: the invariant says which link and which watchers belong to each state of the slave. A
handler that runs in its own state finds them, so its assertions hold and it hands the next
state what belongs to it; a tick of the cron tests the state itself. -/
theorem safe_inPlace (host : String) (port : Int) (events : List Event) (s : SlaveState)
    (ran : run step (init host port) events = some s) (inPlace : Along step InPlace (init host port) events) :
    Safe s := by
  have preserved : ∀ s event s', Inv s → InPlace s event → step s event = some s' → Inv s' := by
    intro s event s' inv inPlace stepped
    rw [(step_handle stepped).2]
    exact inv.handle inPlace
  exact (run_invariant Inv preserved (init host port) s events (Inv.init host port) inPlace ran).safe

/-- A full synchronization with the master that is configured. -/
def fullSynchronization : List Event :=
  [.cron false false, .writable false false .failed, .readable false true .fullsync, .payload .data,
    .payload (.last true)]

/-- A full synchronization leaves the slave connected to its master. -/
theorem safe_fullSynchronization :
    ∃ s, run step (init "a" 1) fullSynchronization = some s ∧ s.replState = .connected ∧ Safe s := by
  have ran : (run step (init "a" 1) fullSynchronization).map SlaveState.replState = some .connected := by
    decide +kernel
  obtain ⟨s, ran, connected⟩ := Option.map_eq_some_iff.mp ran
  exact ⟨s, ran, connected, safe_inPlace "a" 1 fullSynchronization s ran (by decide +kernel)⟩

/-- `SLAVEOF` between the answer to `psync` and the next tick: the transfer from the old
master goes on. If it fails an assertion fails; if it succeeds the slave is connected to
the old master. -/
theorem slaveof_keepsTransfer :
    (∃ s, run step (init "a" 1) [.cron false false, .writable false false .failed, .readable false true .fullsync,
        .slaveof "b" 2, .payload .failed] = some s ∧ s.asserted = true) ∧
      ∃ s, run step (init "a" 1) [.cron false false, .writable false false .failed, .readable false true .fullsync,
        .slaveof "b" 2, .payload (.last true)] = some s ∧
        s.replState = .connected ∧ s.master = some ("a", 1) ∧ s.masterHost = "b" := by
  have failed : (run step (init "a" 1) [.cron false false, .writable false false .failed,
      .readable false true .fullsync, .slaveof "b" 2, .payload .failed]).map SlaveState.asserted = some true := by
    decide +kernel
  have renamed : (run step (init "a" 1) [.cron false false, .writable false false .failed,
      .readable false true .fullsync, .slaveof "b" 2, .payload (.last true)]).map
      (fun s => (s.replState, s.master, s.masterHost)) = some (.connected, some ("a", 1), "b") := by decide +kernel
  obtain ⟨s, ran, asserted⟩ := Option.map_eq_some_iff.mp failed
  obtain ⟨s', ran', same⟩ := Option.map_eq_some_iff.mp renamed
  simp only [Prod.mk.injEq] at same
  exact ⟨⟨s, ran, asserted⟩, ⟨s', ran', same⟩⟩

/-- The watchers that are armed belong to the state. -/
structure Armed (s : SlaveState) : Prop where
  sync : s.replEvIoR = some .onSyncWithMaster → s.replState = .connecting ∨ s.replState = .receivePong
  bulk : s.replEvIoR = some .onReadSyncBulkPayload → s.replState = .transfor
  write : s.replEvIoW = true → s.replState = .connecting

/-- Without armed watchers every state will do. -/
theorem Armed.off {s : SlaveState} (read : s.replEvIoR = none) (write : s.replEvIoW = false) : Armed s where
  sync := fun armed => by cases read.symm.trans armed
  bulk := fun armed => by cases read.symm.trans armed
  write := fun armed => by cases write.symm.trans armed

/-- In the other states no watcher is armed. -/
theorem Armed.idle {s : SlaveState} (armed : Armed s) (connecting : s.replState ≠ .connecting)
    (pong : s.replState ≠ .receivePong) (transfor : s.replState ≠ .transfor) :
    s.replEvIoR = none ∧ s.replEvIoW = false := by
  constructor
  · cases reads : s.replEvIoR with
    | none => rfl
    | some callback =>
      cases callback with
      | onSyncWithMaster => exact ((armed.sync reads).elim connecting pong).elim
      | onReadSyncBulkPayload => exact (transfor (armed.bulk reads)).elim
  · cases writes : s.replEvIoW with
    | false => rfl
    | true => exact (connecting (armed.write writes)).elim

/-- The handler for readiness to write runs while connecting; outside of that state it
is not armed. -/
theorem Armed.unarmed {s : SlaveState} (armed : Armed s) (connecting : s.replState ≠ .connecting) :
    s.replEvIoW = false := by
  cases writes : s.replEvIoW with
  | false => rfl
  | true => exact (connecting (armed.write writes)).elim

/-- A connection that is undone has no watchers. -/
theorem Armed.undoLate {s : SlaveState} (armed : Armed s) (transferTimeout : Bool) :
    Armed (s.undoLate transferTimeout) := by
  unfold SlaveState.undoLate
  split
  · exact Armed.off rfl rfl
  · exact armed

/-- Neither has a transfer that is aborted. -/
theorem Armed.abortLate {s : SlaveState} (armed : Armed s) (transferTimeout : Bool) :
    Armed (s.abortLate transferTimeout) := by
  unfold SlaveState.abortLate
  split
  · rename_i late
    apply Armed.off rfl
    apply armed.unarmed
    rw [late.1]
    decide
  · exact armed

/-- A slave that is connected has none to stop. -/
theorem Armed.cacheLate {s : SlaveState} (armed : Armed s) (interactionTimeout : Bool) :
    Armed (s.cacheLate interactionTimeout) := by
  unfold SlaveState.cacheLate cacheMaster
  split
  · rename_i late
    split
    · exact armed
    · obtain ⟨read, write⟩ := armed.idle (by rw [late.1]; decide) (by rw [late.1]; decide)
        (by rw [late.1]; decide)
      exact Armed.off read write
  · exact armed

/-- A new connection starts with the handshake. -/
theorem Armed.connectAnew {s : SlaveState} (armed : Armed s) : Armed s.connectAnew := by
  unfold SlaveState.connectAnew
  split
  · constructor
    · exact fun _ => Or.inl rfl
    · exact fun impossible => by cases impossible
    · exact fun _ => rfl
  · exact armed

/-- A tick stops the watchers it has no more use for. -/
theorem Armed.onReplCron {s : SlaveState} (armed : Armed s) (transferTimeout interactionTimeout : Bool) :
    Armed (s.onReplCron transferTimeout interactionTimeout) := by
  unfold SlaveState.onReplCron
  split
  · exact armed
  · exact (((armed.undoLate transferTimeout).abortLate transferTimeout).cacheLate interactionTimeout).connectAnew

/-- The handshake stops the watchers it has no more use for. Only a `FULLSYNC` leaves one that
reads, for the file, and a `PING` one for its answer. -/
theorem Armed.onSyncWithMaster {s : SlaveState} (armed : Armed s)
    (state : s.replState = .connecting ∨ s.replState = .receivePong) (sockerr pong : Bool) (outcome : PsyncOutcome) :
    Armed (s.onSyncWithMaster sockerr pong outcome) := by
  unfold SlaveState.onSyncWithMaster
  split
  · exact armed
  · split
    · exact Armed.off rfl rfl
    · split
      · rename_i connecting
        constructor
        · exact fun _ => Or.inr rfl
        · exact fun bulk => by cases connecting.symm.trans (armed.bulk bulk)
        · exact fun impossible => by cases impossible
      · rename_i connecting
        rw [if_pos (state.resolve_left connecting)]
        have write := armed.unarmed connecting
        dsimp only
        split
        · cases outcome with
          | fullsync =>
            constructor
            · exact fun impossible => by cases impossible
            · exact fun _ => rfl
            · exact fun on => by cases write.symm.trans on
          | partsync => exact Armed.off rfl write
          | failed => exact Armed.off rfl write
        · exact Armed.off rfl write

/-- When `SLAVEOF` arrives only while no watcher is armed, the watchers belong to the
state after every event. -/
theorem Armed.handle {s : SlaveState} {event : Event} (armed : Armed s) (calm : Calm s event)
    (enabled : s.Enabled event) : Armed (s.handle event) := by
  cases event with
  | slaveof host port => exact Armed.off calm.1 calm.2
  | cron transferTimeout interactionTimeout => exact armed.onReplCron transferTimeout interactionTimeout
  | readable sockerr pong outcome => exact armed.onSyncWithMaster (armed.sync enabled) sockerr pong outcome
  | writable sockerr pong outcome => exact armed.onSyncWithMaster (Or.inl (armed.write enabled)) sockerr pong outcome
  | payload result =>
    have write := armed.unarmed (by rw [armed.bulk enabled]; decide)
    cases result with
    | failed => exact Armed.off rfl write
    | data => exact armed
    | last renamed =>
      cases renamed with
      | true => exact Armed.off rfl write
      | false => exact Armed.off rfl write

/-- A handler whose watcher belongs to the state runs in its place. -/
theorem Armed.inPlace {s : SlaveState} {event : Event} (armed : Armed s) (enabled : s.Enabled event) :
    InPlace s event := by
  cases event with
  | slaveof host port => trivial
  | cron transferTimeout interactionTimeout => trivial
  | readable sockerr pong outcome => exact armed.sync enabled
  | writable sockerr pong outcome => exact Or.inl (armed.write enabled)
  | payload result => exact armed.bulk enabled

/-- A `SLAVEOF` that arrives while no watcher is armed does no harm: such runs are safe
in any order of the other events. -/
theorem safe_calm (host : String) (port : Int) (events : List Event) (s : SlaveState)
    (ran : run step (init host port) events = some s) (calm : Along step Calm (init host port) events) : Safe s := by
  have preserved : ∀ s event s', Inv s ∧ Armed s → Calm s event → step s event = some s' → Inv s' ∧ Armed s' := by
    rintro s event s' ⟨inv, armed⟩ calm stepped
    obtain ⟨enabled, rfl⟩ := step_handle stepped
    exact ⟨inv.handle (armed.inPlace enabled), armed.handle calm enabled⟩
  have start : Inv (init host port) ∧ Armed (init host port) := ⟨Inv.init host port, Armed.off rfl rfl⟩
  exact (run_invariant (fun s => Inv s ∧ Armed s) preserved (init host port) s events start calm ran).1.safe

end SlaveState

end Naruto.Replication
