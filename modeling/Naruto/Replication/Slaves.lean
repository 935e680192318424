import Naruto.Replication.FullSync
import Naruto.Replication.Psync
import Naruto.Theory.Runs

/-!
# The slaves of a master

A master keeps a list of the links whose transfer it has completed. Its cron removes
from it the links that are broken or have been silent for too long, and pings the rest.
A link counts as broken unless its connection is `CONNECTED`; only `connect()` makes a
connection so, and a master's links are accepted, not connected. So every tick empties
the list.
-/

namespace Naruto.Replication

open Naruto.Theory Naruto.Utils

/-- `Connect::status`. -/
inductive ConnectStatus
  | init
  | connected
  | close
deriving DecidableEq, Repr

/-- The fields of a `Connect` that `broken` looks at. -/
structure Connect where
  status : ConnectStatus
  err : Int
deriving DecidableEq, Repr

namespace Connect

/-- `Connect(int)`, for an accepted connection. -/
def accepted : Connect := ⟨.init, 0⟩

/-- `broken()`. -/
def broken (c : Connect) : Bool := c.err ≠ 0 ∨ c.status ≠ .connected

/-- `close()`. -/
def close (c : Connect) : Connect := { c with status := .close }

/-- A connection that is closed is not connected. -/
theorem close_status (c : Connect) : c.close.status ≠ .connected := fun impossible => by cases impossible

end Connect

/-- A link of the master: `connect`, the fields of the transfer with `repl_state` among
them, and `lastinteraction` in nanoseconds. -/
structure AcceptedLink where
  connect : Connect
  bulk : FullSync.BulkLink
  lastinteraction : Nat
deriving DecidableEq, Repr

/-- `replicaLink(int)`. -/
def AcceptedLink.new : AcceptedLink := ⟨Connect.accepted, ⟨none, 0, 0, .none, false⟩, 0⟩

/-- `repl_timeout_sec` and `repl_ping_slave_period`. -/
structure CronConf where
  replTimeoutSec : Nat
  replPingSlavePeriod : Nat
deriving DecidableEq, Repr

/-- The master, as far as its slaves are concerned: the links it has accepted, the list
`slaves_` of pointers to them, the links that the last tick has sent a `PING`, and the
steady clock. -/
structure Master where
  links : Nat → AcceptedLink
  accepted : Nat
  slaves : List Nat
  pings : List Nat
  cronloops : Nat
  now : Nat

/-- A master without links. -/
def Master.start : Master := ⟨fun _ => AcceptedLink.new, 0, [], [], 0, 0⟩

/-- What happens to a master. A connection that is closed may have had an error. A request
brings the server that answers it and the file that a full sync would send. -/
inductive MasterEvent
  | accept
  | psync (i : Nat) (server : Server 1) (request : Psync) (database : List UInt8)
  | sendBulk (i : Nat) (result : FullSync.WriteResult)
  | message (i : Nat)
  | closes (i : Nat) (err : Int)
  | passes (nanoseconds : Nat)
  | cron

namespace Master

variable (conf : CronConf)

/-- The condition of `remove_if` in `onReplCron`. -/
def removes (replUnixtime : Nat) (nc : AcceptedLink) : Bool :=
  let interval := (replUnixtime - nc.lastinteraction) / 1000000
  nc.connect.broken ∨ nc.bulk.replState = .connected ∧ conf.replTimeoutSec * 1000 < interval

/-- The master's part of `onReplCron`. -/
def onReplCron (s : Master) : Master :=
  let cronloops := s.cronloops + 1
  let slaves := s.slaves.filter fun i => !removes conf s.now (s.links i)
  let pings :=
    if cronloops % conf.replPingSlavePeriod = 0 ∧ slaves ≠ [] then
      slaves.filter fun i => (s.links i).bulk.replState = .connected
    else []
  { s with cronloops := cronloops, slaves := slaves, pings := pings }

/-- What `CommandPsync::exec` does to the link: a full sync opens the database file. -/
def psyncLink (server : Server 1) (request : Psync) (database : List UInt8) (nc : AcceptedLink) : AcceptedLink :=
  let replState := (server.commandPsync (fun _ => database.length) request).2.1.replState
  match replState with
  | .transfor => { nc with bulk := FullSync.BulkLink.start database }
  | _ => { nc with bulk := { nc.bulk with replState := replState } }

/-- A changed link. -/
def setLink (s : Master) (i : Nat) (nc : AcceptedLink) : Master := { s with links := Function.update s.links i nc }

/-- The links that still get events: accepted, and not closed. -/
def Open (s : Master) (i : Nat) : Prop := i < s.accepted ∧ (s.links i).connect.status ≠ .close

/-- Whether a link is open can be decided. -/
instance (s : Master) (i : Nat) : Decidable (s.Open i) := inferInstanceAs (Decidable (_ ∧ _))

/-- `onSendBulkToSlave`, which closes the link when it fails, and adds it to the slaves
behind the last byte. -/
def onSendBulkToSlave (s : Master) (i : Nat) (result : FullSync.WriteResult) : Option Master :=
  let nc := s.links i
  (FullSync.onSendBulkToSlave nc.bulk result).map fun sent =>
    let connect := if sent.1.closed then nc.connect.close else nc.connect
    let s' := s.setLink i { nc with connect := connect, bulk := sent.1 }
    if nc.bulk.replDbf ≠ none ∧ sent.1.replDbf = none then { s' with slaves := s.slaves ++ [i] } else s'

/-- One event. A message is read by `onRead`, which notes the time. A link gets events as long
as it is open. -/
def step (s : Master) : MasterEvent → Option Master
  | .accept => some { s.setLink s.accepted AcceptedLink.new with accepted := s.accepted + 1 }
  | .psync i server request database =>
    if s.Open i then
      some (s.setLink i (psyncLink server request database { s.links i with lastinteraction := s.now }))
    else none
  | .sendBulk i result => if s.Open i then s.onSendBulkToSlave i result else none
  | .message i => if s.Open i then some (s.setLink i { s.links i with lastinteraction := s.now }) else none
  | .closes i err =>
    if s.Open i then
      some (s.setLink i { s.links i with connect := { (s.links i).connect with err := err }.close })
    else none
  | .passes nanoseconds => some { s with now := s.now + nanoseconds }
  | .cron => some (s.onReplCron conf)

/-- A link that should be among the slaves: its first sync is complete, its connection has
neither been closed nor failed, and it has not been silent for too long. -/
def Healthy (now : Nat) (nc : AcceptedLink) : Prop :=
  nc.bulk.replState = .connected ∧ nc.connect.status ≠ .close ∧ nc.connect.err = 0 ∧
    (now - nc.lastinteraction) / 1000000 ≤ conf.replTimeoutSec * 1000

/-- What should hold behind a tick: the slaves are the healthy links, and when the period
is over each of them has been sent a `PING`. -/
def Exact (s : Master) : Prop :=
  (∀ i, i ∈ s.slaves ↔ Healthy conf s.now (s.links i)) ∧
    (s.cronloops % conf.replPingSlavePeriod = 0 → ∀ i, Healthy conf s.now (s.links i) → i ∈ s.pings)

/-- No link is healthy. -/
def NoneHealthy (s : Master) : Prop := ∀ i, ¬ Healthy conf s.now (s.links i)

/-- Every tick of a run leaves the list exact. -/
def TicksExact (events : List MasterEvent) : Prop :=
  Along (step conf) (fun s event => event = .cron → (s.onReplCron conf).Exact conf) start events

/-- No connection of the master's links is `CONNECTED`. -/
def Unconnected (s : Master) : Prop := ∀ i, (s.links i).connect.status ≠ .connected

variable {conf}

/-- Before the first accept no link is connected. -/
theorem start_unconnected : start.Unconnected := fun i impossible => by cases impossible

/-- Links stay unconnected when one of them gets another status than `CONNECTED`. -/
theorem Unconnected.setLink {s : Master} (unconnected : s.Unconnected) {i : Nat} {nc : AcceptedLink}
    (status : nc.connect.status ≠ .connected) : (s.setLink i nc).Unconnected := by
  intro j
  rw [Master.setLink]
  by_cases here : j = i
  · rw [here]
    dsimp only
    rw [Function.update_self]
    exact status
  · dsimp only
    rw [Function.update_of_ne here]
    exact unconnected j

/-- `psync` leaves the connection alone. -/
theorem psyncLink_connect (server : Server 1) (request : Psync) (database : List UInt8) (nc : AcceptedLink) :
    (psyncLink server request database nc).connect = nc.connect := by
  rw [psyncLink]
  split <;> rfl

/-- No event connects an accepted link. The status of an accepted connection is `INIT` until it
is closed; `psync` and the ticks leave it. -/
theorem Unconnected.step {s s' : Master} (unconnected : s.Unconnected) {event : MasterEvent}
    (stepped : s.step conf event = some s') : s'.Unconnected := by
  cases event with
  | accept =>
    obtain rfl := Option.some.inj stepped
    have fresh : AcceptedLink.new.connect.status ≠ .connected := by decide
    exact unconnected.setLink fresh
  | psync i server request database =>
    rw [Master.step] at stepped
    split at stepped
    · obtain rfl := Option.some.inj stepped
      apply unconnected.setLink
      rw [psyncLink_connect]
      exact unconnected i
    · cases stepped
  | sendBulk i result =>
    rw [Master.step] at stepped
    split at stepped
    · obtain ⟨sent, _, rfl⟩ := Option.map_eq_some_iff.mp stepped
      have status : (if sent.1.closed then (s.links i).connect.close else (s.links i).connect).status ≠ .connected := by
        split
        · exact Connect.close_status _
        · exact unconnected i
      dsimp only
      split
      · exact unconnected.setLink status
      · exact unconnected.setLink status
    · cases stepped
  | message i =>
    rw [Master.step] at stepped
    split at stepped
    · obtain rfl := Option.some.inj stepped
      exact unconnected.setLink (unconnected i)
    · cases stepped
  | closes i err =>
    rw [Master.step] at stepped
    split at stepped
    · obtain rfl := Option.some.inj stepped
      exact unconnected.setLink (Connect.close_status _)
    · cases stepped
  | passes nanoseconds =>
    obtain rfl := Option.some.inj stepped
    exact unconnected
  | cron =>
    obtain rfl := Option.some.inj stepped
    exact unconnected

/-- A tick empties the list. -/
theorem onReplCron_slaves {s : Master} (unconnected : s.Unconnected) : (s.onReplCron conf).slaves = [] := by
  apply List.filter_eq_nil_iff.mpr
  intro i _
  have broken : (s.links i).connect.broken = true := by
    simp only [Connect.broken, unconnected i, ne_eq, not_false_eq_true, or_true, decide_true]
  simp only [removes, broken, true_or, decide_true, Bool.not_true, Bool.false_eq_true, not_false_eq_true]

/-- So it is exact exactly when no link is healthy. -/
theorem onReplCron_exact_iff {s : Master} (unconnected : s.Unconnected) :
    (s.onReplCron conf).Exact conf ↔ s.NoneHealthy conf := by
  have empty : (s.onReplCron conf).slaves = [] := onReplCron_slaves unconnected
  constructor
  · intro exact i healthy
    have member := (exact.1 i).mpr healthy
    rw [empty] at member
    cases member
  · intro none
    refine ⟨fun i => ?_, fun _ i healthy => absurd healthy (none i)⟩
    rw [empty]
    exact ⟨fun member => (List.not_mem_nil member).elim, fun healthy => absurd healthy (none i)⟩

/-- The ticks of a run leave the list exact exactly when no link is healthy at any of them.

Proof: a link accepted from a descriptor never gets the status `CONNECTED`, whatever its own
`replState` becomes. So the first test of a tick drops every link, the broken ones as it
should and the healthy ones as well. -/
theorem ticksExact_iff (conf : CronConf) (events : List MasterEvent) :
    TicksExact conf events ↔
      Along (step conf) (fun s event => event = .cron → s.NoneHealthy conf) start events := by
  apply Along.congr_of_invariant Unconnected
  · exact fun s event s' unconnected stepped => unconnected.step stepped
  · exact fun s event unconnected => imp_congr_right fun _ => onReplCron_exact_iff unconnected
  · exact start_unconnected

/-- A slave without a position, and a master without a database file. -/
def firstRequest : MasterEvent := .psync 0 (Server.fresh 1 "a") ⟨"?", ⟨none, 0⟩⟩ []

/-- The master before and behind the partial sync of its first link. -/
def linked : Master := { start.setLink 0 AcceptedLink.new with accepted := 1 }

/-- The master behind the first request of a slave. -/
def synced : Master :=
  linked.setLink 0 { AcceptedLink.new with bulk := { AcceptedLink.new.bulk with replState := .connected } }

/-- The slave is dropped by the first tick, and gets no `PING`. Its link was accepted, so its
connection is not `CONNECTED` and counts as broken. -/
theorem ticks_not_exact : ¬ ∀ conf events, TicksExact conf events := by
  intro all
  have undumped : (Server.fresh 1 "a" : Server 1).dbFile = none := rfl
  have first : ((Server.fresh 1 "a" : Server 1).commandPsync (fun _ => 0) ⟨"?", ⟨none, 0⟩⟩).2.1.replState =
      .connected := by
    rw [Server.commandPsync, Server.syncCase, if_pos (Or.inl rfl), if_pos undumped]
  have accepted : step ⟨60, 10⟩ start .accept = some linked := rfl
  have asked : step ⟨60, 10⟩ linked firstRequest = some synced := by
    rw [firstRequest, step, if_pos (by decide)]
    simp only [psyncLink, List.length_nil, first]
    rfl
  have exact := (((all ⟨60, 10⟩ [.accept, firstRequest, .cron]).2 _ accepted).2 _ asked).1 rfl
  have never := (onReplCron_exact_iff ((start_unconnected.step accepted).step asked)).mp exact
  exact never 0 ⟨rfl, by decide, rfl, by decide⟩

end Master

end Naruto.Replication
