import Naruto.Cluster.Meet
import Naruto.Cluster.UpdateView

/-!
# The cron of the cluster

`onClusterCron` connects to the nodes, gossips, looks for nodes that have not answered, and then
decides anew whether the cluster is up, but only when such a node has been found and the cluster is
down already. So a cluster that is up stays so, whatever happens to its nodes; and one that is down
stays down until another node fails to answer.
-/

namespace Naruto.Cluster

open Naruto.Theory

/-- `cluster_node_timeout_sec`, `cluster_handshake_timeout_ms` and `cluster_writable_delay_ms`. -/
structure ClusterConf where
  nodeTimeoutSec : Int
  handshakeTimeoutMs : Int
  writableDelayMs : Int
deriving DecidableEq, Repr

/-- The time in milliseconds, and in seconds. -/
def LinkCheck.nowMs (check : LinkCheck) : Int := check.now.tdiv 1000000

/-- The time of a link check in seconds, cut as the source's integer division cuts it. -/
def LinkCheck.nowSec (check : LinkCheck) : Int := check.now.tdiv 1000000000

namespace ClusterNode

variable (conf : ClusterConf) (nowSec : Int) (node : ClusterNode)

/-- `checkOffline` closes the link of a node: it is old, and there has been no answer on it. -/
def stale : Bool :=
  node.link.any fun link =>
    conf.nodeTimeoutSec < nowSec - link.ctime.tdiv 1000000000 ∧ 0 < node.pingSent ∧
      node.pongReceived < node.pingSent ∧ conf.nodeTimeoutSec.tdiv 2 < nowSec - node.pingSent

/-- `checkOffline` passes over a node. -/
def unchecked : Bool := node.has .myself ∨ node.has .handshake

/-- A node that is neither passed over nor closed, has not answered for too long, and is not
marked yet. -/
def overdue : Bool :=
  ¬ node.unchecked ∧ ¬ node.stale conf nowSec ∧ node.pingSent ≠ 0 ∧ conf.nodeTimeoutSec < nowSec - node.pingSent ∧
    ¬ (node.has .pfail ∨ node.has .fail)

end ClusterNode

namespace ClusterView

/-- The loop of `gossip`: of some drawn nodes, the one that has answered the longest ago. Nothing
when a null pointer is dereferenced or the draws are used up. -/
def minPongNode (view : ClusterView) : Nat → Option Nat → List Draw → Option (Option Nat × List Draw)
  | 0, minPong, draws => some (minPong, draws)
  | i + 1, minPong, draws => do
    let (rdn, draws) ← view.randomNode draws
    let rdn ← rdn
    let node := view.node rdn
    if node.link.isNone = true ∨ node.pingSent ≠ 0 then minPongNode view i minPong draws
    else if node.has .slave = true ∨ node.has .handshake = true then minPongNode view i minPong draws
    else
      match minPong with
      | none => minPongNode view i (some rdn) draws
      | some least =>
        minPongNode view i (if node.pongReceived < (view.node least).pongReceived then some rdn else some least) draws

/-- A node has been sent a ping. -/
def setPingSent (pingSent : Int) (node : ClusterNode) : ClusterNode := { node with pingSent := pingSent }

/-- `gossip`. -/
def gossip (nowSec : Int) (view : ClusterView) (draws : List Draw) : Option ClusterView := do
  let (minPong, draws) ← view.minPongNode 5 none draws
  match minPong with
  | none => some view
  | some id =>
    let oldPingSent := (view.node id).pingSent
    let (view, _) ← (view.change id (setPingSent nowSec)).ping id .ping draws
    if oldPingSent ≠ 0 then some (view.change id (setPingSent oldPingSent)) else some view

/-- The body of the loop of `checkOffline`, with `update_state`. Nodes without a link or in a
handshake are passed over, a stale link is closed, and a node whose ping has not been answered
in time is marked `PFAIL` unless it is marked already. -/
def checkOfflineNode (conf : ClusterConf) (nowSec : Int) (s : ClusterView × Bool) (entry : String × Nat) :
    ClusterView × Bool :=
  let node := s.1.node entry.2
  if node.unchecked = true then s
  else if node.stale conf nowSec = true then (s.1.change entry.2 ClusterNode.close, s.2)
  else if node.pingSent = 0 then s
  else if conf.nodeTimeoutSec < nowSec - node.pingSent then
    if node.has .pfail = true ∨ node.has .fail = true then s
    else (s.1.change entry.2 fun node => node.setFlag .pfail, true)
  else s

/-- `checkOffline`. -/
def checkOffline (conf : ClusterConf) (nowSec : Int) (view : ClusterView) : ClusterView × Bool :=
  view.nodes.entries.foldl (checkOfflineNode conf nowSec) (view, false)

end ClusterView

end Naruto.Cluster

/-- `Cluster`, with the master of the replication. -/
structure Naruto.Cluster where
  view : Naruto.Cluster.ClusterView
  iteration : Int
  masterHost : String
  masterPort : Int

namespace Naruto.Cluster

open Naruto.Theory

/-- `checkReplica`. Nothing when `myself` is null. A slave without a master in its replication
is sent to the one of its own node. -/
def checkReplica (c : Cluster) : Option Cluster := do
  let myself ← c.view.myself
  let node := c.view.node myself
  match node.slaveof with
  | some master =>
    if node.has .slave = true ∧ c.masterHost = "" ∧ node.addr ≠ "" then
      some { c with masterHost := (c.view.node master).ip, masterPort := (c.view.node master).port }
    else some c
  | none => some c

/-- The view that `checkOffline` finds in a tick. -/
def prepare (conf : ClusterConf) (c : Cluster) (check : LinkCheck) : Option ClusterView := do
  let (view, draws) ← c.view.checkLink conf.handshakeTimeoutMs check
  if (c.iteration + 1).tmod 10 = 0 then view.gossip check.nowSec draws else some view

/-- The end of `onClusterCron`. -/
def finish (conf : ClusterConf) (c : Cluster) (updateState : Bool) (check : LinkCheck) : Option Cluster :=
  if updateState = true ∧ c.view.state = .fail then
    (c.view.updateView conf.writableDelayMs check.nowMs).map fun view => { c with view := view }
  else some c

/-- `onClusterCron`. Nothing when a tick does not end. -/
def onClusterCron (conf : ClusterConf) (c : Cluster) (check : LinkCheck) : Option Cluster := do
  let iteration ← increment c.iteration
  let view ← c.prepare conf check
  let (view, updateState) := view.checkOffline conf check.nowSec
  let c ← { c with view := view, iteration := iteration }.checkReplica
  c.finish conf updateState check

/-- A tick of the cron, or anything else that changes the view. -/
inductive ClusterEvent
  | cron (check : LinkCheck)
  | changes (view : ClusterView)

/-- One of them. -/
def step (conf : ClusterConf) (c : Cluster) : ClusterEvent → Option Cluster
  | .cron check => c.onClusterCron conf check
  | .changes view => some { c with view := view }

/-- A tick, past the write protection, whose `checkOffline` reports a change or that begins with a
cluster that is down leaves the state that the tables tell. -/
def Decided (conf : ClusterConf) (c : Cluster) (event : ClusterEvent) (c' : Cluster) : Prop :=
  ∀ check prepared, event = .cron check → c.prepare conf check = some prepared →
    prepared.Past conf.writableDelayMs check.nowMs →
      (prepared.checkOffline conf check.nowSec).2 = true ∨ c.view.state = .fail →
        (c'.view.state = .fail ↔ c'.view.Down)

namespace ClusterView

/-- Some node is overdue. -/
def SomeOverdue (conf : ClusterConf) (nowSec : Int) (view : ClusterView) : Prop :=
  ∃ entry ∈ view.nodes.entries, (view.node entry.2).overdue conf nowSec = true

/-- What earlier calls have left in `size` does not matter. -/
def QuorumKept (view : ClusterView) : Prop :=
  view.Broken ∨
    ((view.size + view.masters).tdiv 2 + 1 ≤ view.failedMasters ↔ view.masters / 2 + 1 ≤ view.failedMasters)

end ClusterView

/-- When a tick does so: either some node is overdue and the cluster is down, and what is left in
`size` does not matter; or the state is already what the tables tell. -/
def Decides (conf : ClusterConf) (c : Cluster) (event : ClusterEvent) : Prop :=
  ∀ check prepared, event = .cron check → c.prepare conf check = some prepared →
    prepared.Past conf.writableDelayMs check.nowMs →
      prepared.SomeOverdue conf check.nowSec ∨ c.view.state = .fail →
        (prepared.SomeOverdue conf check.nowSec ∧ c.view.state = .fail ∧ prepared.QuorumKept) ∨
          (¬ (prepared.SomeOverdue conf check.nowSec ∧ c.view.state = .fail) ∧
            (c.view.state = .fail ↔ prepared.Down))

namespace ClusterView

variable {view view' view'' : ClusterView} {conf : ClusterConf} {nowSec : Int}

/-- Two views tell the same to `updateView`. They may differ in links, times and the marks of
nodes that may have failed. -/
structure Alike (view view' : ClusterView) : Prop where
  nodes : view'.nodes = view.nodes
  slots : view'.slots = view.slots
  myself : view'.myself = view.myself
  state : view'.state = view.state
  size : view'.size = view.size
  firstCallTimeMs : view'.firstCallTimeMs = view.firstCallTimeMs
  fail : ∀ id, (view'.node id).has .fail = (view.node id).has .fail
  master : ∀ id, (view'.node id).has .master = (view.node id).has .master
  numslots : ∀ id, (view'.node id).numslots = (view.node id).numslots

namespace Alike

/-- Every view is alike itself: a function that returns early has changed nothing that counts. -/
theorem refl (view : ClusterView) : Alike view view :=
  ⟨rfl, rfl, rfl, rfl, rfl, rfl, fun _ => rfl, fun _ => rfl, fun _ => rfl⟩

/-- Likeness passes along: it need be shown for one node of a loop at a time. -/
theorem trans (first : Alike view view') (second : Alike view' view'') : Alike view view'' :=
  ⟨second.nodes.trans first.nodes, second.slots.trans first.slots, second.myself.trans first.myself,
    second.state.trans first.state, second.size.trans first.size, second.firstCallTimeMs.trans first.firstCallTimeMs,
    fun id => (second.fail id).trans (first.fail id), fun id => (second.master id).trans (first.master id),
    fun id => (second.numslots id).trans (first.numslots id)⟩

/-- A change of a node that leaves its role and its slots alone. -/
theorem change (id : Nat) {f : ClusterNode → ClusterNode}
    (fail : (f (view.node id)).has .fail = (view.node id).has .fail)
    (master : (f (view.node id)).has .master = (view.node id).has .master)
    (numslots : (f (view.node id)).numslots = (view.node id).numslots) : Alike view (view.change id f) :=
  ⟨rfl, rfl, rfl, rfl, rfl, rfl, fun other => view.change_same id other (fun node => node.has .fail) fail,
    fun other => view.change_same id other (fun node => node.has .master) master,
    fun other => view.change_same id other ClusterNode.numslots numslots⟩

variable (alike : Alike view view')

include alike

/-- What decides whether a node counts is the same in views that are alike. -/
theorem counts (entry : String × Nat) : view'.counts entry = view.counts entry := by
  rw [ClusterView.counts, ClusterView.counts, alike.master, alike.numslots]

/-- So as many masters are counted, -/
theorem masters : view'.masters = view.masters := by
  have same : view'.counts = view.counts := funext alike.counts
  rw [ClusterView.masters, ClusterView.masters, alike.nodes, same]

/-- and as many of them have failed. -/
theorem failedMasters : view'.failedMasters = view.failedMasters := by
  have same : view'.countsFailed = view.countsFailed := funext fun entry => by
    rw [countsFailed, countsFailed, alike.counts, alike.fail]
  rw [ClusterView.failedMasters, ClusterView.failedMasters, alike.nodes, same]

/-- The search for a slot without a working master comes out the same, -/
theorem broken : view'.Broken ↔ view.Broken := by
  have same : ∀ slot, view'.brokenSlot slot = view.brokenSlot slot := fun slot => by
    rw [brokenSlot, brokenSlot, alike.slots]
    cases view.slots slot with
    | none => rfl
    | some id => exact alike.fail id
  simp only [Broken, same]

/-- and with it whether the cluster is down, -/
theorem down : view'.Down ↔ view.Down := by
  rw [Down, Down, alike.broken, alike.masters, alike.failedMasters]

/-- whether the quorum is kept, -/
theorem quorumKept : view'.QuorumKept ↔ view.QuorumKept := by
  rw [QuorumKept, QuorumKept, alike.broken, alike.masters, alike.failedMasters, alike.size]

/-- and whether the delays of `updateView` are over. -/
theorem past {delayMs nowMs : Int} (past : view.Past delayMs nowMs) : view'.Past delayMs nowMs := by
  intro myself pointer master
  rw [alike.myself] at pointer
  rw [alike.master] at master
  have first : view'.firstCall nowMs = view.firstCall nowMs := by
    rw [firstCall, firstCall, alike.firstCallTimeMs]
  rw [first]
  exact past myself pointer master

end Alike

/-- What a pass of `checkOffline` does: nothing, or it closes a node, or it marks one that is overdue
and reports it. -/
theorem checkOfflineNode_cases (s : ClusterView × Bool) (entry : String × Nat) :
    ((s.1.node entry.2).overdue conf nowSec = false ∧
      (checkOfflineNode conf nowSec s entry = s ∨
        checkOfflineNode conf nowSec s entry = (s.1.change entry.2 ClusterNode.close, s.2))) ∨
      ((s.1.node entry.2).overdue conf nowSec = true ∧
        checkOfflineNode conf nowSec s entry = (s.1.change entry.2 fun node => node.setFlag .pfail, true)) := by
  unfold checkOfflineNode ClusterNode.overdue
  dsimp only
  split
  · simp_all
  split
  · simp_all
  split
  · simp_all
  split
  · split
    · simp_all
    · simp_all
  · simp_all

/-- It changes nothing of what `updateView` reads. -/
theorem checkOfflineNode_alike (s : ClusterView × Bool) (entry : String × Nat) :
    Alike s.1 (checkOfflineNode conf nowSec s entry).1 := by
  rcases @checkOfflineNode_cases conf nowSec s entry with ⟨_, same | same⟩ | ⟨_, same⟩
  · rw [same]
    exact .refl s.1
  · rw [same]
    exact .change entry.2 rfl rfl rfl
  · have fail : Flag.pfail ≠ .fail := by decide
    have master : Flag.pfail ≠ .master := by decide
    rw [same]
    exact @Alike.change s.1 entry.2 (fun node => node.setFlag .pfail) (ClusterNode.has_setFlag _ fail)
      (ClusterNode.has_setFlag _ master) rfl

/-- It touches no other node. -/
theorem checkOfflineNode_node (s : ClusterView × Bool) (entry : String × Nat) {other : Nat} (elsewhere : other ≠ entry.2) :
    (checkOfflineNode conf nowSec s entry).1.node other = s.1.node other := by
  rcases @checkOfflineNode_cases conf nowSec s entry with ⟨_, same | same⟩ | ⟨_, same⟩
  · rw [same]
  · rw [same, change_node, if_neg elsewhere]
  · rw [same, change_node, if_neg elsewhere]

/-- It reports a node that is overdue. -/
theorem checkOfflineNode_reports (s : ClusterView × Bool) (entry : String × Nat) :
    (checkOfflineNode conf nowSec s entry).2 = (s.2 || (s.1.node entry.2).overdue conf nowSec) := by
  rcases @checkOfflineNode_cases conf nowSec s entry with ⟨overdue, same | same⟩ | ⟨overdue, same⟩
  · simp [same, overdue]
  · simp [same, overdue]
  · simp [same, overdue]

/-- `checkOffline` leaves alike: it marks nodes, and what it marks is not what counts. -/
theorem checkOffline_alike (view : ClusterView) : Alike view (view.checkOffline conf nowSec).1 := by
  have loop : ∀ (entries : List (String × Nat)) (s : ClusterView × Bool),
      Alike s.1 (entries.foldl (checkOfflineNode conf nowSec) s).1 := by
    intro entries
    induction entries with
    | nil => exact fun s => .refl s.1
    | cons entry entries ih => exact fun s => (checkOfflineNode_alike s entry).trans (ih _)
  exact loop view.nodes.entries (view, false)

/-- `checkOffline` reports a change exactly when a node is overdue. By induction on the nodes: a pass
touches none of those behind it. -/
theorem checkOffline_reports (view : ClusterView) :
    (view.checkOffline conf nowSec).2 = true ↔ view.SomeOverdue conf nowSec := by
  have loop : ∀ (entries : List (String × Nat)) (s : ClusterView × Bool), (entries.map Prod.snd).Nodup →
      ((entries.foldl (checkOfflineNode conf nowSec) s).2 = true ↔
        s.2 = true ∨ ∃ entry ∈ entries, (s.1.node entry.2).overdue conf nowSec = true) := by
    intro entries
    induction entries with
    | nil => simp
    | cons entry entries ih =>
      intro s nodup
      rw [List.map_cons, List.nodup_cons] at nodup
      have behind : ∀ other ∈ entries, (checkOfflineNode conf nowSec s entry).1.node other.2 = s.1.node other.2 :=
        fun other member => checkOfflineNode_node s entry fun same =>
          nodup.1 (same ▸ List.mem_map_of_mem member)
      rw [List.foldl_cons, ih _ nodup.2, checkOfflineNode_reports, Bool.or_eq_true, or_assoc, List.exists_mem_cons_iff]
      refine or_congr Iff.rfl (or_congr Iff.rfl (exists_congr fun other => and_congr_right fun member => ?_))
      rw [behind other member]
  rw [checkOffline, loop view.nodes.entries (view, false) view.nodes.ids]
  simp [SomeOverdue]

/-- `ping` leaves the state alone. -/
theorem ping_state {id : Nat} {type : GossipType} {draws rest : List Draw}
    (pinged : view.ping id type draws = some (view', rest)) : view'.state = view.state := by
  obtain ⟨message, rfl⟩ := ping_some pinged
  rfl

/-- So does `checkLink`. -/
theorem checkLink_state {handshakeTimeoutMs : Int} {check : LinkCheck} {draws : List Draw}
    (checked : view.checkLink handshakeTimeoutMs check = some (view', draws)) : view'.state = view.state := by
  refine run_preserves (fun s : ClusterView × List Draw => s.1.state = view.state) ?_ _ _ _ rfl checked
  intro s entry s' before passed
  rcases checkLinkNode_some passed with same | ⟨key, same⟩ | ⟨message, same⟩
  · rw [same]
    exact before
  · rw [same]
    exact before
  · rw [same]
    exact before

/-- So does `gossip`. It sends one `PING` at most, and notes its time. -/
theorem gossip_state {draws : List Draw} (gossiped : view.gossip nowSec draws = some view') :
    view'.state = view.state := by
  obtain ⟨⟨minPong, draws'⟩, _, gossiped⟩ := Option.bind_eq_some_iff.mp gossiped
  cases minPong with
  | none =>
    obtain rfl := Option.some.inj gossiped
    rfl
  | some id =>
    obtain ⟨⟨pinged, rest⟩, sent, last⟩ := Option.bind_eq_some_iff.mp gossiped
    have same := ping_state sent
    dsimp only at last
    split at last
    · obtain rfl := Option.some.inj last
      exact same
    · obtain rfl := Option.some.inj last
      exact same

end ClusterView

variable {conf : ClusterConf} {c c' : Cluster} {check : LinkCheck} {prepared : ClusterView}

/-- A tick begins with the state of the cluster. -/
theorem prepare_state (done : c.prepare conf check = some prepared) : prepared.state = c.view.state := by
  obtain ⟨⟨linked, draws⟩, checked, done⟩ := Option.bind_eq_some_iff.mp done
  have same := ClusterView.checkLink_state checked
  dsimp only at done
  split at done
  · exact (ClusterView.gossip_state done).trans same
  · obtain rfl := Option.some.inj done
    exact same

/-- `checkReplica` leaves the view alone. -/
theorem checkReplica_view (checked : c.checkReplica = some c') : c'.view = c.view := by
  obtain ⟨myself, _, checked⟩ := Option.bind_eq_some_iff.mp checked
  dsimp only at checked
  split at checked
  · split at checked
    · obtain rfl := Option.some.inj checked
      rfl
    · obtain rfl := Option.some.inj checked
      rfl
  · obtain rfl := Option.some.inj checked
    rfl

/-- The view behind a tick: that of `checkOffline`, or that of `updateView` on it. The steps
between them leave the view and its state alone. -/
theorem onClusterCron_view (done : c.prepare conf check = some prepared)
    (ticked : c.onClusterCron conf check = some c') :
    if (prepared.checkOffline conf check.nowSec).2 = true ∧ prepared.state = .fail then
      (prepared.checkOffline conf check.nowSec).1.updateView conf.writableDelayMs check.nowMs = some c'.view
    else c'.view = (prepared.checkOffline conf check.nowSec).1 := by
  obtain ⟨iteration, _, ticked⟩ := Option.bind_eq_some_iff.mp ticked
  obtain ⟨prepared', done', ticked⟩ := Option.bind_eq_some_iff.mp ticked
  obtain rfl := Option.some.inj (done.symm.trans done')
  obtain ⟨replica, checked, ticked⟩ := Option.bind_eq_some_iff.mp ticked
  have view : replica.view = (prepared.checkOffline conf check.nowSec).1 := checkReplica_view checked
  have state : replica.view.state = prepared.state := by
    rw [view]
    exact (ClusterView.checkOffline_alike prepared).state
  rw [finish, state] at ticked
  split at ticked
  · obtain ⟨updated, called, rfl⟩ := Option.map_eq_some_iff.mp ticked
    rw [if_pos ‹_›, ← view]
    exact called
  · obtain rfl := Option.some.inj ticked
    rw [if_neg ‹_›, view]

/-- A tick leaves a cluster up that is up. -/
theorem onClusterCron_ok (ticked : c.onClusterCron conf check = some c') (up : c.view.state = .ok) :
    c'.view.state = .ok := by
  obtain ⟨iteration, _, rest⟩ := Option.bind_eq_some_iff.mp ticked
  obtain ⟨prepared, done, _⟩ := Option.bind_eq_some_iff.mp rest
  have state : prepared.state = .ok := (prepare_state done).trans up
  have view := onClusterCron_view done ticked
  rw [if_neg (by simp [state])] at view
  rw [view, (ClusterView.checkOffline_alike prepared).state, state]

/-- So do all ticks, whatever they find. -/
theorem crons_stay_up {checks : List LinkCheck} (up : c.view.state = .ok)
    (ran : run (onClusterCron conf) c checks = some c') : c'.view.state = .ok :=
  run_preserves (fun c : Cluster => c.view.state = .ok) (fun _ _ _ up ticked => onClusterCron_ok ticked up) _ _ _ up ran

/-- What a call of `updateView` decides, and what the tables tell. -/
theorem updateView_down {view view' : ClusterView} {delayMs nowMs : Int} (past : view.Past delayMs nowMs)
    (updated : view.updateView delayMs nowMs = some view') :
    (view'.state = .fail ↔ view'.Down) ↔ view.QuorumKept := by
  obtain ⟨state, rfl, decided, _⟩ := ClusterView.updateView_some past updated
  have down : ClusterView.Down { view with
      firstCallTimeMs := view.firstCall nowMs, size := view.size + view.masters, state := state } ↔ view.Down := Iff.rfl
  rw [down, ClusterView.Down, ClusterView.QuorumKept, decided]
  by_cases broken : view.Broken
  · simp [broken]
  · simp [broken]

/-- A step decides as it should exactly when it may. The two cases are whether the tick calls
`updateView`: when it does, the count decides; when it does not, the state stays and must have
been right before. -/
theorem decided_iff (event : ClusterEvent) :
    (∀ c', step conf c event = some c' → Decided conf c event c') ↔
      ∀ c', step conf c event = some c' → Decides conf c event := by
  refine forall_congr' fun c' => imp_congr_right fun stepped => ?_
  rw [Decided, Decides]
  refine forall_congr' fun check => forall_congr' fun prepared => imp_congr_right fun same =>
    imp_congr_right fun done => imp_congr_right fun past => ?_
  subst same
  have view := onClusterCron_view done stepped
  have alike : ClusterView.Alike prepared (prepared.checkOffline conf check.nowSec).1 :=
    ClusterView.checkOffline_alike prepared
  have state := prepare_state done
  rw [ClusterView.checkOffline_reports]
  refine imp_congr_right fun relevant => ?_
  split at view
  · -- `updateView` is called
    rename_i both
    rw [ClusterView.checkOffline_reports, state] at both
    have decided := updateView_down (alike.past past) view
    rw [alike.quorumKept] at decided
    rw [decided]
    constructor
    · exact fun kept => Or.inl ⟨both.1, both.2, kept⟩
    · rintro (⟨_, _, kept⟩ | ⟨other, _⟩)
      · exact kept
      · exact absurd both other
  · -- the state stays as it was
    rename_i other
    rw [ClusterView.checkOffline_reports, state] at other
    rw [view, alike.state, state, alike.down]
    constructor
    · exact fun told => Or.inr ⟨other, told⟩
    · rintro (⟨overdue, fails, _⟩ | ⟨_, told⟩)
      · exact absurd ⟨overdue, fails⟩ other
      · exact told

/-- In every run of ticks and other changes, the ticks that end decide as they should exactly
when they may.

Proof: a tick calls `updateView` only behind a check that marks a node while the state is
`FAIL` already. What it marks is not what `updateView` counts, so the view that is counted is
alike the one before the tick; the ticks that may decide are read off it, and the two
conditions agree step by step. -/
theorem run_decided_iff (conf : ClusterConf) (c : Cluster) (events : List ClusterEvent) :
    Along (step conf) (fun c event => ∀ c', step conf c event = some c' → Decided conf c event c') c events ↔
      Along (step conf) (fun c event => ∀ c', step conf c event = some c' → Decides conf c event) c events :=
  Along.congr_of_invariant (fun _ => True) (fun _ _ _ _ _ => trivial) (fun _ event _ => decided_iff event) c events
    trivial

/-- A cluster without slots that is up, and knows a node that has not answered for 99 seconds. -/
def unanswered : Cluster where
  view := {
    node := fun id =>
      if id = 0 then ClusterNode.new "10.0.0.1" 7290 17#32 0
      else { ClusterNode.new "10.0.0.2" 7290 1#32 0 with
        pingSent := 1, link := some ⟨"10.0.0.2", 7290, 95000000000, []⟩ }
    nodes := ⟨[("10.0.0.2:7290", 1)], List.nodup_singleton _, List.nodup_singleton _⟩
    slots := fun _ => none
    myself := some 0
    currentEpoch := 0#64
    state := .ok
    size := 0
    firstCallTimeMs := 1 }
  iteration := 0
  masterHost := ""
  masterPort := 0

/-- It stays up. -/
theorem not_decided : ¬ ∀ (conf : ClusterConf) (c : Cluster) (events : List ClusterEvent),
    Along (step conf) (fun c event => ∀ c', step conf c event = some c' → Decided conf c event c') c events := by
  intro all
  have decided := (all ⟨10, 200, 2000⟩ unanswered [.cron ⟨100000000000, fun _ => true, []⟩]).1 _ rfl _ _ rfl rfl
  have past : (2000 : Int) ≤ 100000 - 1 := by decide
  have told := decided (fun _ _ _ => past) (Or.inl rfl)
  have failed := told.mpr (Or.inl ⟨⟨0, by decide⟩, rfl⟩)
  cases failed

end Naruto.Cluster
