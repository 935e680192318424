import Naruto.Cluster.Ping
import Naruto.Theory.Runs

/-!
# Meeting nodes

`MEET` puts a node into the table, under the address of its ip and its port, and the next
`checkLink` connects to it. The constructor of the node, however, sets its port to zero when it has
formed the address: the node is stored under an address that is not its own, and `checkLink`
connects to port zero.

`checkLink` erases a node whose handshake takes too long while it iterates over the table. When the
node lies under its own `addr`, the iterator is no longer valid then.
-/

namespace Naruto.Cluster

open Naruto.Theory

/-- `command_reply`. -/
structure CommandReply where
  errcode : Int
  errmsg : String
deriving DecidableEq, Repr

/-- `clusterLink(opts)`. -/
def ClusterLink.new (host : String) (port : Int) (connected : Bool) (now : Int) : ClusterLink :=
  ⟨host, port, if connected = true then now else 0, []⟩

/-- What a call of `checkLink` finds: the time in nanoseconds, whether the connect for the node of a
key succeeds, and the draws of its pings. -/
structure LinkCheck where
  now : Int
  connects : String → Bool
  draws : List Draw

namespace ClusterView

/-- `CommandMeet::exec` of a node that is created in a place of the heap. Nothing when it is the
place of a node of the table. -/
def meet (view : ClusterView) (ip : String) (port now : Int) (id : Nat) : Option (ClusterView × CommandReply) :=
  if ip = "" ∨ port ≤ 0 then some (view, ⟨1, "parameter not illegal"⟩)
  else
    let node := ClusterNode.new ip port (Flag.handshake.bit ||| Flag.meet.bit) now
    if found : view.nodes.find? node.addr = none then
      if newId : id ∉ view.nodes.entries.map Prod.snd then
        let nodes := view.nodes.emplace node.addr id (NodeTable.find?_none.mp found) newId
        some ({ view with node := Function.update view.node id node, nodes := nodes }, ⟨0, ""⟩)
      else none
    else some (view, ⟨1, "node has been in meet"⟩)

/-- The connection that `checkLink` opens for a node. -/
def connectNode (now : Int) (connected : Bool) (node : ClusterNode) : ClusterNode :=
  { node with link := some (ClusterLink.new node.ip node.port connected now) }

/-- The body of the loop of `checkLink`, which goes on with the nodes that have not been erased.
Nothing when a node is erased that the iterator stands on. -/
def checkLinkNode (handshakeTimeoutMs now : Int) (connects : String → Bool) (s : ClusterView × List Draw)
    (entry : String × Nat) : Option (ClusterView × List Draw) :=
  let (view, draws) := s
  let node := view.node entry.2
  if entry ∉ view.nodes.entries then some (view, draws)
  else if node.has .myself = true then some (view, draws)
  else if node.has .handshake = true ∧ handshakeTimeoutMs < (now - node.ctime).tdiv 1000000 then
    if node.addr = entry.1 then none else some ({ view with nodes := view.nodes.erase node.addr }, draws)
  else if node.link.isSome = true then some (view, draws)
  else
    ((view.change entry.2 (connectNode now (connects entry.1))).ping entry.2 .meet draws).map fun (view, draws) =>
      (view.change entry.2 fun node => node.delFlag .meet, draws)

/-- `checkLink`. -/
def checkLink (handshakeTimeoutMs : Int) (view : ClusterView) (check : LinkCheck) :
    Option (ClusterView × List Draw) :=
  run (checkLinkNode handshakeTimeoutMs check.now check.connects) (view, check.draws) view.nodes.entries

end ClusterView

/-- A command of a client, or a call of `checkLink`. -/
inductive MeetEvent
  | meet (ip : String) (port now : Int) (id : Nat)
  | checkLink (check : LinkCheck)

namespace ClusterView

/-- One of them. -/
def serve (handshakeTimeoutMs : Int) (view : ClusterView) : MeetEvent → Option ClusterView
  | .meet ip port now id => (view.meet ip port now id).map Prod.fst
  | .checkLink check => (view.checkLink handshakeTimeoutMs check).map Prod.fst

/-- Every node lies under the address of its own ip and port, and has been connected to there. -/
def Addressed (view : ClusterView) : Prop :=
  ∀ entry ∈ view.nodes.entries, entry.1 = ClusterNode.address (view.node entry.2).ip (view.node entry.2).port ∧
    ∀ link, (view.node entry.2).link = some link → entry.1 = ClusterNode.address link.host link.port

/-- The command gives an ip and a port whose address is not in the table. -/
def Accepts (view : ClusterView) (ip : String) (port : Int) : Prop :=
  ip ≠ "" ∧ 0 < port ∧ ClusterNode.address ip port ∉ view.nodes.entries.map Prod.fst

/-- What should be true of a step: a command that is accepted adds one node under its address, any
other one is rejected and changes nothing, and the nodes are addressed behind it. -/
structure Meets (view : ClusterView) (event : MeetEvent) (view' : ClusterView) : Prop where
  accepted : ∀ ip port now id reply, event = .meet ip port now id → view.meet ip port now id = some (view', reply) →
    reply.errcode = 0 → view'.nodes.entries = view.nodes.entries ++ [(ClusterNode.address ip port, id)]
  repeated : ∀ ip port now id reply, event = .meet ip port now id → view.meet ip port now id = some (view', reply) →
    ClusterNode.address ip port ∈ view.nodes.entries.map Prod.fst → reply.errcode ≠ 0 ∧ view' = view
  addressed : view'.Addressed

variable {view view' : ClusterView} {handshakeTimeoutMs : Int}

/-- A command is accepted or rejected. An illegal address and one that is in the table are
answered with an error and change nothing. -/
theorem meet_some {ip : String} {port now : Int} {id : Nat} {reply : CommandReply}
    (met : view.meet ip port now id = some (view', reply)) :
    (reply.errcode = 0 ∧ view.Accepts ip port ∧
      view'.node = Function.update view.node id (ClusterNode.new ip port (Flag.handshake.bit ||| Flag.meet.bit) now) ∧
      view'.nodes.entries = view.nodes.entries ++ [(ClusterNode.address ip port, id)]) ∨
    (reply.errcode ≠ 0 ∧ ¬ view.Accepts ip port ∧ view' = view) := by
  rw [meet] at met
  split at met
  · rename_i illegal
    cases met
    refine Or.inr ⟨by decide, fun accepts => ?_, rfl⟩
    rcases illegal with empty | low
    · exact accepts.1 empty
    · have := accepts.2.1
      omega
  · rename_i legal
    obtain ⟨given, positive⟩ := not_or.mp legal
    dsimp only at met
    split at met
    · rename_i found
      split at met
      · cases met
        exact Or.inl ⟨rfl, ⟨given, Int.not_le.mp positive, NodeTable.find?_none.mp found⟩, rfl, rfl⟩
      · cases met
    · rename_i found
      cases met
      exact Or.inr ⟨by decide, fun accepts => found (NodeTable.find?_none.mpr accepts.2.2), rfl⟩

/-- `ping` changes the node by a message. -/
theorem ping_some {id : Nat} {type : GossipType} {draws rest : List Draw}
    (pinged : view.ping id type draws = some (view', rest)) : ∃ message, view' = view.change id (sendMsg message) := by
  obtain ⟨myself, _, pinged⟩ := Option.bind_eq_some_iff.mp pinged
  obtain ⟨⟨gossips, draws'⟩, _, pinged⟩ := Option.bind_eq_some_iff.mp pinged
  obtain ⟨_, same⟩ := Option.ite_none_right_eq_some.mp pinged
  cases same
  exact ⟨_, rfl⟩

/-- The link of a node goes to its own address. -/
def Dials (node : ClusterNode) : Prop :=
  ∀ link, node.link = some link → ClusterNode.address node.ip node.port = ClusterNode.address link.host link.port

/-- A change that leaves a node where it is. The other nodes are not touched, and the new one
keeps its address and where its link goes. -/
theorem Addressed.change (addressed : view.Addressed) {id : Nat} {f : ClusterNode → ClusterNode}
    (ip : (f (view.node id)).ip = (view.node id).ip) (port : (f (view.node id)).port = (view.node id).port)
    (dials : Dials (view.node id) → Dials (f (view.node id))) : (view.change id f).Addressed := by
  intro entry member
  obtain ⟨own, before⟩ := addressed entry member
  rw [change_node]
  split
  · rename_i here
    rw [here] at own before
    have after := dials fun link opened => own.symm.trans (before link opened)
    rw [ip, port]
    refine ⟨own, fun link opened => ?_⟩
    rw [own, ← after link opened, ip, port]
  · exact ⟨own, before⟩

/-- What a pass of `checkLink` does to the view: nothing, or it erases a node, or it connects to one,
sends it a message and deletes its flag. -/
theorem checkLinkNode_some {now : Int} {connects : String → Bool} {s s' : ClusterView × List Draw}
    {entry : String × Nat} (checked : checkLinkNode handshakeTimeoutMs now connects s entry = some s') :
    s'.1 = s.1 ∨ (∃ key, s'.1 = { s.1 with nodes := s.1.nodes.erase key }) ∨
      ∃ message, s'.1 = ((s.1.change entry.2 (connectNode now (connects entry.1))).change entry.2
        (sendMsg message)).change entry.2 fun node => node.delFlag .meet := by
  unfold checkLinkNode at checked
  dsimp only at checked
  split at checked
  · cases checked
    exact Or.inl rfl
  split at checked
  · cases checked
    exact Or.inl rfl
  split at checked
  · obtain ⟨_, same⟩ := Option.ite_none_left_eq_some.mp checked
    cases same
    exact Or.inr (Or.inl ⟨_, rfl⟩)
  split at checked
  · cases checked
    exact Or.inl rfl
  · obtain ⟨⟨pinged, rest⟩, sent, same⟩ := Option.map_eq_some_iff.mp checked
    cases same
    obtain ⟨message, rfl⟩ := ping_some sent
    exact Or.inr (Or.inr ⟨message, rfl⟩)

/-- A pass of `checkLink` leaves the nodes addressed. It does nothing, drops a node, or connects
one to its own address and sends on the link. -/
theorem Addressed.checkLinkNode {now : Int} {connects : String → Bool} {s s' : ClusterView × List Draw}
    {entry : String × Nat} (addressed : s.1.Addressed)
    (checked : checkLinkNode handshakeTimeoutMs now connects s entry = some s') : s'.1.Addressed := by
  rcases checkLinkNode_some checked with same | ⟨key, same⟩ | ⟨message, same⟩
  · rw [same]
    exact addressed
  · rw [same]
    exact fun entry member => addressed entry (List.mem_of_mem_filter member)
  · -- the new link goes to the address of the node
    have connected : (s.1.change entry.2 (connectNode now (connects entry.1))).Addressed := by
      refine addressed.change rfl rfl fun _ link opened => ?_
      obtain rfl := Option.some.inj opened
      rfl
    have told : ((s.1.change entry.2 (connectNode now (connects entry.1))).change entry.2 (sendMsg message)).Addressed := by
      refine connected.change rfl rfl fun dials link opened => ?_
      obtain ⟨old, was, rfl⟩ := Option.map_eq_some_iff.mp opened
      exact dials old was
    rw [same]
    exact told.change rfl rfl fun dials => dials

/-- So does all of it. By induction on the nodes. -/
theorem Addressed.checkLink (addressed : view.Addressed) {check : LinkCheck} {draws : List Draw}
    (checked : view.checkLink handshakeTimeoutMs check = some (view', draws)) : view'.Addressed :=
  run_preserves (fun s : ClusterView × List Draw => s.1.Addressed)
    (fun _ _ _ addressed passed => addressed.checkLinkNode passed) _ _ _ addressed checked

/-- Port zero has another address. -/
theorem address_zero {ip : String} {port : Int} (positive : 0 < port)
    (same : ClusterNode.address ip port = ClusterNode.address ip 0) : False := by
  obtain ⟨n, rfl⟩ := Int.eq_ofNat_of_zero_le (Int.le_of_lt positive)
  have names := congrArg String.toList same
  simp only [ClusterNode.address, String.toList_append] at names
  have digits := List.append_cancel_left names
  have number : (toString (n : Int)).toList = Nat.toDigits 10 n := Nat.toList_repr
  have zero : (toString (0 : Int)).toList = Nat.toDigits 10 0 := Nat.toList_repr
  rw [number, zero] at digits
  have value : Nat.ofDigitChars 10 (Nat.toDigits 10 n) 0 = n := Nat.ofDigitChars_ten_toDigits
  rw [digits, Nat.ofDigitChars_ten_toDigits] at value
  omega

/-- A step does what it should exactly when it accepts no command. An accepted command breaks
the addresses by its node's port; a refused one and a link check keep what is to be kept. -/
theorem meets_iff (addressed : view.Addressed) (event : MeetEvent) :
    (∀ view', view.serve handshakeTimeoutMs event = some view' → view.Meets event view') ↔
      ∀ view', view.serve handshakeTimeoutMs event = some view' →
        ∀ ip port now id, event = .meet ip port now id → ¬ view.Accepts ip port := by
  constructor
  · rintro meets _ served ip port now id rfl accepts
    obtain ⟨⟨view', reply⟩, met, rfl⟩ := Option.map_eq_some_iff.mp served
    rcases meet_some met with ⟨_, _, node, entries⟩ | ⟨_, rejects, _⟩
    · have member : (ClusterNode.address ip port, id) ∈ view'.nodes.entries := by
        rw [entries]
        exact List.mem_append_right _ List.mem_cons_self
      obtain ⟨own, _⟩ := (meets view' served).addressed _ member
      rw [node, Function.update_self] at own
      exact address_zero accepts.2.1 own
    · exact rejects accepts
  · intro rejects view' served
    cases event with
    | meet ip port now id =>
      obtain ⟨⟨_, reply⟩, met, rfl⟩ := Option.map_eq_some_iff.mp served
      rcases meet_some met with ⟨_, accepts, _, _⟩ | ⟨failed, _, rfl⟩
      · exact absurd accepts (rejects _ served ip port now id rfl)
      · refine ⟨?_, ?_, addressed⟩
        · intro ip' port' now' id' reply' same met' worked
          cases same
          cases met.symm.trans met'
          exact absurd worked failed
        · intro ip' port' now' id' reply' same met' _
          cases same
          cases met.symm.trans met'
          exact ⟨failed, rfl⟩
    | checkLink check =>
      obtain ⟨⟨_, draws⟩, checked, rfl⟩ := Option.map_eq_some_iff.mp served
      refine ⟨?_, ?_, addressed.checkLink checked⟩
      · intro ip port now id reply impossible
        cases impossible
      · intro ip port now id reply impossible
        cases impossible

/-- In a run of commands and link checks on nodes that are addressed, all steps do what they
should exactly when none of them accepts a command.

Proof: the constructor of a node sets its port to zero behind the address, so the node of an
accepted command lies under an address that its own port does not give. A command that is
refused changes nothing, and a link check connects a node to where it lies; so as long as none
is accepted the nodes stay addressed. -/
theorem run_meets_iff (handshakeTimeoutMs : Int) (view : ClusterView) (events : List MeetEvent)
    (addressed : view.Addressed) :
    Along (serve handshakeTimeoutMs)
        (fun view event => ∀ view', view.serve handshakeTimeoutMs event = some view' → view.Meets event view') view events ↔
      Along (serve handshakeTimeoutMs)
        (fun view event => ∀ view', view.serve handshakeTimeoutMs event = some view' →
          ∀ ip port now id, event = .meet ip port now id → ¬ view.Accepts ip port) view events :=
  Along.congr_while Addressed (fun _ _ view' _ meets served => (meets view' served).addressed)
    (fun _ event addressed => meets_iff addressed event) view events addressed

/-- A view that knows one other node, under its address. -/
def knowsOne : ClusterView where
  node := Function.update (fun _ => ClusterNode.new "127.0.0.1" 7290 1#32 0) 1
    { ClusterNode.new "127.0.0.2" 7291 0#32 0 with port := 7291 }
  nodes := ⟨[(ClusterNode.address "127.0.0.2" 7291, 1)], List.nodup_singleton _, List.nodup_singleton _⟩
  slots := fun _ => none
  myself := some 0
  currentEpoch := 0#64
  state := .ok
  size := 0
  firstCallTimeMs := 0

/-- A command with the address of the node, a link check, and a command without a port. -/
def refused : List MeetEvent :=
  [.meet "127.0.0.2" 7291 5 2, .checkLink ⟨6, fun _ => true, []⟩, .meet "127.0.0.1" 0 7 2]

/-- The node is connected to, and both commands are refused. The address is known to the table,
and the port is not positive. -/
theorem refused_meets :
    (run (serve 200) knowsOne refused).isSome = true ∧
      Along (serve 200)
        (fun view event => ∀ view', view.serve 200 event = some view' → view.Meets event view') knowsOne refused := by
  have addressed : knowsOne.Addressed := by
    intro entry member
    obtain rfl := List.mem_singleton.mp member
    exact ⟨rfl, fun link linked => by cases linked⟩
  refine ⟨by decide +kernel, (run_meets_iff 200 knowsOne refused addressed).mpr ?_⟩
  refine ⟨?_, fun _ _ => ⟨?_, fun _ _ => ⟨?_, fun _ _ => trivial⟩⟩⟩
  · rintro _ _ ip port now id same ⟨_, _, absent⟩
    cases same
    exact absent List.mem_cons_self
  · rintro _ _ ip port now id same
    cases same
  · rintro _ _ ip port now id same ⟨_, positive, _⟩
    cases same
    exact absurd positive (Int.lt_irrefl 0)

/-- A view that knows no nodes but has a place for its own. -/
def knowsNone : ClusterView where
  node := fun _ => ClusterNode.new "127.0.0.1" 7290 1#32 0
  nodes := ⟨[], List.nodup_nil, List.nodup_nil⟩
  slots := fun _ => none
  myself := some 0
  currentEpoch := 0#64
  state := .ok
  size := 0
  firstCallTimeMs := 0

/-- It is addressed, for want of nodes. -/
theorem knowsNone_addressed : knowsNone.Addressed := fun _ member => absurd member List.not_mem_nil

/-- A node that is met lies under an address with its port, and has port zero. -/
theorem not_meets : ¬ ∀ (handshakeTimeoutMs : Int) (view : ClusterView) (events : List MeetEvent), view.Addressed →
    Along (serve handshakeTimeoutMs)
      (fun view event => ∀ view', view.serve handshakeTimeoutMs event = some view' → view.Meets event view') view
      events := by
  intro all
  have meets := (all 200 knowsNone [.meet "127.0.0.1" 7291 0 1] knowsNone_addressed).1
  have accepts : knowsNone.Accepts "127.0.0.1" 7291 := ⟨by decide, by decide, List.not_mem_nil⟩
  exact (meets_iff knowsNone_addressed _).mp meets _ rfl "127.0.0.1" 7291 0 1 rfl accepts

end ClusterView

end Naruto.Cluster
