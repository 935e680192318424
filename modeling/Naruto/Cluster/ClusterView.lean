import Mathlib.Data.List.Nodup
import Mathlib.Logic.Function.Basic

/-!
# The view of the cluster

`clusterView` has a table of the nodes that it knows, under their addresses, and an array that
tells for each slot which node serves it. Both hold shared pointers, so what is done to a node
through one of them is seen through the other: the nodes lie in a heap, and table and array
hold their places in it.
-/

namespace Naruto.Cluster

/-- `CLUSTER_SLOTS`. -/
abbrev clusterSlots : Nat := 16384

/-- `clientLink::flags`. -/
inductive Flag
  | master
  | slave
  | pfail
  | fail
  | myself
  | handshake
  | meet
deriving DecidableEq, Repr

/-- The bit of a flag. -/
def Flag.bit : Flag → BitVec 32
  | .master => 1#32
  | .slave => 2#32
  | .pfail => 4#32
  | .fail => 8#32
  | .myself => 16#32
  | .handshake => 32#32
  | .meet => 64#32

/-- `clusterState`. -/
inductive ClusterState
  | ok
  | fail
deriving DecidableEq, Repr

/-- The types of the messages that `ping` sends. -/
inductive GossipType
  | ping
  | meet
deriving DecidableEq, Repr

/-- `gossip` of the protocol: what is told about another node. It names the node, its times,
its address and its flags. -/
structure Gossip where
  nodeName : String
  pingSent : Int
  pongReceived : Int
  ip : String
  port : Int
  flags : Int
deriving DecidableEq, Repr

/-- `command_header`: what the sender tells about itself. The slots are those of the node that
sends it. -/
structure Header where
  currentEpoch : Int
  configEpoch : Int
  senderName : String
  slaveofName : Option String
  myslots : Fin clusterSlots → Bool
  port : Int
  flags : Int
  state : ClusterState

/-- `command_gossip`, with its type. -/
structure GossipMessage where
  type : GossipType
  header : Header
  gossips : List Gossip

/-- `clusterLink`: where it has been connected to, when (in nanoseconds, zero if the connect has
failed), and the messages that have been put into `wbuf`. -/
structure ClusterLink where
  host : String
  port : Int
  ctime : Int
  sent : List GossipMessage

/-- `clusterNode`. `ctime` is in nanoseconds, `ping_sent` in seconds. A link is there once the
node has been connected to. Pointers to other nodes are their places in the heap. -/
structure ClusterNode where
  addr : String
  ctime : Int
  name : String
  flags : BitVec 32
  configEpoch : BitVec 64
  slots : Fin clusterSlots → Bool
  numslots : Int
  slaveof : Option Nat
  pingSent : Int
  pongReceived : Int
  ip : String
  port : Int
  link : Option ClusterLink

namespace ClusterNode

/-- An address. -/
def address (ip : String) (port : Int) : String := ip ++ ":" ++ toString port

/-- `clusterNode(ip, port, flags)`. It sets the port to zero behind the address. -/
def new (ip : String) (port : Int) (flags : BitVec 32) (now : Int) : ClusterNode where
  addr := address ip port
  ctime := now
  name := ""
  flags := flags
  configEpoch := 0#64
  slots := fun _ => false
  numslots := 0
  slaveof := none
  pingSent := 0
  pongReceived := 0
  ip := ip
  port := 0
  link := none

/-- `isSlave()` and its siblings. -/
def has (node : ClusterNode) (flag : Flag) : Bool := node.flags &&& flag.bit ≠ 0#32

/-- `setFlag`. -/
def setFlag (node : ClusterNode) (flag : Flag) : ClusterNode := { node with flags := node.flags ||| flag.bit }

/-- `delFlag`. -/
def delFlag (node : ClusterNode) (flag : Flag) : ClusterNode := { node with flags := node.flags &&& ~~~flag.bit }

/-- `close()`. -/
def close (node : ClusterNode) : ClusterNode := { node with link := none }

/-- Different flags are different bits. -/
theorem bit_and_bit {flag other : Flag} (different : flag ≠ other) : flag.bit &&& other.bit = 0#32 := by
  cases flag <;> cases other <;> first | exact absurd rfl different | decide

/-- A flag that is set leaves the others alone. -/
theorem has_setFlag (node : ClusterNode) {flag other : Flag} (different : flag ≠ other) :
    (node.setFlag flag).has other = node.has other := by
  rw [has, setFlag, BitVec.and_or_distrib_right, bit_and_bit different, BitVec.or_zero, has]

end ClusterNode

/-- The `unordered_map` of the nodes, as a list in the order of its iteration. No key is twice in
it, and no node. -/
structure NodeTable where
  entries : List (String × Nat)
  keys : (entries.map Prod.fst).Nodup
  ids : (entries.map Prod.snd).Nodup

namespace NodeTable

/-- `find`. -/
def find? (nodes : NodeTable) (key : String) : Option Nat :=
  (nodes.entries.find? fun entry => entry.1 = key).map Prod.snd

/-- `erase`. -/
def erase (nodes : NodeTable) (key : String) : NodeTable where
  entries := nodes.entries.filter fun entry => entry.1 ≠ key
  keys := nodes.keys.sublist (List.filter_sublist.map Prod.fst)
  ids := nodes.ids.sublist (List.filter_sublist.map Prod.snd)

/-- `emplace` of a new key and a new node. -/
def emplace (nodes : NodeTable) (key : String) (id : Nat) (newKey : key ∉ nodes.entries.map Prod.fst)
    (newId : id ∉ nodes.entries.map Prod.snd) : NodeTable where
  entries := nodes.entries ++ [(key, id)]
  keys := by
    rw [List.map_append, List.map_singleton, ← List.concat_eq_append]
    exact nodes.keys.concat newKey
  ids := by
    rw [List.map_append, List.map_singleton, ← List.concat_eq_append]
    exact nodes.ids.concat newId

/-- A key that is not found is new. -/
theorem find?_none {nodes : NodeTable} {key : String} :
    nodes.find? key = none ↔ key ∉ nodes.entries.map Prod.fst := by
  rw [find?, Option.map_eq_none_iff, List.find?_eq_none, List.mem_map]
  constructor
  · rintro none ⟨entry, member, rfl⟩
    exact none entry member (by simp)
  · intro new entry member same
    exact new ⟨entry, member, of_decide_eq_true same⟩

end NodeTable

/-- `clusterView`, with the static variable of `updateView`. The slots that migrate and the fields
of the election are read by none of its functions here. -/
structure ClusterView where
  node : Nat → ClusterNode
  nodes : NodeTable
  slots : Fin clusterSlots → Option Nat
  myself : Option Nat
  currentEpoch : BitVec 64
  state : ClusterState
  size : Int
  firstCallTimeMs : Int

namespace ClusterView

/-- A change of a node. -/
def change (view : ClusterView) (id : Nat) (f : ClusterNode → ClusterNode) : ClusterView :=
  { view with node := Function.update view.node id (f (view.node id)) }

/-- What the change does to a node. -/
theorem change_node (view : ClusterView) (id other : Nat) (f : ClusterNode → ClusterNode) :
    (view.change id f).node other = if other = id then f (view.node id) else view.node other := by
  rw [change]
  by_cases same : other = id
  · rw [if_pos same, same]
    exact Function.update_self id _ _
  · rw [if_neg same]
    exact Function.update_of_ne same _ _

/-- A property of nodes that the change does not touch. -/
theorem change_same {α : Type*} (view : ClusterView) (id other : Nat) {f : ClusterNode → ClusterNode}
    (read : ClusterNode → α) (same : read (f (view.node id)) = read (view.node id)) :
    read ((view.change id f).node other) = read (view.node other) := by
  rw [change_node]
  by_cases here : other = id
  · rw [if_pos here, same, here]
  · rw [if_neg here]

end ClusterView

end Naruto.Cluster
