import Mathlib.Data.Finset.Card
import Naruto.Cluster.ClusterView

/-!
# Gossip

`ping` sends what the sender tells about itself, and what it knows about up to three other nodes.
It draws these with `randomNode`, which draws slots until it meets one that is assigned. A node that
is not to be told about uses up some of the budget, and so does one that is told about; a node that
has been told about already does not. Whether it has been is kept in a variable without an initial
value.

What the loop selects is sound. But it ends only when enough different nodes are drawn.
-/

namespace Naruto.Cluster

/-- A draw of `gen(random)`, and what `hasin` would contain before the loop that sets it. -/
structure Draw where
  slot : Fin clusterSlots
  hasin : Bool
deriving DecidableEq, Repr

/-- The value of an `int32` field. -/
def toInt32 (value : Int) : Int := value.bmod 4294967296

namespace ClusterView

/-- The loop of `randomNode`: the node of the first assigned slot, and the draws behind it. Nothing
when the draws are used up. -/
def drawNode (view : ClusterView) : List Draw → Option (Nat × List Draw)
  | [] => none
  | draw :: draws =>
    match view.slots draw.slot with
    | some other => some (other, draws)
    | none => drawNode view draws

/-- `randomNode`, a null pointer when the table is empty. -/
def randomNode (view : ClusterView) (draws : List Draw) : Option (Option Nat × List Draw) :=
  if view.nodes.entries = [] then some (none, draws)
  else (view.drawNode draws).map fun drawn => (some drawn.1, drawn.2)

/-- What `ping` tells about a node. -/
def gossipOf (view : ClusterView) (other : Nat) : Gossip where
  nodeName := (view.node other).name
  pingSent := toInt32 (view.node other).pingSent
  pongReceived := toInt32 (view.node other).pongReceived
  ip := (view.node other).ip
  port := (view.node other).port
  flags := toInt32 (view.node other).flags.toNat

/-- A node that is not told about: the sender, one in handshake, and one that has neither a link
nor slots. -/
def skips (view : ClusterView) (other : Nat) : Bool :=
  some other = view.myself ∨ (view.node other).has .handshake = true ∨
    (view.node other).link.isNone = true ∧ (view.node other).numslots = 0

/-- The `while` loop of `ping`: what it has selected, and the draws behind. Nothing when the draws
are used up. The table is not empty here, so that `randomNode` goes on past the slots that are not
assigned. -/
def selectGossips (view : ClusterView) (freshnodes : Int) (gossips : List Gossip) :
    List Draw → Option (List Gossip × List Draw)
  | [] => if 0 < freshnodes ∧ gossips.length < 3 then none else some (gossips, [])
  | draw :: draws =>
    if 0 < freshnodes ∧ gossips.length < 3 then
      match view.slots draw.slot with
      | none => selectGossips view freshnodes gossips draws
      | some other =>
        if view.skips other = true then selectGossips view (freshnodes - 1) gossips draws
        else if draw.hasin = true ∨ (view.node other).name ∈ gossips.map Gossip.nodeName then
          selectGossips view freshnodes gossips draws
        else selectGossips view (freshnodes - 1) (gossips ++ [view.gossipOf other]) draws
    else some (gossips, draw :: draws)

/-- The budget of the loop. -/
def freshnodes (view : ClusterView) : Int := view.nodes.entries.length - 2

/-- The header of `ping`. The epoch is that of the master of `myself` when the other node is a
slave, as the source looks it up. -/
def header (view : ClusterView) (node myself : Nat) : Header where
  currentEpoch := view.currentEpoch.toInt
  configEpoch :=
    match (view.node node).has .slave, (view.node myself).slaveof with
    | true, some master => (view.node master).configEpoch.toInt
    | _, _ => (view.node myself).configEpoch.toInt
  senderName := (view.node myself).name
  slaveofName := (view.node myself).slaveof.map fun master => (view.node master).name
  myslots := (view.node myself).slots
  port := (view.node myself).port
  flags := toInt32 (view.node myself).flags.toNat
  state := view.state

/-- `sendMsg`. -/
def sendMsg (message : GossipMessage) (node : ClusterNode) : ClusterNode :=
  { node with link := node.link.map fun link => { link with sent := link.sent ++ [message] } }

/-- `ping`. Nothing when it dereferences a null pointer, or does not end with these draws. -/
def ping (view : ClusterView) (node : Nat) (type : GossipType) (draws : List Draw) :
    Option (ClusterView × List Draw) := do
  let myself ← view.myself
  let (gossips, draws) ← view.selectGossips view.freshnodes [] draws
  if (view.node node).link.isSome = true then
    some (view.change node (sendMsg ⟨type, view.header node myself, gossips⟩), draws)
  else none

/-- A slot that is drawn is that of a node that is not told about. -/
def passes (view : ClusterView) (draw : Draw) : Bool := (view.slots draw.slot).any view.skips

/-- The name that a draw offers: that of a node to be told about, when `hasin` contains zero. -/
def offers (view : ClusterView) (draw : Draw) : Option String :=
  if draw.hasin = true then none
  else ((view.slots draw.slot).filter fun other => !view.skips other).map fun other => (view.node other).name

/-- The different names that some draws offer. -/
def offered (view : ClusterView) (draws : List Draw) : Finset String := (draws.filterMap view.offers).toFinset

/-- The draws are enough to end the loop: there is no budget, three different names have been
offered, or the draws of nodes that are not told about and the names use up the budget. -/
def Enough (view : ClusterView) (draws : List Draw) : Prop :=
  view.freshnodes ≤ 0 ∨ 3 ≤ (view.offered draws).card ∨
    view.freshnodes ≤ (draws.countP view.passes : Int) + ((view.offered draws).card : Int)

/-- A sound selection: different names of nodes that are neither the sender nor in handshake, as
many as there may be. -/
def SoundGossips (view : ClusterView) (gossips : List Gossip) : Prop :=
  (gossips.length : Int) ≤ min 3 (max 0 view.freshnodes) ∧ (gossips.map Gossip.nodeName).Nodup ∧
    ∀ gossip ∈ gossips, ∃ other, gossip = view.gossipOf other ∧ some other ≠ view.myself ∧
      (view.node other).has .handshake = false

variable {view : ClusterView}

/-- A draw that offers nothing. -/
theorem offered_none {draw : Draw} (nothing : view.offers draw = none) (draws : List Draw) :
    view.offered (draw :: draws) = view.offered draws := by
  rw [offered, List.filterMap_cons_none nothing, offered]

/-- A draw that offers a name. -/
theorem offered_some {draw : Draw} {name : String} (offer : view.offers draw = some name) (draws : List Draw) :
    view.offered (draw :: draws) = insert name (view.offered draws) := by
  rw [offered, List.filterMap_cons_some offer, List.toFinset_cons, offered]

/-- What a draw of an assigned slot offers. -/
theorem offers_assigned {draw : Draw} {other : Nat} (assigned : view.slots draw.slot = some other) :
    view.offers draw = if draw.hasin = true ∨ view.skips other = true then none else some (view.node other).name := by
  cases hasin : draw.hasin <;> cases skips : view.skips other <;> simp [offers, assigned, hasin, skips]

/-- A draw of a slot that is assigned is passed over exactly when its node is skipped. -/
theorem passes_assigned {draw : Draw} {other : Nat} (assigned : view.slots draw.slot = some other) :
    view.passes draw = view.skips other := by
  simp [passes, assigned]

/-- A new name is one more besides those that have been taken. -/
theorem card_insert_sdiff {taken : Finset String} {name : String} (names : Finset String) (new : name ∉ taken) :
    (insert name names \ taken).card = (names \ insert name taken).card + 1 := by
  have split := Finset.sdiff_insert_insert_of_mem_of_notMem (Finset.mem_insert_self name names) new
  rw [Finset.insert_sdiff_insert] at split
  rw [← split, Finset.card_insert_of_notMem]
  simp

/-- The names of what has been selected. -/
def namesOf (gossips : List Gossip) : Finset String := (gossips.map Gossip.nodeName).toFinset

/-- Distinct names are as many as there are gossips. -/
theorem card_namesOf {gossips : List Gossip} (nodup : (gossips.map Gossip.nodeName).Nodup) :
    (namesOf gossips).card = gossips.length := by
  rw [namesOf, List.toFinset_card_of_nodup nodup, List.length_map]

/-- Membership in the set of names, as membership in the list. -/
theorem mem_namesOf {gossips : List Gossip} {name : String} :
    name ∈ namesOf gossips ↔ name ∈ gossips.map Gossip.nodeName := by
  simp [namesOf]

/-- A gossip that is added adds its name. -/
theorem namesOf_append (gossips : List Gossip) (gossip : Gossip) :
    namesOf (gossips ++ [gossip]) = insert gossip.nodeName (namesOf gossips) := by
  ext name
  simp [namesOf]

/-- The ways through the body of the loop: what it makes of the budget and the selection. A
slot without a node and a node that is known already leave the budget alone; the other two ways
count it down. -/
inductive Pass (view : ClusterView) (freshnodes : Int) (gossips : List Gossip) (draw : Draw) : Int → List Gossip → Prop
  | unassigned (nothing : view.slots draw.slot = none) : Pass view freshnodes gossips draw freshnodes gossips
  | skipped {other : Nat} (assigned : view.slots draw.slot = some other) (skips : view.skips other = true) :
      Pass view freshnodes gossips draw (freshnodes - 1) gossips
  | known {other : Nat} (assigned : view.slots draw.slot = some other) (tells : ¬ view.skips other = true)
      (known : draw.hasin = true ∨ (view.node other).name ∈ gossips.map Gossip.nodeName) :
      Pass view freshnodes gossips draw freshnodes gossips
  | told {other : Nat} (assigned : view.slots draw.slot = some other) (tells : ¬ view.skips other = true)
      (hasin : ¬ draw.hasin = true) (unknown : (view.node other).name ∉ gossips.map Gossip.nodeName) :
      Pass view freshnodes gossips draw (freshnodes - 1) (gossips ++ [view.gossipOf other])

/-- The loop takes one of them when it goes on. The case follows from what the drawn slot is:
without a node, with one to be skipped, one that is told already, or one to tell. -/
theorem selectGossips_pass (view : ClusterView) {freshnodes : Int} {gossips : List Gossip}
    (more : 0 < freshnodes ∧ gossips.length < 3) (draw : Draw) (draws : List Draw) :
    ∃ freshnodes' gossips', Pass view freshnodes gossips draw freshnodes' gossips' ∧
      view.selectGossips freshnodes gossips (draw :: draws) = view.selectGossips freshnodes' gossips' draws := by
  rw [selectGossips, if_pos more]
  cases assigned : view.slots draw.slot with
  | none => exact ⟨_, _, .unassigned assigned, rfl⟩
  | some other =>
    dsimp only
    split
    · exact ⟨_, _, .skipped assigned ‹_›, rfl⟩
    split
    · exact ⟨_, _, .known assigned ‹_› ‹_›, rfl⟩
    · rename_i tells new
      exact ⟨_, _, .told assigned tells (not_or.mp new).1 (not_or.mp new).2, rfl⟩

/-- The draws are enough to end the loop from a point on. -/
def EnoughFrom (view : ClusterView) (freshnodes : Int) (gossips : List Gossip) (draws : List Draw) : Prop :=
  freshnodes ≤ 0 ∨ 3 ≤ (namesOf gossips ∪ view.offered draws).card ∨
    freshnodes ≤ (draws.countP view.passes : Int) + ((view.offered draws \ namesOf gossips).card : Int)

namespace Pass

variable {freshnodes freshnodes' : Int} {gossips gossips' : List Gossip} {draw : Draw}
  (pass : Pass view freshnodes gossips draw freshnodes' gossips')

include pass

/-- No name is selected twice. -/
theorem nodup (nodup : (gossips.map Gossip.nodeName).Nodup) : (gossips'.map Gossip.nodeName).Nodup := by
  cases pass with
  | unassigned => exact nodup
  | skipped => exact nodup
  | known => exact nodup
  | told _ _ _ unknown =>
    rw [List.map_append, List.map_singleton, ← List.concat_eq_append]
    exact nodup.concat unknown

/-- The draws are enough when the other ones are behind the pass. By cases on the pass: an
unassigned slot offers nothing and is not counted, a skipped node is counted, a known one
offers no new name, and one that is told offers the name that is gathered. -/
theorem enough (more : 0 < freshnodes) (draws : List Draw) :
    view.EnoughFrom freshnodes' gossips' draws ↔ view.EnoughFrom freshnodes gossips (draw :: draws) := by
  unfold EnoughFrom
  cases pass with
  | unassigned nothing =>
    have offer : view.offers draw = none := by simp [offers, nothing]
    have passed : ¬ view.passes draw = true := by simp [passes, nothing]
    rw [offered_none offer, List.countP_cons_of_neg passed]
  | skipped assigned skips =>
    have offer : view.offers draw = none := by simp [offers_assigned assigned, skips]
    have passed : view.passes draw = true := by simp [passes_assigned assigned, skips]
    rw [offered_none offer, List.countP_cons_of_pos passed]
    omega
  | @known other assigned tells known =>
    have passed : ¬ view.passes draw = true := by simp [passes_assigned assigned, tells]
    rw [List.countP_cons_of_neg passed]
    by_cases hasin : draw.hasin = true
    · have offer : view.offers draw = none := by simp [offers_assigned assigned, hasin]
      rw [offered_none offer]
    · have offer : view.offers draw = some (view.node other).name := by
        simp [offers_assigned assigned, hasin, tells]
      have member : (view.node other).name ∈ namesOf gossips := mem_namesOf.mpr (known.resolve_left hasin)
      rw [offered_some offer, Finset.union_insert, Finset.insert_eq_of_mem (Finset.mem_union_left _ member),
        Finset.insert_sdiff_of_mem _ member]
  | @told other assigned tells hasin unknown =>
    have passed : ¬ view.passes draw = true := by simp [passes_assigned assigned, tells]
    have offer : view.offers draw = some (view.node other).name := by
      simp [offers_assigned assigned, hasin, tells]
    have new : (view.node other).name ∉ namesOf gossips := fun member => unknown (mem_namesOf.mp member)
    have name : (view.gossipOf other).nodeName = (view.node other).name := rfl
    rw [List.countP_cons_of_neg passed, offered_some offer, namesOf_append, name, Finset.union_insert,
      Finset.insert_union, card_insert_sdiff _ new]
    omega

end Pass

/-- When the loop ends, from any point on. By induction on the draws. A pass moves one draw
from the list into what is counted or gathered, and what is enough for the rest is what was
enough before. -/
theorem selectGossips_isSome (freshnodes : Int) (gossips : List Gossip)
    (nodup : (gossips.map Gossip.nodeName).Nodup) (draws : List Draw) :
    (view.selectGossips freshnodes gossips draws).isSome = true ↔ view.EnoughFrom freshnodes gossips draws := by
  induction draws generalizing freshnodes gossips with
  | nil =>
    have count := card_namesOf nodup
    have nothing : view.offered [] = ∅ := rfl
    rw [selectGossips, EnoughFrom, nothing, Finset.union_empty, Finset.empty_sdiff, List.countP_nil,
      Finset.card_empty, count]
    split
    · simp
      omega
    · simp
      omega
  | cons draw draws ih =>
    by_cases more : 0 < freshnodes ∧ gossips.length < 3
    · obtain ⟨freshnodes', gossips', pass, passed⟩ := selectGossips_pass view more draw draws
      rw [passed, ih freshnodes' gossips' (pass.nodup nodup), pass.enough more.1]
    · have count := card_namesOf nodup
      have grows : (namesOf gossips).card ≤ (namesOf gossips ∪ view.offered (draw :: draws)).card :=
        Finset.card_le_card Finset.subset_union_left
      rw [selectGossips, if_neg more, EnoughFrom]
      simp
      omega

/-- When the loop ends. -/
theorem selectGossips_ends (view : ClusterView) (draws : List Draw) :
    (view.selectGossips view.freshnodes [] draws).isSome = true ↔ view.Enough draws := by
  have none : namesOf [] = ∅ := rfl
  rw [selectGossips_isSome view.freshnodes [] List.nodup_nil draws, EnoughFrom, none, Finset.empty_union,
    Finset.sdiff_empty, Enough]

/-- What the loop selects behind a sound selection. No more nodes are gathered than the budget
allows, each once, and neither `myself` nor a node in a handshake is among them. -/
structure Selects (view : ClusterView) (freshnodes : Int) (gossips : List Gossip) : Prop where
  budget : (gossips.length : Int) + max 0 freshnodes ≤ max 0 view.freshnodes
  few : gossips.length ≤ 3
  names : (gossips.map Gossip.nodeName).Nodup
  others : ∀ gossip ∈ gossips, ∃ other, gossip = view.gossipOf other ∧ some other ≠ view.myself ∧
    (view.node other).has .handshake = false

/-- Every selection that goes through is sound: one pass of the loop keeps the soundness of what
is gathered. -/
theorem Selects.sound {freshnodes : Int} {gossips : List Gossip} (selects : Selects view freshnodes gossips) :
    view.SoundGossips gossips := by
  have budget := selects.budget
  have few := selects.few
  exact ⟨by omega, selects.names, selects.others⟩

/-- A pass keeps the selection sound. Only a pass that tells of a node changes the list: the
node is another one and past its handshake, and it takes one of the places left. -/
theorem Selects.pass {freshnodes freshnodes' : Int} {gossips gossips' : List Gossip} {draw : Draw}
    (selects : Selects view freshnodes gossips) (more : 0 < freshnodes ∧ gossips.length < 3)
    (pass : Pass view freshnodes gossips draw freshnodes' gossips') : Selects view freshnodes' gossips' := by
  have budget := selects.budget
  have names := pass.nodup selects.names
  cases pass with
  | unassigned => exact selects
  | skipped => exact ⟨by omega, selects.few, names, selects.others⟩
  | known => exact selects
  | @told other assigned tells =>
    have others : some other ≠ view.myself ∧ (view.node other).has .handshake = false := by
      simp [skips] at tells
      exact ⟨tells.1, tells.2.1⟩
    refine ⟨?_, ?_, names, fun gossip member => ?_⟩
    · rw [List.length_append, List.length_singleton]
      omega
    · rw [List.length_append, List.length_singleton]
      omega
    · rcases List.mem_append.mp member with before | last
      · exact selects.others gossip before
      · exact ⟨other, List.mem_singleton.mp last, others⟩

/-- What the loop selects is sound. By induction on the draws. -/
theorem selectGossips_sound {freshnodes : Int} {gossips selected : List Gossip} {draws rest : List Draw}
    (selects : Selects view freshnodes gossips)
    (ended : view.selectGossips freshnodes gossips draws = some (selected, rest)) : view.SoundGossips selected := by
  induction draws generalizing freshnodes gossips with
  | nil =>
    rw [selectGossips] at ended
    split at ended
    · cases ended
    · cases ended
      exact selects.sound
  | cons draw draws ih =>
    by_cases more : 0 < freshnodes ∧ gossips.length < 3
    · obtain ⟨freshnodes', gossips', pass, passed⟩ := selectGossips_pass view more draw draws
      rw [passed] at ended
      exact ih (selects.pass more pass) ended
    · rw [selectGossips, if_neg more] at ended
      cases ended
      exact selects.sound

/-- With any draws, and anything in `hasin` before it is set, the loop of `ping` ends with a
sound selection exactly when the first ones of the draws are enough.

Proof: a pass of the loop counts a draw down, gathers its node or passes over it, and ends
when enough have gone by; what it has gathered stays sound. So the loop ends with a finite
part of the draws or not at all, and which it is depends on the nodes that they name. -/
theorem selects_iff (view : ClusterView) (draws : Nat → Draw) :
    (∃ k gossips rest, view.selectGossips view.freshnodes [] ((List.range k).map draws) = some (gossips, rest) ∧
        view.SoundGossips gossips) ↔
      ∃ k, view.Enough ((List.range k).map draws) := by
  have start : view.Selects view.freshnodes [] :=
    ⟨Int.le_of_eq (Int.zero_add _), Nat.zero_le _, List.nodup_nil, fun _ member => absurd member List.not_mem_nil⟩
  constructor
  · rintro ⟨k, gossips, rest, ended, _⟩
    exact ⟨k, (selectGossips_ends view _).mp (by rw [ended]; rfl)⟩
  · rintro ⟨k, enough⟩
    obtain ⟨⟨gossips, rest⟩, ended⟩ := Option.isSome_iff_exists.mp ((selectGossips_ends view _).mpr enough)
    exact ⟨k, gossips, rest, ended, selectGossips_sound start ended⟩

/-- A view with three nodes, and no slot that is assigned. -/
def unassigned : ClusterView where
  node := fun id => ClusterNode.new "10.0.0.1" (7000 + id) 1#32 0
  nodes := ⟨[("10.0.0.1:7000", 0), ("10.0.0.1:7001", 1), ("10.0.0.1:7002", 2)], by decide, by decide⟩
  slots := fun _ => none
  myself := some 0
  currentEpoch := 0#64
  state := .ok
  size := 0
  firstCallTimeMs := 0

/-- On it the loop does not end. No slot has a node, so no draw adds to the list or lowers what
is left. -/
theorem selects_not_always : ¬ ∀ (view : ClusterView) (draws : Nat → Draw), view.nodes.entries ≠ [] →
    ∃ k gossips rest, view.selectGossips view.freshnodes [] ((List.range k).map draws) = some (gossips, rest) ∧
      view.SoundGossips gossips := by
  intro always
  obtain ⟨k, gossips, rest, ended, _⟩ := always unassigned (fun _ => ⟨⟨0, by decide⟩, false⟩) (by decide)
  have enough := (selectGossips_ends unassigned _).mp (Option.isSome_of_eq_some ended)
  generalize (List.range k).map (fun _ => (⟨⟨0, by decide⟩, false⟩ : Draw)) = draws at enough
  have none : unassigned.offered draws = ∅ := by
    have nothing : draws.filterMap unassigned.offers = [] :=
      List.filterMap_eq_nil_iff.mpr fun draw _ => by simp [offers, unassigned]
    rw [offered, nothing, List.toFinset_nil]
  have passed : draws.countP unassigned.passes = 0 :=
    List.countP_eq_zero.mpr fun draw _ => by simp [passes, unassigned]
  have budget : unassigned.freshnodes = 1 := rfl
  rw [Enough, none, passed, budget, Finset.card_empty] at enough
  omega

end ClusterView

end Naruto.Cluster
