import Naruto.Theory.Mailbox
import Mathlib.Algebra.Order.BigOperators.Group.Finset
import Mathlib.Algebra.BigOperators.Ring.List
import Mathlib.Algebra.Ring.Nat
import Mathlib.Data.Fintype.BigOperators

/-!
# Handing accepted connections to the workers

`onAccept` runs on the main thread: it picks the worker `connect_nums_ % worker_num`,
pushes the new link on that worker's deque and sends its async watcher. Signals that
are not yet delivered are one signal. The worker's `onAsync` takes links from the
deque until it finds it empty and starts each on the worker's own loop. The deque is a
plain `std::deque` without a lock, so a call takes two steps here, where it begins and
where it ends. Nothing keeps two calls on one deque from overlapping; that is a data race,
behind which nothing is known, and a run notes it. In a run without a race each worker's
part of the server is a mailbox with a bell, so every link accepted is started once, by
its worker and in the order of acceptance, and none is left waiting.
-/

namespace Naruto.Server

open Naruto.Theory

/-- A client link as the acceptor makes it: its worker and its socket. -/
structure ClientLink (workerNum : Nat) where
  workerId : Fin workerNum
  fd : Nat
deriving DecidableEq, Repr

/-- Where a worker's thread is in `onAsync`: in the event loop; before or in a call on its
deque, which is `empty`, `front`, or `pop_front` with what `front` has returned; or before
the start of the link it popped. -/
inductive Phase (workerNum : Nat) where
  | loop
  | empty (called : Bool)
  | front (called : Bool)
  | popFront (nc : ClientLink workerNum) (called : Bool)
  | start (nc : ClientLink workerNum)
deriving DecidableEq, Repr

/-- The thread is in a call on its deque. -/
def Phase.calls {workerNum : Nat} : Phase workerNum → Bool
  | .empty called | .front called | .popFront _ called => called
  | .loop | .start _ => false

/-- The call that the thread is before begins. -/
def Phase.begun {workerNum : Nat} : Phase workerNum → Option (Phase workerNum)
  | .empty false => some (.empty true)
  | .front false => some (.front true)
  | .popFront nc false => some (.popFront nc true)
  | .loop | .empty true | .front true | .popFront _ true | .start _ => none

/-- A worker: its deque, whether its async watcher was sent and not yet delivered, its
thread, the links started on its loop, and how many it has counted. -/
structure ConnectWorker (workerNum : Nat) where
  conns : List (ClientLink workerNum)
  async : Bool
  phase : Phase workerNum
  started : List (ClientLink workerNum)
  connNums : UInt64
deriving DecidableEq, Repr

/-- Where the main thread is in `onAccept`: in the event loop, before or in the
`push_back`, or before the send. -/
inductive Main (workerNum : Nat) where
  | loop
  | push (client : ClientLink workerNum) (called : Bool)
  | send (index : Fin workerNum)
deriving DecidableEq, Repr

/-- The main thread is in a call on the deque of a worker. -/
def Main.calls {workerNum : Nat} (i : Fin workerNum) : Main workerNum → Bool
  | .push client called => called && decide (client.workerId = i)
  | .loop | .send _ => false

/-- The counter of connections, the workers, the main thread, the sockets of peers that the
main thread serves itself, and whether two calls on one deque have been under way at a time. -/
structure Acceptor (workerNum : Nat) where
  connectNums : Nat
  workers : Fin workerNum → ConnectWorker workerNum
  main : Main workerNum
  peers : List Nat
  raced : Bool

/-- What the threads do. An `accept` that fails has no socket. The events `callPushBack` and
`call` begin a call on a deque, and the event with the name of the call ends it. -/
inductive Event (workerNum : Nat) where
  | onAccept (fd : Option Nat)
  | onAcceptRc (fd : Option Nat)
  | callPushBack
  | pushBack
  | send
  | onAsync (index : Fin workerNum)
  | call (index : Fin workerNum)
  | empty (index : Fin workerNum)
  | front (index : Fin workerNum)
  | popFront (index : Fin workerNum)
  | start (index : Fin workerNum)
deriving DecidableEq, Repr

variable {workerNum : Nat}

/-- `connect_nums_ % worker_num`, with no value when there is no worker. -/
def index (workerNum connectNums : Nat) : Option (Fin workerNum) :=
  if inside : connectNums % workerNum < workerNum then some ⟨connectNums % workerNum, inside⟩ else none

/-- `connect_nums_++` on an `int`, with no value at the end of its range. -/
def increment (connectNums : Nat) : Option Nat := if connectNums + 1 < 2 ^ 31 then some (connectNums + 1) else none

/-- One step of the worker's thread. The watcher is cleared when the loop delivers it. There is
no step for `front` and `pop_front` of an empty deque, which are undefined. -/
def ConnectWorker.step (w : ConnectWorker workerNum) : Event workerNum → Option (ConnectWorker workerNum)
  | .onAsync _ =>
    match w.phase, w.async with
    | .loop, true => some { w with async := false, phase := .empty false }
    | _, _ => none
  | .call _ => w.phase.begun.map fun phase => { w with phase := phase }
  | .empty _ =>
    match w.phase, w.conns with
    | .empty true, [] => some { w with phase := .loop }
    | .empty true, _ :: _ => some { w with phase := .front false }
    | _, _ => none
  | .front _ =>
    match w.phase, w.conns with
    | .front true, nc :: _ => some { w with phase := .popFront nc false }
    | _, _ => none
  | .popFront _ =>
    match w.phase, w.conns with
    | .popFront nc true, _ :: conns => some { w with conns := conns, phase := .start nc }
    | _, _ => none
  | .start _ =>
    match w.phase with
    | .start nc => some { w with started := w.started ++ [nc], connNums := w.connNums + 1, phase := .empty false }
    | _ => none
  | _ => none

/-- The worker an event belongs to, when it is a worker's. -/
def Event.worker : Event workerNum → Option (Fin workerNum)
  | .onAsync index | .call index | .empty index | .front index | .popFront index | .start index => some index
  | _ => none

/-- One step of the main thread or of a worker, as long as there was no race. A call that begins
while the other thread is in one on the same deque is a race. -/
def Acceptor.step (s : Acceptor workerNum) (event : Event workerNum) : Option (Acceptor workerNum) :=
  if s.raced = true then none
  else match event, s.main with
  | .onAccept none, .loop => some s
  | .onAccept (some fd), .loop =>
    (index workerNum s.connectNums).map fun index => { s with main := .push ⟨index, fd⟩ false }
  | .onAcceptRc none, .loop => some s
  | .onAcceptRc (some fd), .loop =>
    (increment s.connectNums).map fun connectNums => { s with peers := s.peers ++ [fd], connectNums := connectNums }
  | .callPushBack, .push client false =>
    some { s with main := .push client true, raced := (s.workers client.workerId).phase.calls }
  | .pushBack, .push client true =>
    let w := s.workers client.workerId
    some { s with
      workers := Function.update s.workers client.workerId { w with conns := w.conns ++ [client] },
      main := .send client.workerId }
  | .send, .send index =>
    (increment s.connectNums).map fun connectNums =>
      { s with
        workers := Function.update s.workers index { s.workers index with async := true },
        main := .loop,
        connectNums := connectNums }
  | event, main =>
    match event.worker with
    | some index =>
      ((s.workers index).step event).map fun w =>
        { s with workers := Function.update s.workers index w, raced := w.phase.calls && main.calls index }
    | none => none

/-- A worker before its first link. Nothing sets its count. -/
def ConnectWorker.fresh (connNums : UInt64) : ConnectWorker workerNum := ⟨[], false, .loop, [], connNums⟩

/-- The server before the first connection. -/
def Acceptor.fresh (connNums : Fin workerNum → UInt64) : Acceptor workerNum :=
  ⟨0, fun index => .fresh (connNums index), .loop, [], false⟩

/-- The code does not exclude a race: the worker looks whether its deque is empty while the
next link is pushed on it. -/
example : (run Acceptor.step (.fresh fun _ : Fin 1 => 0)
    [.onAccept (some 7), .callPushBack, .pushBack, .send, .onAsync (Fin.last 0), .onAccept (some 8), .callPushBack,
      .call (Fin.last 0)]).map Acceptor.raced = some true := by decide

/-- Whether an event brings a new connection. -/
def Event.connects : Event workerNum → Nat
  | .onAccept (some _) | .onAcceptRc (some _) => 1
  | _ => 0

/-- The client links that a list of events brings, each with the worker whose turn it is. -/
def arrivals (nums : Nat) : List (Event workerNum) → List (ClientLink workerNum)
  | [] => []
  | .onAccept (some fd) :: events =>
    (index workerNum nums).toList.map (fun index => ⟨index, fd⟩) ++ arrivals (nums + 1) events
  | event :: events => arrivals (nums + event.connects) events

/-- The links of one worker. -/
def share (i : Fin workerNum) (links : List (ClientLink workerNum)) : List (ClientLink workerNum) :=
  links.filter fun client => client.workerId = i

/-- The share of a worker in two lists of links, one behind the other. -/
theorem share_append (i : Fin workerNum) (front back : List (ClientLink workerNum)) :
    share i (front ++ back) = share i front ++ share i back := List.filter_append ..

/-- The link that a worker has popped and not started. -/
def Phase.hand : Phase workerNum → List (ClientLink workerNum)
  | .start nc => [nc]
  | _ => []

/-- The link that the main thread has accepted for a worker and not pushed. -/
def Main.held (i : Fin workerNum) : Main workerNum → List (ClientLink workerNum)
  | .push client _ => share i [client]
  | _ => []

/-- The connections taken from the kernel, whether or not `onAccept` has counted them. -/
def Acceptor.taken (s : Acceptor workerNum) : Nat := s.connectNums + if s.main = .loop then 0 else 1

/-- One worker's part of the server as a mailbox. -/
def Acceptor.mailbox (i : Fin workerNum) (s : Acceptor workerNum) : Mailbox (ClientLink workerNum) where
  queue := (s.workers i).conns
  bell := (s.workers i).async
  announcing := s.main = .send i
  awake := (s.workers i).phase ≠ .loop
  taken := (s.workers i).started ++ (s.workers i).phase.hand

/-- What a step is to one worker's mailbox. -/
def amounts (i : Fin workerNum) (s : Acceptor workerNum) :
    Event workerNum → List (Mailbox.Action (ClientLink workerNum))
  | .pushBack => (s.main.held i).map .put
  | .send => if s.main = .send i then [.ring] else []
  | .onAsync j => if j = i then [.hear] else []
  | .empty j => if j = i ∧ (s.workers i).conns = [] then [.rest] else []
  | .popFront j => if j = i then [.take] else []
  | _ => []

/-- What a step of a worker's thread does to its worker. It begins a call on its deque, ends
one, starts what it has taken, or rests. -/
inductive Turn (w : ConnectWorker workerNum) (i : Fin workerNum) :
    Event workerNum → ConnectWorker workerNum → Prop
  | woken (phase : w.phase = .loop) (sent : w.async = true) :
      Turn w i (.onAsync i) { w with async := false, phase := .empty false }
  | called (phase : Phase workerNum) (begins : w.phase.begun = some phase) : Turn w i (.call i) { w with phase := phase }
  | drained (phase : w.phase = .empty true) (nothing : w.conns = []) : Turn w i (.empty i) { w with phase := .loop }
  | found (nc : ClientLink workerNum) (conns : List (ClientLink workerNum)) (phase : w.phase = .empty true)
      (filled : w.conns = nc :: conns) : Turn w i (.empty i) { w with phase := .front false }
  | fronted (nc : ClientLink workerNum) (conns : List (ClientLink workerNum)) (phase : w.phase = .front true)
      (filled : w.conns = nc :: conns) : Turn w i (.front i) { w with phase := .popFront nc false }
  | popped (nc first : ClientLink workerNum) (conns : List (ClientLink workerNum))
      (phase : w.phase = .popFront nc true) (filled : w.conns = first :: conns) :
      Turn w i (.popFront i) { w with conns := conns, phase := .start nc }
  | started (nc : ClientLink workerNum) (phase : w.phase = .start nc) :
      Turn w i (.start i) { w with started := w.started ++ [nc], connNums := w.connNums + 1, phase := .empty false }

/-- The ways of a step. The main thread accepts, pushes and sends, and a worker takes its turn;
everything else is untouched. -/
inductive Way (s : Acceptor workerNum) : Event workerNum → Acceptor workerNum → Prop
  | refused (idle : s.main = .loop) : Way s (.onAccept none) s
  | refusedRc (idle : s.main = .loop) : Way s (.onAcceptRc none) s
  | accepted (fd : Nat) (i : Fin workerNum) (idle : s.main = .loop) (turn : index workerNum s.connectNums = some i) :
      Way s (.onAccept (some fd)) { s with main := .push ⟨i, fd⟩ false }
  | peer (fd : Nat) (idle : s.main = .loop) (room : s.connectNums + 1 < 2 ^ 31) :
      Way s (.onAcceptRc (some fd)) { s with peers := s.peers ++ [fd], connectNums := s.connectNums + 1 }
  | called (client : ClientLink workerNum) (accepted : s.main = .push client false) :
      Way s .callPushBack { s with main := .push client true, raced := (s.workers client.workerId).phase.calls }
  | pushed (client : ClientLink workerNum) (accepted : s.main = .push client true) :
      Way s .pushBack { s with
        workers := Function.update s.workers client.workerId
          { s.workers client.workerId with conns := (s.workers client.workerId).conns ++ [client] },
        main := .send client.workerId }
  | sent (i : Fin workerNum) (pushed : s.main = .send i) (room : s.connectNums + 1 < 2 ^ 31) :
      Way s .send { s with
        workers := Function.update s.workers i { s.workers i with async := true },
        main := .loop,
        connectNums := s.connectNums + 1 }
  | worked (i : Fin workerNum) (event : Event workerNum) (w : ConnectWorker workerNum)
      (turn : Turn (s.workers i) i event w) :
      Way s event { s with workers := Function.update s.workers i w, raced := w.phase.calls && s.main.calls i }

/-- A worker's step is one of its turns. By cases on the event and the place of the thread. -/
theorem ConnectWorker.step_turn {w w' : ConnectWorker workerNum} {i : Fin workerNum} {event : Event workerNum}
    (mine : event.worker = some i) (stepped : w.step event = some w') : Turn w i event w' := by
  cases event with
  | onAccept fd => cases mine
  | onAcceptRc fd => cases mine
  | callPushBack => cases mine
  | pushBack => cases mine
  | send => cases mine
  | onAsync j =>
    obtain rfl := Option.some.inj mine
    simp only [ConnectWorker.step] at stepped
    split at stepped
    case h_1 _ _ phase sent => exact Option.some.inj stepped ▸ .woken phase sent
    case h_2 => cases stepped
  | call j =>
    obtain rfl := Option.some.inj mine
    obtain ⟨phase, begins, rfl⟩ := Option.map_eq_some_iff.mp stepped
    exact .called phase begins
  | empty j =>
    obtain rfl := Option.some.inj mine
    simp only [ConnectWorker.step] at stepped
    split at stepped
    case h_1 _ _ phase nothing => exact Option.some.inj stepped ▸ .drained phase nothing
    case h_2 _ _ nc conns phase filled => exact Option.some.inj stepped ▸ .found nc conns phase filled
    case h_3 => cases stepped
  | front j =>
    obtain rfl := Option.some.inj mine
    simp only [ConnectWorker.step] at stepped
    split at stepped
    case h_1 _ _ nc conns phase filled => exact Option.some.inj stepped ▸ .fronted nc conns phase filled
    case h_2 => cases stepped
  | popFront j =>
    obtain rfl := Option.some.inj mine
    simp only [ConnectWorker.step] at stepped
    split at stepped
    case h_1 _ _ nc first conns phase filled => exact Option.some.inj stepped ▸ .popped nc first conns phase filled
    case h_2 => cases stepped
  | start j =>
    obtain rfl := Option.some.inj mine
    simp only [ConnectWorker.step] at stepped
    split at stepped
    case h_1 _ nc phase => exact Option.some.inj stepped ▸ .started nc phase
    case h_2 => cases stepped

/-- Counting one connection more, when the counter has room. -/
theorem increment_eq_some {nums more : Nat} (counted : increment nums = some more) :
    more = nums + 1 ∧ nums + 1 < 2 ^ 31 := by
  rw [increment, Option.ite_none_right_eq_some, Option.some.injEq] at counted
  exact ⟨counted.2.symm, counted.1⟩

/-- A step goes one of the ways. By cases on the event and the place of the main thread. -/
theorem Acceptor.step_way {s s' : Acceptor workerNum} {event : Event workerNum} (stepped : s.step event = some s') :
    Way s event s' := by
  simp only [Acceptor.step] at stepped
  split at stepped
  · cases stepped
  split at stepped
  case h_1 idle => exact Option.some.inj stepped ▸ .refused idle
  case h_2 _ fd idle =>
    obtain ⟨i, turn, rfl⟩ := Option.map_eq_some_iff.mp stepped
    exact .accepted fd i idle turn
  case h_3 idle => exact Option.some.inj stepped ▸ .refusedRc idle
  case h_4 _ fd idle =>
    obtain ⟨more, counted, rfl⟩ := Option.map_eq_some_iff.mp stepped
    obtain ⟨rfl, room⟩ := increment_eq_some counted
    exact .peer fd idle room
  case h_5 _ client accepted => exact Option.some.inj stepped ▸ .called client accepted
  case h_6 _ client accepted => exact Option.some.inj stepped ▸ .pushed client accepted
  case h_7 _ i pushed =>
    obtain ⟨more, counted, rfl⟩ := Option.map_eq_some_iff.mp stepped
    obtain ⟨rfl, room⟩ := increment_eq_some counted
    exact .sent i pushed room
  case h_8 =>
    split at stepped
    case h_1 i mine =>
      obtain ⟨w, worked, rfl⟩ := Option.map_eq_some_iff.mp stepped
      exact .worked i _ w (ConnectWorker.step_turn mine worked)
    case h_2 => cases stepped

/-- What `front` has returned, or will return, is the first link of the deque. -/
structure ConnectWorker.Fronted (w : ConnectWorker workerNum) : Prop where
  front : ∀ called, w.phase = .front called → w.conns ≠ []
  popFront : ∀ nc called, w.phase = .popFront nc called → w.conns.head? = some nc

/-- A call that begins changes neither whether the thread is in its loop nor what it has popped. -/
theorem Phase.begun_same {phase phase' : Phase workerNum} (begins : phase.begun = some phase') :
    (phase ≠ .loop) ∧ (phase' ≠ .loop) ∧ phase.hand = [] ∧ phase'.hand = [] := by
  cases phase with
  | loop => cases begins
  | empty called => cases called <;> cases begins; simp [hand]
  | front called => cases called <;> cases begins; simp [hand]
  | popFront nc called => cases called <;> cases begins; simp [hand]
  | start nc => cases begins

/-- A worker's turn is what it amounts to for its mailbox, whatever the main thread is doing.
The deque is the mailbox; of the calls on it only the end of a `pop_front` takes something out.
-/
theorem Turn.matched {s : Acceptor workerNum} {i : Fin workerNum} {event : Event workerNum}
    {w : ConnectWorker workerNum} (turn : Turn (s.workers i) i event w) (fronted : (s.workers i).Fronted)
    (raced : Bool) :
    run Mailbox.step (s.mailbox i) (amounts i s event) =
      some (Acceptor.mailbox i { s with workers := Function.update s.workers i w, raced := raced }) := by
  cases turn with
  | woken phase sent => simp [amounts, Acceptor.mailbox, Mailbox.step, phase, sent, Phase.hand]
  | called phase begins =>
    obtain ⟨before, behind, nothing, nothing'⟩ := Phase.begun_same begins
    simp [amounts, Acceptor.mailbox, before, behind, nothing, nothing']
  | drained phase nothing => simp [amounts, Acceptor.mailbox, Mailbox.step, phase, nothing, Phase.hand]
  | found nc conns phase filled => simp [amounts, Acceptor.mailbox, phase, filled, Phase.hand]
  | fronted nc conns phase filled => simp [amounts, Acceptor.mailbox, phase, filled, Phase.hand]
  | popped nc first conns phase filled =>
    have same := fronted.popFront nc true phase
    rw [filled, List.head?_cons, Option.some.injEq] at same
    simp [amounts, Acceptor.mailbox, Mailbox.step, phase, filled, same, Phase.hand]
  | started nc phase => simp [amounts, Acceptor.mailbox, phase, Phase.hand]

/-- Another worker's turn is nothing to a mailbox. -/
theorem Turn.elsewhere {s : Acceptor workerNum} {i j : Fin workerNum} {event : Event workerNum}
    {w : ConnectWorker workerNum} (turn : Turn (s.workers j) j event w) (other : i ≠ j) (raced : Bool) :
    amounts i s event = [] ∧
      Acceptor.mailbox i { s with workers := Function.update s.workers j w, raced := raced } = s.mailbox i := by
  have same : Function.update s.workers j w i = s.workers i := Function.update_of_ne other w s.workers
  refine ⟨?_, by simp only [Acceptor.mailbox, same]⟩
  cases turn <;> simp [amounts, other.symm]

/-- Every step is, for each worker's mailbox, the actions it amounts to. A push is a put, the
send a ring; the worker's turns look, take and rest; for the other workers there is nothing. -/
theorem Way.matched {s s' : Acceptor workerNum} {event : Event workerNum} (way : Way s event s')
    (i : Fin workerNum) (fronted : (s.workers i).Fronted) :
    run Mailbox.step (s.mailbox i) (amounts i s event) = some (s'.mailbox i) := by
  cases way with
  | refused idle => rfl
  | refusedRc idle => rfl
  | accepted fd j idle turn => simp [amounts, Acceptor.mailbox, idle]
  | peer fd idle room => rfl
  | called client accepted => simp [amounts, Acceptor.mailbox, accepted]
  | pushed client accepted =>
    by_cases mine : client.workerId = i
    · subst mine
      simp [amounts, Acceptor.mailbox, accepted, Main.held, share, Mailbox.step]
    · have kept : Function.update s.workers client.workerId
          { s.workers client.workerId with conns := (s.workers client.workerId).conns ++ [client] } i = s.workers i :=
        Function.update_of_ne (Ne.symm mine) _ _
      simp [amounts, Acceptor.mailbox, accepted, Main.held, share, mine, kept]
  | sent j pushed room =>
    by_cases mine : j = i
    · subst mine
      simp [amounts, Acceptor.mailbox, pushed, Mailbox.step]
    · have kept : Function.update s.workers j { s.workers j with async := true } i = s.workers i :=
        Function.update_of_ne (Ne.symm mine) _ _
      simp [amounts, Acceptor.mailbox, pushed, mine, kept]
  | worked j _ w turn =>
    by_cases mine : i = j
    · subst mine
      exact turn.matched fronted _
    · obtain ⟨nothing, kept⟩ := turn.elsewhere mine (w.phase.calls && s.main.calls j)
      rw [nothing, kept]
      rfl

/-- A worker's turn is an event that brings no connection and puts nothing in a mailbox.
Connections are brought and put in by the main thread alone. -/
theorem Turn.quiet {w w' : ConnectWorker workerNum} {j : Fin workerNum} {event : Event workerNum}
    (turn : Turn w j event w') (i : Fin workerNum) (s : Acceptor workerNum) :
    (amounts i s event).flatMap Mailbox.Action.puts = [] ∧ event.connects = 0 ∧
      ∀ nums, arrivals nums [event] = [] := by
  have apart : ∀ (p : Prop) [Decidable p] (action : Mailbox.Action (ClientLink workerNum)), action.puts = [] →
      (if p then [action] else []).flatMap Mailbox.Action.puts = [] := by
    intro p _ action silent
    split <;> simp [silent]
  cases turn with
  | woken phase sent => exact ⟨apart _ _ rfl, rfl, fun _ => rfl⟩
  | called phase begins => exact ⟨rfl, rfl, fun _ => rfl⟩
  | drained phase nothing => exact ⟨apart _ _ rfl, rfl, fun _ => rfl⟩
  | found nc conns phase filled => exact ⟨apart _ _ rfl, rfl, fun _ => rfl⟩
  | fronted nc conns phase filled => exact ⟨rfl, rfl, fun _ => rfl⟩
  | popped nc first conns phase filled => exact ⟨apart _ _ rfl, rfl, fun _ => rfl⟩
  | started nc phase => exact ⟨rfl, rfl, fun _ => rfl⟩

/-- A step adds to what a worker's mailbox and the main thread hold for the worker the
links its event brings for it, and to the connections taken those the event brings. -/
theorem Way.grows {s s' : Acceptor workerNum} {event : Event workerNum} (way : Way s event s') (i : Fin workerNum) :
    s'.taken = s.taken + event.connects ∧
      (s.mailbox i).items ++ (amounts i s event).flatMap Mailbox.Action.puts ++ s'.main.held i =
        (s.mailbox i).items ++ s.main.held i ++ share i (arrivals s.taken [event]) := by
  cases way with
  | refused idle => simp [Event.connects, arrivals, amounts, share]
  | refusedRc idle => simp [Event.connects, arrivals, amounts, share]
  | accepted fd j idle turn =>
    simp [Acceptor.taken, idle, Event.connects, arrivals, amounts, Main.held, turn]
  | peer fd idle room =>
    simp [Acceptor.taken, idle, Event.connects, arrivals, amounts, Main.held, share]
  | called client accepted =>
    simp [Acceptor.taken, accepted, Event.connects, arrivals, amounts, Main.held, share]
  | pushed client accepted =>
    simp [Acceptor.taken, accepted, Event.connects, arrivals, amounts, Main.held, share, Mailbox.Action.puts,
      List.flatMap_map]
  | sent j pushed room =>
    simp only [amounts]
    split <;> simp [Acceptor.taken, pushed, Event.connects, arrivals, Main.held, share, Mailbox.Action.puts]
  | worked j _ w turn =>
    obtain ⟨nothing, brought, brings⟩ := turn.quiet i s
    rw [nothing, brought, brings]
    simp [Acceptor.taken, share]

/-- The links of a list of arrivals, split where the run is. -/
theorem arrivals_cons (nums : Nat) (event : Event workerNum) (events : List (Event workerNum)) :
    arrivals nums (event :: events) = arrivals nums [event] ++ arrivals (nums + event.connects) events := by
  cases event with
  | onAccept fd => cases fd <;> simp [arrivals, Event.connects]
  | onAcceptRc fd => cases fd <;> simp [arrivals, Event.connects]
  | _ => rfl

/-- A call that begins is of the same kind, so what is known of the first link stays. -/
theorem ConnectWorker.Fronted.begun {w : ConnectWorker workerNum} (fronted : w.Fronted) {phase : Phase workerNum}
    (begins : w.phase.begun = some phase) : ({ w with phase := phase } : ConnectWorker workerNum).Fronted := by
  cases before : w.phase with
  | loop => simp [before, Phase.begun] at begins
  | start nc => simp [before, Phase.begun] at begins
  | empty called => cases called <;> simp [before, Phase.begun] at begins; subst begins; constructor <;> simp
  | front called =>
    have filled := fronted.front called before
    cases called <;> simp [before, Phase.begun] at begins
    subst begins
    constructor <;> simp [filled]
  | popFront nc called =>
    have first := fronted.popFront nc called before
    cases called <;> simp [before, Phase.begun] at begins
    subst begins
    constructor <;> simp [first]

/-- A worker that is about to take the front of its deque has found it filled, and its deque
does not shrink but by its own hand. The main thread only pushes at the back. -/
theorem step_fronted {s s' : Acceptor workerNum} {event : Event workerNum} (i : Fin workerNum)
    (fronted : (s.workers i).Fronted) (stepped : s.step event = some s') : (s'.workers i).Fronted := by
  cases Acceptor.step_way stepped with
  | refused idle => exact fronted
  | refusedRc idle => exact fronted
  | accepted fd j idle turn => exact fronted
  | peer fd idle room => exact fronted
  | called client accepted => exact fronted
  | pushed client accepted =>
    by_cases mine : i = client.workerId
    · subst mine
      dsimp only
      rw [Function.update_self]
      refine ⟨fun _ _ => by simp, fun nc called phase => ?_⟩
      rw [List.head?_append, fronted.popFront nc called phase, Option.some_or]
    · simpa only [Function.update_of_ne mine] using fronted
  | sent j pushed room =>
    by_cases mine : i = j
    · subst mine
      dsimp only
      rw [Function.update_self]
      exact ⟨fronted.front, fronted.popFront⟩
    · simpa only [Function.update_of_ne mine] using fronted
  | worked j _ w turn =>
    by_cases mine : i = j
    · subst mine
      dsimp only
      rw [Function.update_self]
      cases turn with
      | called phase begins => exact fronted.begun begins
      | found nc conns phase filled => constructor <;> simp [filled]
      | fronted nc conns phase filled => constructor <;> simp [filled]
      | _ => constructor <;> simp
    · simpa only [Function.update_of_ne mine] using fronted

/-- A worker before its first link is in its loop. -/
theorem fresh_fronted (connNums : Fin workerNum → UInt64) (i : Fin workerNum) :
    ((Acceptor.fresh connNums).workers i).Fronted := by
  constructor <;> simp [Acceptor.fresh, ConnectWorker.fresh]

/-- In every reachable state the link that a worker has or takes is the first of its deque. -/
theorem reached_fronted (connNums : Fin workerNum → UInt64) (last : Acceptor workerNum)
    (events : List (Event workerNum)) (ran : run Acceptor.step (.fresh connNums) events = some last)
    (i : Fin workerNum) : (last.workers i).Fronted :=
  run_preserves (fun s => (s.workers i).Fronted) (fun _ _ _ fronted stepped => step_fronted i fronted stepped) _ _ _
    (fresh_fronted connNums i) ran

/-- Over a run, what is started, popped, queued or held for a worker grows by the links
that arrive for it, in their order. -/
theorem run_share (i : Fin workerNum) (s last : Acceptor workerNum) (events : List (Event workerNum))
    (fronted : (s.workers i).Fronted) (ran : run Acceptor.step s events = some last) :
    (last.mailbox i).items ++ last.main.held i =
      (s.mailbox i).items ++ s.main.held i ++ share i (arrivals s.taken events) := by
  induction events generalizing s with
  | nil =>
    obtain rfl := Option.some.inj ran
    simp [arrivals, share]
  | cons event events ih =>
    obtain ⟨s', stepped, rest⟩ := Option.bind_eq_some_iff.mp ran
    have way := Acceptor.step_way stepped
    obtain ⟨counted, grown⟩ := way.grows i
    have moved := Mailbox.run_items _ _ _ (way.matched i fronted)
    rw [ih s' (step_fronted i fronted stepped) rest, moved, grown, counted, arrivals_cons s.taken event events,
      share_append, List.append_assoc]

/-- The link that a worker counts is the link it starts. Counting and starting are one turn;
the other turns do neither. -/
theorem step_counted {s s' : Acceptor workerNum} {event : Event workerNum} (connNums : UInt64) (i : Fin workerNum)
    (counts : (s.workers i).connNums = connNums + UInt64.ofNat (s.workers i).started.length)
    (stepped : s.step event = some s') :
    (s'.workers i).connNums = connNums + UInt64.ofNat (s'.workers i).started.length := by
  cases Acceptor.step_way stepped with
  | refused idle => exact counts
  | refusedRc idle => exact counts
  | accepted fd j idle turn => exact counts
  | peer fd idle room => exact counts
  | called client accepted => exact counts
  | pushed client accepted =>
    by_cases mine : i = client.workerId
    · subst mine
      simpa using counts
    · simpa [Function.update_of_ne mine] using counts
  | sent j pushed room =>
    by_cases mine : i = j
    · subst mine
      simpa using counts
    · simpa [Function.update_of_ne mine] using counts
  | worked j _ w turn =>
    by_cases mine : i = j
    · subst mine
      cases turn with
      | started nc phase => simp [counts, UInt64.add_assoc]
      | _ => simpa using counts
    · simpa [Function.update_of_ne mine] using counts

/-- In every reachable state a deque with links in it has been or will be signalled, or is
being drained: each worker's part of the run is a run of its mailbox. -/
theorem reached_heard (connNums : Fin workerNum → UInt64) (last : Acceptor workerNum)
    (events : List (Event workerNum)) (ran : run Acceptor.step (.fresh connNums) events = some last)
    (i : Fin workerNum) (filled : (last.workers i).conns ≠ []) :
    (last.workers i).async = true ∨ last.main = .send i ∨ (last.workers i).phase ≠ .loop := by
  have viewed := run_simulates (Acceptor.mailbox i) (fun s => (s.workers i).Fronted)
    (fun _ _ _ fronted stepped => step_fronted i fronted stepped)
    (fun _ _ _ fronted stepped => (Acceptor.step_way stepped).matched i fronted) _ _ _ (fresh_fronted connNums i) ran
  simpa [Acceptor.mailbox] using Mailbox.run_heard _ _ viewed filled

/-- The flag is what it says: a step that does not set it leaves the two threads in no calls on
one deque at a time. Only a call that begins could change that, and it looks for the other. -/
theorem step_apart {s s' : Acceptor workerNum} {event : Event workerNum} (i : Fin workerNum)
    (apart : (s.workers i).phase.calls = false ∨ s.main.calls i = false) (stepped : s.step event = some s')
    (alone : s'.raced = false) : (s'.workers i).phase.calls = false ∨ s'.main.calls i = false := by
  cases Acceptor.step_way stepped with
  | refused idle => exact apart
  | refusedRc idle => exact apart
  | accepted fd j idle turn => exact .inr rfl
  | peer fd idle room => exact apart
  | called client accepted =>
    by_cases mine : client.workerId = i
    · subst mine
      exact .inl alone
    · exact .inr (by simp [Main.calls, mine])
  | pushed client accepted => exact .inr rfl
  | sent j pushed room => exact .inr rfl
  | worked j _ w turn =>
    by_cases mine : i = j
    · subst mine
      dsimp only
      rw [Function.update_self]
      exact Bool.and_eq_false_iff.mp alone
    · simpa [Function.update_of_ne mine] using apart

/-- A run that has not raced has had no two calls on one deque under way at a time. -/
theorem reached_apart (connNums : Fin workerNum → UInt64) (last : Acceptor workerNum)
    (events : List (Event workerNum)) (ran : run Acceptor.step (.fresh connNums) events = some last)
    (alone : last.raced = false) (i : Fin workerNum) :
    (last.workers i).phase.calls = false ∨ last.main.calls i = false := by
  have preserved : ∀ (s : Acceptor workerNum) event s',
      (s.raced = false → (s.workers i).phase.calls = false ∨ s.main.calls i = false) → s.step event = some s' →
      s'.raced = false → (s'.workers i).phase.calls = false ∨ s'.main.calls i = false := by
    intro s event s' apart stepped
    cases before : s.raced with
    | false => exact step_apart i (apart before) stepped
    | true => simp [Acceptor.step, before] at stepped
  exact run_preserves _ preserved _ _ _ (fun _ => .inl rfl) ran alone

/-- In every state reached without a race, each worker has started, holds or will find in its
deque exactly the client links whose turn was its own, each once and in the order of their
acceptance, but for the one the main thread is about to push; it has counted those it has
started; it never takes the front of an empty deque, and pops what `front` has returned; while
its deque is not empty its watcher is sent, or about to be, or the worker is already draining
the deque; and the two threads are in no calls on its deque at a time.

Proof: the share of a worker grows with each step by what the step accepts for it, and its
part of the server simulates the mailbox, so what holds of every mailbox with a bell holds of
it. -/
theorem handed_in_turn (connNums : Fin workerNum → UInt64) (last : Acceptor workerNum)
    (events : List (Event workerNum)) (ran : run Acceptor.step (.fresh connNums) events = some last)
    (alone : last.raced = false) (i : Fin workerNum) :
    (last.workers i).started ++ (last.workers i).phase.hand ++ (last.workers i).conns ++ last.main.held i =
        share i (arrivals 0 events) ∧
      (last.workers i).connNums = connNums i + UInt64.ofNat (last.workers i).started.length ∧
      ((last.workers i).phase = .front true → (last.workers i).conns ≠ []) ∧
      (∀ nc, (last.workers i).phase = .popFront nc true → (last.workers i).conns.head? = some nc) ∧
      ((last.workers i).conns ≠ [] →
        (last.workers i).async = true ∨ last.main = .send i ∨ (last.workers i).phase ≠ .loop) ∧
      ((last.workers i).phase.calls = false ∨ last.main.calls i = false) := by
  have whole := run_share i _ _ _ (fresh_fronted connNums i) ran
  have counted := run_preserves
    (fun s => (s.workers i).connNums = connNums i + UInt64.ofNat (s.workers i).started.length)
    (fun _ _ _ counts stepped => step_counted (connNums i) i counts stepped) _ _ _
    (by simp [Acceptor.fresh, ConnectWorker.fresh]) ran
  have fronted := reached_fronted connNums last events ran i
  exact ⟨whole, counted, fronted.front true, fun nc => fronted.popFront nc true,
    reached_heard connNums last events ran i, reached_apart connNums last events ran alone i⟩

/-- Two workers, two clients and a peer: the second client comes while the first worker
drains its deque, is pushed between two of its calls, and goes to the first worker too, since
the peer was counted. -/
def threeConnections : List (Event 2) :=
  let first : Fin 2 := ⟨0, Nat.two_pos⟩
  [.onAccept (some 7), .callPushBack, .pushBack, .send, .onAsync first, .onAcceptRc (some 8), .call first, .empty first,
    .onAccept (some 9), .call first, .front first, .callPushBack, .pushBack, .call first, .popFront first, .start first,
    .send, .call first, .empty first, .call first, .front first, .call first, .popFront first, .start first,
    .call first, .empty first, .onAsync first, .call first, .empty first]

/-- Midway in that run the second client is queued, and both are accounted for. -/
theorem handed_in_turn_three : ∃ last,
    run Acceptor.step (.fresh fun _ => 5) (threeConnections.take 16) = some last ∧
    (last.workers ⟨0, Nat.two_pos⟩).started ++ (last.workers ⟨0, Nat.two_pos⟩).phase.hand ++
      (last.workers ⟨0, Nat.two_pos⟩).conns ++ last.main.held ⟨0, Nat.two_pos⟩ =
        [⟨⟨0, Nat.two_pos⟩, 7⟩, ⟨⟨0, Nat.two_pos⟩, 9⟩] := by
  have ends : (run Acceptor.step (.fresh fun _ => 5) (threeConnections.take 16)).map Acceptor.raced = some false := by
    decide
  obtain ⟨last, ran, alone⟩ := Option.map_eq_some_iff.mp ends
  exact ⟨last, ran, (handed_in_turn _ last _ ran alone ⟨0, Nat.two_pos⟩).1.trans (by decide)⟩

/-! ### What is left to do -/

/-- The steps that a worker's thread may still take where it is. -/
def Phase.steps : Phase workerNum → Nat
  | .loop => 0
  | .empty called => if called then 4 else 5
  | .front called => if called then 2 else 3
  | .popFront _ called => if called then 0 else 1
  | .start _ => 6

/-- The steps that the main thread's place may still lead to for a worker. -/
def Main.steps (i : Fin workerNum) : Main workerNum → Nat
  | .loop => 0
  | .push client called => if client.workerId = i then if called then 15 else 16 else 0
  | .send index => if index = i then 7 else 0

/-- A main thread in its loop owes nobody steps. -/
@[simp] theorem Main.steps_loop (i : Fin workerNum) : Main.steps i .loop = 0 := rfl

/-- One that is about to push owes the worker of the link all that a link costs. -/
@[simp] theorem Main.steps_push (i : Fin workerNum) (client : ClientLink workerNum) (called : Bool) :
    Main.steps i (.push client called) = if client.workerId = i then if called then 15 else 16 else 0 := rfl

/-- A call that begins is a step less. -/
theorem Phase.begun_steps {phase phase' : Phase workerNum} (begins : phase.begun = some phase') :
    phase'.steps + 1 = phase.steps := by
  cases phase with
  | loop => cases begins
  | empty called => cases called <;> cases begins; rfl
  | front called => cases called <;> cases begins; rfl
  | popFront nc called => cases called <;> cases begins; rfl
  | start nc => cases begins

/-- A bound on the steps still to be taken for one worker when nothing new arrives. -/
def Acceptor.load (s : Acceptor workerNum) (i : Fin workerNum) : Nat :=
  7 * (s.workers i).conns.length + 6 * (s.workers i).async.toNat + (s.workers i).phase.steps + s.main.steps i

/-- The steps still to be taken for all workers. -/
def Acceptor.work (s : Acceptor workerNum) : Nat := ∑ i, s.load i

/-- A step that takes nothing from the kernel. -/
def Event.serves : Event workerNum → Nat
  | .onAccept _ | .onAcceptRc _ => 0
  | _ => 1

/-- When a step leaves every other load as it is, the work changes by the load of one worker. -/
theorem work_changed (s s' : Acceptor workerNum) (j : Fin workerNum) (same : ∀ i, i ≠ j → s'.load i = s.load i) :
    s'.work + s.load j = s.work + s'.load j := by
  have rest : ∑ i ∈ Finset.univ.erase j, s'.load i = ∑ i ∈ Finset.univ.erase j, s.load i :=
    Finset.sum_congr rfl fun i among => same i (Finset.ne_of_mem_erase among)
  rw [Acceptor.work, Acceptor.work, ← Finset.add_sum_erase _ s.load (Finset.mem_univ j),
    ← Finset.add_sum_erase _ s'.load (Finset.mem_univ j), rest]
  omega

/-- A worker's turn takes one step at least off what its place and its deque lead to. A link in
the deque leads to seven steps, and a bell that is rung to six. -/
theorem Turn.paid {w w' : ConnectWorker workerNum} {j : Fin workerNum} {event : Event workerNum}
    (turn : Turn w j event w') :
    event.serves = 1 ∧ 1 + (7 * w'.conns.length + 6 * w'.async.toNat + w'.phase.steps) ≤
      7 * w.conns.length + 6 * w.async.toNat + w.phase.steps := by
  cases turn with
  | woken phase sent => simp [Event.serves, phase, sent, Phase.steps]; omega
  | called phase begins =>
    have less := Phase.begun_steps begins
    exact ⟨rfl, by dsimp only; omega⟩
  | drained phase nothing => simp [Event.serves, phase, Phase.steps]; omega
  | found nc conns phase filled => simp [Event.serves, phase, Phase.steps]; omega
  | fronted nc conns phase filled => simp [Event.serves, phase, Phase.steps]; omega
  | popped nc first conns phase filled => simp [Event.serves, phase, filled, Phase.steps]; omega
  | started nc phase => simp [Event.serves, phase, Phase.steps]; omega

/-- A step changes the load of one worker at most; serving takes a step off it, and a
connection accepted adds sixteen to it. -/
theorem Way.paid {s s' : Acceptor workerNum} {event : Event workerNum} (way : Way s event s') :
    event.serves + s'.work ≤ s.work + 16 * event.connects := by
  cases way with
  | refused idle => simp [Event.serves]
  | refusedRc idle => simp [Event.serves]
  | accepted fd j idle turn =>
    have changed := work_changed s { s with main := .push ⟨j, fd⟩ false } j
      (fun i other => by simp [Acceptor.load, idle, Ne.symm other])
    simp only [Event.serves, Event.connects]
    simp only [Acceptor.load, idle, Main.steps_loop, Main.steps_push, if_true, Bool.false_eq_true, if_false] at changed
    omega
  | peer fd idle room => simp [Event.serves, Event.connects, Acceptor.work, Acceptor.load]
  | called client accepted =>
    have changed := work_changed s { s with
        main := .push client true, raced := (s.workers client.workerId).phase.calls } client.workerId
      (fun i other => by simp [Acceptor.load, accepted, Ne.symm other])
    simp only [Event.serves, Event.connects]
    simp only [Acceptor.load, accepted, Main.steps_push, if_true, Bool.false_eq_true, if_false] at changed
    omega
  | pushed client accepted =>
    have changed := work_changed s { s with
        workers := Function.update s.workers client.workerId
          { s.workers client.workerId with conns := (s.workers client.workerId).conns ++ [client] },
        main := .send client.workerId } client.workerId
      (fun i other => by simp [Acceptor.load, accepted, Main.steps, Ne.symm other, other])
    simp only [Event.serves, Event.connects]
    simp only [Acceptor.load, accepted, Main.steps, Function.update_self, List.length_append, List.length_singleton,
      if_true] at changed
    omega
  | sent j pushed room =>
    have changed := work_changed s { s with
        workers := Function.update s.workers j { s.workers j with async := true },
        main := .loop,
        connectNums := s.connectNums + 1 } j
      (fun i other => by simp [Acceptor.load, pushed, Main.steps, Ne.symm other, other])
    simp only [Event.serves, Event.connects]
    simp only [Acceptor.load, pushed, Main.steps, Function.update_self, Bool.toNat_true, if_true] at changed
    omega
  | worked j _ w turn =>
    have changed := work_changed s
      { s with workers := Function.update s.workers j w, raced := w.phase.calls && s.main.calls j } j
      (fun i other => by simp [Acceptor.load, other])
    obtain ⟨serves, less⟩ := turn.paid
    have quiet : event.connects = 0 := (turn.quiet j s).2.1
    simp only [Acceptor.load, Function.update_self] at changed
    omega

/-- A main thread that cannot go on is in its event loop, while the counter has room. A call of
its own can always begin and end when there is no race. -/
theorem Main.at_rest {s : Acceptor workerNum} (alone : s.raced = false) (room : s.connectNums + 1 < 2 ^ 31)
    (still : ∀ event : Event workerNum, event.serves = 1 → s.step event = none) : s.main = .loop := by
  cases place : s.main with
  | loop => rfl
  | push client called =>
    cases called with
    | false =>
      have calling := still .callPushBack rfl
      simp [Acceptor.step, alone, place] at calling
    | true =>
      have pushing := still .pushBack rfl
      simp [Acceptor.step, alone, place] at pushing
  | send i =>
    have sending := still .send rfl
    have counted : increment s.connectNums = some (s.connectNums + 1) := if_pos room
    simp [Acceptor.step, alone, place, counted] at sending

/-- A worker that cannot go on is in its event loop with no signal to deliver. A call that has
not begun can begin, and one that has begun can end. -/
theorem ConnectWorker.at_rest {w : ConnectWorker workerNum} (i : Fin workerNum) (fronted : w.Fronted)
    (still : ∀ event : Event workerNum, event.worker = some i → w.step event = none) :
    w.phase = .loop ∧ w.async = false := by
  have calling := still (.call i) rfl
  cases place : w.phase with
  | loop =>
    refine ⟨rfl, ?_⟩
    have waking := still (.onAsync i) rfl
    cases sent : w.async with
    | false => rfl
    | true => simp [ConnectWorker.step, place, sent] at waking
  | empty called =>
    have looking := still (.empty i) rfl
    cases called with
    | false => simp [ConnectWorker.step, place, Phase.begun] at calling
    | true => cases shape : w.conns <;> simp [ConnectWorker.step, place, shape] at looking
  | front called =>
    have taking := still (.front i) rfl
    obtain ⟨nc, conns, shape⟩ := List.exists_cons_of_ne_nil (fronted.front called place)
    cases called with
    | false => simp [ConnectWorker.step, place, Phase.begun] at calling
    | true => simp [ConnectWorker.step, place, shape] at taking
  | popFront nc called =>
    have popping := still (.popFront i) rfl
    obtain ⟨conns, shape⟩ := List.head?_eq_some_iff.mp (fronted.popFront nc called place)
    cases called with
    | false => simp [ConnectWorker.step, place, Phase.begun] at calling
    | true => simp [ConnectWorker.step, place, shape] at popping
  | start nc =>
    have starting := still (.start i) rfl
    simp [ConnectWorker.step, place] at starting

/-- Over every run from the start without a race, the steps of serving, beginnings and ends of
calls among them, are at most sixteen for each connection. When the run has reached a state in
which nothing is left to do for a connection taken, every client link accepted is started by
the worker whose turn it was, each once and in the order of acceptance.

Proof: the load of a worker is what its place and its deque still lead to; an accept adds
sixteen, and each step of serving takes one off. At rest the bell of a worker is silent, so its
deque is empty and its share is what it has started. -/
theorem accepted_served (connNums : Fin workerNum → UInt64) (last : Acceptor workerNum)
    (events : List (Event workerNum)) (ran : run Acceptor.step (.fresh connNums) events = some last)
    (alone : last.raced = false) :
    (events.map Event.serves).sum ≤ 16 * (events.map Event.connects).sum ∧
      (last.connectNums + 1 < 2 ^ 31 → (∀ event : Event workerNum, event.serves = 1 → last.step event = none) →
        ∀ i, (last.workers i).started = share i (arrivals 0 events)) := by
  constructor
  · have within := run_within Acceptor.work Event.serves (fun event => 16 * event.connects) (fun _ => True)
      (fun _ _ _ _ _ => trivial) (fun _ _ _ _ stepped => (Acceptor.step_way stepped).paid) _ _ _ trivial ran
    have idle : Acceptor.work (.fresh connNums) = 0 := by
      simp [Acceptor.work, Acceptor.load, Acceptor.fresh, ConnectWorker.fresh, Phase.steps]
    have scaled : (events.map fun event => 16 * event.connects).sum = 16 * (events.map Event.connects).sum :=
      List.sum_map_mul_left ..
    omega
  · intro room still i
    have place := Main.at_rest alone room still
    have worker : ∀ event : Event workerNum, event.worker = some i → (last.workers i).step event = none := by
      intro event mine
      have stuck := still event (by cases event <;> simp_all [Event.worker, Event.serves])
      cases event <;> simp_all [Event.worker, Acceptor.step]
    obtain ⟨looping, unsent⟩ := ConnectWorker.at_rest i (reached_fronted connNums last events ran i) worker
    have drained : (last.workers i).conns = [] := by
      by_contra filled
      rcases reached_heard connNums last events ran i filled with sent | announced | draining
      · exact Bool.false_ne_true (unsent.symm.trans sent)
      · cases place.symm.trans announced
      · exact draining looping
    have whole := run_share i _ _ _ (fresh_fronted connNums i) ran
    simpa [Mailbox.items, Acceptor.mailbox, Acceptor.taken, Acceptor.fresh, ConnectWorker.fresh, looping, drained, place,
      Phase.hand, Main.held] using whole

/-- The run of three connections to its end, where every thread is in its event loop. The first
worker has started the first and the third. -/
theorem accepted_served_three : ∃ last, run Acceptor.step (.fresh fun _ => 5) threeConnections = some last ∧
    (last.workers ⟨0, Nat.two_pos⟩).started = [⟨⟨0, Nat.two_pos⟩, 7⟩, ⟨⟨0, Nat.two_pos⟩, 9⟩] := by
  obtain ⟨last, ran⟩ := Option.isSome_iff_exists.mp
    (show (run Acceptor.step (.fresh fun _ => 5) threeConnections).isSome = true by decide)
  have seen : (run Acceptor.step (.fresh fun _ => 5) threeConnections).all (fun s =>
      s.raced = false && s.connectNums = 3 && s.main = .loop &&
        (List.finRange 2).all fun i => (s.workers i).phase = .loop && (s.workers i).async = false) = true := by
    decide
  simp only [ran, Option.all_some, Bool.and_eq_true, decide_eq_true_eq, List.all_eq_true] at seen
  obtain ⟨⟨⟨alone, counted⟩, main⟩, workers⟩ := seen
  refine ⟨last, ran, ((accepted_served _ last _ ran alone).2 ?_ ?_ _).trans (by decide)⟩
  · rw [counted]
    decide
  · intro event serves
    cases event with
    | onAccept fd => cases serves
    | onAcceptRc fd => cases serves
    | callPushBack => simp [Acceptor.step, main, Event.worker]
    | pushBack => simp [Acceptor.step, main, Event.worker]
    | send => simp [Acceptor.step, main, Event.worker]
    | onAsync i => simp [Acceptor.step, main, Event.worker, ConnectWorker.step, workers i (List.mem_finRange i)]
    | call i =>
      simp [Acceptor.step, main, Event.worker, ConnectWorker.step, workers i (List.mem_finRange i), Phase.begun]
    | empty i => simp [Acceptor.step, main, Event.worker, ConnectWorker.step, workers i (List.mem_finRange i)]
    | front i => simp [Acceptor.step, main, Event.worker, ConnectWorker.step, workers i (List.mem_finRange i)]
    | popFront i => simp [Acceptor.step, main, Event.worker, ConnectWorker.step, workers i (List.mem_finRange i)]
    | start i => simp [Acceptor.step, main, Event.worker, ConnectWorker.step, workers i (List.mem_finRange i)]

end Naruto.Server
