import Naruto.Link.SessionOrder

/-!
# The client library

A call of `Kunai` builds its message and gives it to `execute`, which sends one packet on
a connection of the pool, receives one packet and parses it. It looks neither at the type
of what it receives nor at which call it answers: that the reply is its own rests on the
order of the replies, and on a connection that has thrown never being released to the
pool again. Here the calls run against the server with all its links.
-/

namespace Naruto.Clients

open Naruto.Theory Naruto.Utils Naruto.Command Naruto.Replication Naruto.Link

/-- `CLIENT_HINCR`. -/
def clientHincr : UInt16 := 2002

/-- `client::command_hincr`. -/
structure CommandHincr where
  key : Str
  field : Str
  value : CommandData
deriving DecidableEq, Repr

/-- The calls of `Kunai`: the overloads of `hset` are for strings, integers and floats, those
of `hincr` for floats and integers. -/
inductive Call
  | hget (key : Str) (fields : List Str)
  | slaveof (ip : String) (port : Int32)
  | hset (key field : Str) (v : CommandData)
  | hincrFloat (key field : Str) (v : UInt32)
  | hincrInt (key field : Str) (v : Int64)
deriving DecidableEq

/-- protobuf, for the messages that the calls send. -/
structure Requests where
  hget : CommandHget → List UInt8
  slaveof : CommandSlaveof → List UInt8
  hset : CommandHset → List UInt8
  hincr : CommandHincr → List UInt8

/-- The type that a call gives to `execute`. -/
def Call.type : Call → UInt16
  | .hget _ _ => clientHget
  | .slaveof _ _ => replSlaveof
  | .hset _ _ _ => clientHset
  | .hincrFloat _ _ _ => clientHincr
  | .hincrInt _ _ _ => clientHincr

/-- The message of a call, as protobuf serialises it. -/
def Call.body (requests : Requests) : Call → List UInt8
  | .hget key fields => requests.hget ⟨key, fields⟩
  | .slaveof ip port => requests.slaveof ⟨ip, port.toInt64⟩
  | .hset key field v => requests.hset ⟨key, field, 0, some v⟩
  | .hincrFloat key field v => requests.hincr ⟨key, field, .floatV v⟩
  | .hincrInt key field v => requests.hincr ⟨key, field, .int64V v⟩

/-- `Pack::serialize(msg, type, pack)` in `execute`: the packet that is sent. -/
def Call.pack (requests : Requests) (call : Call) : Option Pack :=
  (Pack.serializeMessage Pack.raw (call.body requests) call.type Bytes.cleared).bind fun pack => packOf pack.buf

/-- The client's end of a connection: the packet of the `execute` that has it, with what of
it is not sent yet; whether that `execute` has thrown; how much has been received; and the
packets sent and received by those that have returned. -/
structure Conn where
  executing : Option Pack
  unsent : List UInt8
  threw : Bool
  read : Nat
  returned : List (Pack × Pack)

/-- The packets of the calls on a connection. -/
def Conn.packets (conn : Conn) : List Pack := conn.returned.map Prod.fst ++ conn.executing.toList

/-- The server with its links, and the client's ends of the connections. -/
structure Calls (m : Nat) where
  sessions : Sessions m
  conns : Nat → Conn

variable {m : Nat}

namespace Calls

/-- What happens: something at the server; a call gets a connection from the pool; a piece
of its packet is sent; its `recv` returns; or its `send` or `recv` throws. -/
inductive Event (m : Nat)
  | server (event : Sessions.Event m)
  | execute (c : Nat) (call : Call)
  | send (c n : Nat)
  | recv (c : Nat) (results : List Nat)
  | throws (c : Nat)

/-- The client's end of a connection becomes another. -/
def setConn (s : Calls m) (c : Nat) (conn : Conn) : Calls m :=
  { s with conns := Function.update s.conns c conn }

/-- One event. What the peers of the links send comes from the calls alone. A call takes a
connection that has none and has not thrown, sends its packet in pieces, and returns with the
reply that `recv` makes of what the peer has received. It may throw as long as it runs. -/
def step (msgs : Messages) (requests : Requests) (s : Calls m) : Event m → Option (Calls m)
  | .server (.arrive _ _) => none
  | .server event => (s.sessions.step msgs event).map fun sessions => { s with sessions := sessions }
  | .execute c call =>
    let conn := s.conns c
    if conn.executing = none ∧ conn.threw = false then
      (call.pack requests).map fun pack =>
        s.setConn c { conn with executing := some pack, unsent := pack.serialize }
    else none
  | .send c n =>
    let conn := s.conns c
    if conn.threw = false ∧ 0 < n ∧ n ≤ conn.unsent.length then
      (s.sessions.step msgs (.arrive c (conn.unsent.take n))).map fun sessions =>
        { s with sessions := sessions }.setConn c { conn with unsent := conn.unsent.drop n }
    else none
  | .recv c results =>
    let conn := s.conns c
    match conn.executing, Connection.recv results ((s.sessions.peers c).received.drop conn.read) with
    | some request, .returned pack [] _ =>
      if conn.threw = false ∧ conn.unsent = [] then
        (packOf pack.buf).map fun reply =>
          s.setConn c { conn with
            executing := none
            read := conn.read + pack.buf.length
            returned := conn.returned ++ [(request, reply)] }
      else none
    | _, _ => none
  | .throws c =>
    let conn := s.conns c
    if conn.executing = none then none else some (s.setConn c { conn with threw := true })

/-- A server without connections, and clients without calls. -/
def fresh (slave : Slave m) : Calls m := ⟨Sessions.fresh slave, fun _ => ⟨none, [], false, 0, []⟩⟩

end Calls

/-! ### Packets that follow one another -/

/-- Two streams that begin with a packet begin with the same one. -/
theorem serialize_append_inj {p q : Pack} {rest rest' : List UInt8}
    (same : p.serialize ++ rest = q.serialize ++ rest') : p = q ∧ rest = rest' := by
  have word : ∀ (p : Pack) (rest : List UInt8), leNat ((p.serialize ++ rest).take 4) = p.size := by
    intro p rest
    have header := p.head_le_size
    rw [List.take_append_of_le_length (by rw [Pack.serialize_length]; omega)]
    exact p.serialize_fields.1
  have size : p.size = q.size := by rw [← word p rest, same, word q rest']
  have lengths : p.serialize.length = q.serialize.length := by
    rw [Pack.serialize_length, Pack.serialize_length, size]
  obtain ⟨bytes, behind⟩ := List.append_inj same lengths
  exact ⟨Option.some.inj ((packOf_serialize p).symm.trans (bytes ▸ packOf_serialize q)), behind⟩

/-- A stream of packets that is the beginning of another is that of the first packets. By
induction on the packets: the length word of each says where it ends, so the two streams have
the same first packet. -/
theorem prefix_of_encodeAll {ps qs : List Pack} (bytes : Pack.encodeAll ps <+: Pack.encodeAll qs) : ps <+: qs := by
  induction ps generalizing qs with
  | nil => exact List.nil_prefix
  | cons p ps ih =>
    obtain ⟨rest, same⟩ := bytes
    rw [Pack.encodeAll_cons, List.append_assoc] at same
    cases qs with
    | nil =>
      have length := congrArg List.length same
      have header := p.head_le_size
      rw [List.length_append, Pack.serialize_length, Pack.encodeAll_nil, List.length_nil] at length
      omega
    | cons q qs =>
      rw [Pack.encodeAll_cons] at same
      obtain ⟨rfl, later⟩ := serialize_append_inj same
      exact (List.cons_prefix_cons).mpr ⟨rfl, ih ⟨rest, later⟩⟩

/-- The packet of a call has its type and its body, and flag zero. -/
theorem Call.pack_some {requests : Requests} {call : Call} {p : Pack} (packed : call.pack requests = some p) :
    p.flag = 0 ∧ p.type = call.type ∧ p.body = call.body requests := by
  obtain ⟨pack, written, found⟩ := Option.bind_eq_some_iff.mp packed
  obtain ⟨room, rfl⟩ := serializeMessage_some (by decide) (Bytes.cleared_eq ▸ written)
  have body : Pack.raw.serialize (call.body requests) = call.body requests := rfl
  rw [body, List.nil_append] at room found
  have fits : 8 + (call.body requests).length < 2 ^ 32 := by
    simp only [List.length_append, leBytes_length] at room
    omega
  have whole := packOf_serialize ⟨0, call.type, call.body requests, fits⟩
  obtain rfl := Option.some.inj (whole.symm.trans found)
  exact ⟨rfl, rfl, rfl⟩

namespace Calls

open Sessions (exchanges exchange arrived)

/-! ### What has been sent and received for the calls -/

/-- An exchange of the server, seen from the call that it answers: one message of the server
answers its packet, and is what the call receives. -/
structure Answers (msgs : Messages) (call : Pack × Pack) (exchange : Pack × List (UInt16 × Reply)) : Prop where
  asked : exchange.1 = call.1
  answered : exchange.2.map (fun message => (message.1, msgs.serialize message.2)) = [(call.2.type, call.2.body)]
  flag : call.2.flag = 0

/-- The client's end of a connection after some events of the server: its packets have been
sent up to what is unsent, and what it has received are the replies that its calls have
returned with. -/
structure Linked (events : List (Sessions.Event m)) (s : Sessions m) (c : Nat) (conn : Conn) : Prop where
  sent : events.flatMap (arrived c) ++ conn.unsent = Pack.encodeAll conn.packets
  idle : conn.executing = none → conn.unsent = []
  asks : ∀ p ∈ conn.packets, replyType p.type ≠ none
  inside : conn.read ≤ (s.peers c).received.length
  read : (s.peers c).received.take conn.read = Pack.encodeAll (conn.returned.map Prod.snd)

/-- The server has run, and every connection is linked to its run. -/
structure Inv (msgs : Messages) (slave : Slave m) (s : Calls m) (events : List (Sessions.Event m)) : Prop where
  ran : run (Sessions.step msgs) (Sessions.fresh slave) events = some s.sessions
  linked : ∀ c, Linked events s.sessions c (s.conns c)

variable {msgs : Messages} {requests : Requests} {slave : Slave m} {s s' : Calls m}
  {events : List (Sessions.Event m)} {sessions sessions' : Sessions m} {c : Nat} {conn conn' : Conn}

/-- The calls of the library are all answered. -/
theorem replyType_call (call : Call) : replyType call.type ≠ none := by
  cases call <;> simp [replyType, Call.type, clientHget, clientHset, clientHincr, replSlaveof, replPing, replPong]

/-- An event of the server brings what arrives, and what has been received stays. The calls are
where they were, so what they have sent is what arrived before, what arrives now and what is
still under way. -/
theorem Linked.grows (linked : Linked events sessions c conn) {event : Sessions.Event m}
    (more : (sessions.peers c).received <+: (sessions'.peers c).received)
    (arrives : arrived c event ++ conn'.unsent = conn.unsent)
    (same : conn'.executing = conn.executing ∧ conn'.read = conn.read ∧ conn'.returned = conn.returned) :
    Linked (events ++ [event]) sessions' c conn' := by
  obtain ⟨executing, read, returned⟩ := same
  have packets : conn'.packets = conn.packets := by rw [Conn.packets, executing, returned, Conn.packets]
  refine ⟨?_, fun idle => ?_, by rw [packets]; exact linked.asks, ?_, ?_⟩
  · rw [List.flatMap_append, List.append_assoc, packets, ← linked.sent, List.flatMap_singleton, arrives]
  · rw [linked.idle (executing ▸ idle)] at arrives
    exact (List.append_eq_nil_iff.mp arrives).2
  · rw [read]
    exact Nat.le_trans linked.inside more.length_le
  · obtain ⟨rest, more⟩ := more
    rw [read, returned, ← more, List.take_append_of_le_length linked.inside]
    exact linked.read

/-- A call gets the connection. Nothing of an earlier packet is under way then, so what is under
way is its own packet. -/
theorem Linked.executes (linked : Linked events sessions c conn) (free : conn.executing = none) {p : Pack}
    (asks : replyType p.type ≠ none) :
    Linked events sessions c { conn with executing := some p, unsent := p.serialize } where
  sent := by
    have before := linked.sent
    rw [linked.idle free, Conn.packets, free, List.append_nil, Option.toList_none, List.append_nil] at before
    simp [Conn.packets, before]
  idle := nofun
  asks := fun q among => by
    rcases List.mem_append.mp among with earlier | own
    · exact linked.asks q (List.mem_append_left _ earlier)
    · obtain rfl := List.mem_singleton.mp own
      exact asks
  inside := linked.inside
  read := linked.read

/-- What `recv` returns is the packet behind what has been received, and the call returns with
it. The bytes that have been received and not read begin with the first reply that is not read,
since the received bytes are packets. -/
theorem Linked.receives (linked : Linked events sessions c conn) {p : Pack} (executing : conn.executing = some p)
    (sent : conn.unsent = []) {results : List Nat} {pack : Bytes} {rest : List UInt8}
    (received : Connection.recv results ((sessions.peers c).received.drop conn.read) = .returned pack [] rest) :
    ∃ reply : Pack, pack = Bytes.filled reply.serialize 0 ∧
      Linked events sessions c { conn with
        executing := none
        read := conn.read + reply.serialize.length
        returned := conn.returned ++ [(p, reply)] } := by
  obtain ⟨reply, rfl, split⟩ := readLoop_packet [] 8 _ results (by decide) pack [] rest received
  rw [List.nil_append] at split
  refine ⟨reply, rfl, ?_⟩
  have packets : Conn.packets ⟨none, conn.unsent, conn.threw, conn.read + reply.serialize.length,
      conn.returned ++ [(p, reply)]⟩ = conn.packets := by
    simp [Conn.packets, executing]
  refine ⟨by rw [packets]; exact linked.sent, fun _ => sent, by rw [packets]; exact linked.asks, ?_, ?_⟩
  · have length := congrArg List.length split
    have inside := linked.inside
    rw [List.length_drop, List.length_append] at length
    dsimp only
    omega
  · rw [List.take_add, linked.read, split, List.take_left, List.map_append, Pack.encodeAll_append]
    simp

/-- Changing a connection of the client leaves the server alone. -/
@[simp] theorem setConn_sessions (s : Calls m) (c : Nat) (conn : Conn) : (s.setConn c conn).sessions = s.sessions :=
  rfl

/-- It changes that connection only. -/
@[simp] theorem setConn_conns (s : Calls m) (c : Nat) (conn : Conn) :
    (s.setConn c conn).conns = Function.update s.conns c conn := rfl

/-- Only the client's end of a connection changes. -/
theorem Inv.setConn (inv : Inv msgs slave s events) (linked : Linked events s.sessions c conn) :
    Inv msgs slave (s.setConn c conn) events where
  ran := inv.ran
  linked := fun c' => by
    by_cases here : c' = c
    · obtain rfl := here
      rw [setConn_conns, Function.update_self]
      exact linked
    · rw [setConn_conns, Function.update_of_ne here]
      exact inv.linked c'

/-- A step of the server. It answers in order, and what arrives at a link comes from the call
that has not sent it yet. -/
theorem Inv.serves {inner : Sessions.Event m} {sessions' : Sessions m} (inv : Inv msgs slave s events)
    (conns : Nat → Conn) (ran : s.sessions.step msgs inner = some sessions')
    (same : ∀ c, arrived c inner ++ (conns c).unsent = (s.conns c).unsent ∧
      (conns c).executing = (s.conns c).executing ∧ (conns c).read = (s.conns c).read ∧
      (conns c).returned = (s.conns c).returned) :
    Inv msgs slave ⟨sessions', conns⟩ (events ++ [inner]) := by
  refine ⟨?_, fun c => ?_⟩
  · rw [run_append, inv.ran, Option.bind_some, run_cons, ran]
    rfl
  · exact (inv.linked c).grows (Sessions.received_grows (Sessions.inv_of_run slave events inv.ran) c ran)
      (same c).1 (same c).2

/-- The inner events of a step: none, or one of the server. A step of the server is an inner
event itself, a send is an arrival at its link, and the other steps of a call move the call
alone. -/
theorem Inv.step {event : Event m} (inv : Inv msgs slave s events) (stepped : step msgs requests s event = some s') :
    ∃ more, Inv msgs slave s' (events ++ more) := by
  cases event with
  | server inner =>
    have quiet : (∀ c, arrived c inner = []) ∧ ∃ sessions', s.sessions.step msgs inner = some sessions' ∧
        s' = { s with sessions := sessions' } := by
      cases inner with
      | arrive => cases stepped
      | _ =>
        simp only [Calls.step] at stepped
        obtain ⟨sessions', ran, rfl⟩ := Option.map_eq_some_iff.mp stepped
        exact ⟨fun _ => rfl, sessions', ran, rfl⟩
    obtain ⟨nothing, sessions', ran, rfl⟩ := quiet
    exact ⟨[inner], inv.serves s.conns ran fun c => ⟨by rw [nothing c, List.nil_append], rfl, rfl, rfl⟩⟩
  | execute c call =>
    obtain ⟨⟨free, _⟩, rest⟩ := Option.ite_none_right_eq_some.mp stepped
    obtain ⟨p, packed, rfl⟩ := Option.map_eq_some_iff.mp rest
    refine ⟨[], ?_⟩
    rw [List.append_nil]
    refine inv.setConn ((inv.linked c).executes free ?_)
    rw [(Call.pack_some packed).2.1]
    exact replyType_call call
  | send c n =>
    obtain ⟨⟨_, _, inside⟩, rest⟩ := Option.ite_none_right_eq_some.mp stepped
    obtain ⟨sessions', ran, rfl⟩ := Option.map_eq_some_iff.mp rest
    refine ⟨[.arrive c ((s.conns c).unsent.take n)], inv.serves _ ran fun c' => ?_⟩
    by_cases here : c = c'
    · obtain rfl := here
      simp [arrived, List.take_append_drop]
    · simp [arrived, here, Function.update_of_ne (Ne.symm here)]
  | recv c results =>
    simp only [Calls.step] at stepped
    split at stepped
    case h_1 _ _ request pack rest executing received =>
      obtain ⟨⟨_, sent⟩, taken⟩ := Option.ite_none_right_eq_some.mp stepped
      obtain ⟨reply, packed, rfl⟩ := Option.map_eq_some_iff.mp taken
      obtain ⟨reply', rfl, linked⟩ := (inv.linked c).receives executing sent received
      obtain rfl := Option.some.inj ((packOf_serialize reply').symm.trans packed)
      refine ⟨[], ?_⟩
      rw [List.append_nil]
      exact inv.setConn linked
    case h_2 => cases stepped
  | throws c =>
    obtain ⟨_, rest⟩ := Option.ite_none_left_eq_some.mp stepped
    obtain rfl := Option.some.inj rest
    refine ⟨[], ?_⟩
    rw [List.append_nil]
    have linked := inv.linked c
    exact inv.setConn ⟨linked.sent, linked.idle, linked.asks, linked.inside, linked.read⟩

/-- The invariant holds before the first event: no connection has a call, and no link is open. -/
theorem inv_fresh (msgs : Messages) (slave : Slave m) : Inv msgs slave (fresh slave) [] where
  ran := rfl
  linked := fun _ => ⟨rfl, fun _ => rfl, nofun, Nat.zero_le _, rfl⟩

/-- Every run of the calls is over a run of the server. -/
theorem inv_of_run (calls : List (Event m)) (ran : run (step msgs requests) (fresh slave) calls = some s) :
    ∃ events, Inv msgs slave s events :=
  run_preserves (fun s => ∃ events, Inv msgs slave s events)
    (fun _ _ _ ⟨_, inv⟩ stepped => let ⟨_, inv'⟩ := inv.step stepped; ⟨_, inv'⟩) (fresh slave) s calls
    ⟨[], inv_fresh msgs slave⟩ ran

/-- Exchanges with one message each are pairs of a packet and a message. -/
theorem pairs_of_single {exchanges : List (Pack × List (UInt16 × Reply))}
    (single : ∀ x ∈ exchanges, ∃ message, x.2 = [message]) :
    ∃ pairs : List (Pack × (UInt16 × Reply)), exchanges = pairs.map fun pair => (pair.1, [pair.2]) := by
  induction exchanges with
  | nil => exact ⟨[], rfl⟩
  | cons exchange exchanges ih =>
    obtain ⟨pairs, rfl⟩ := ih fun x among => single x (List.mem_cons_of_mem _ among)
    obtain ⟨message, only⟩ := single exchange List.mem_cons_self
    exact ⟨(exchange.1, message) :: pairs, by rw [List.map_cons, ← only]⟩

/-- Calls whose packets are asked and whose replies are the messages, one by one, are
answered. -/
theorem answers_of_pairs {calls : List (Pack × Pack)} {pairs : List (Pack × (UInt16 × Reply))}
    (asked : pairs.map Prod.fst = calls.map Prod.fst)
    (answered : calls.map (fun call => (call.2.flag, call.2.type, call.2.body)) =
      pairs.map fun pair => (0, pair.2.1, msgs.serialize pair.2.2)) :
    List.Forall₂ (Answers msgs) calls (pairs.map fun pair => (pair.1, [pair.2])) := by
  induction calls generalizing pairs with
  | nil =>
    obtain rfl := List.map_eq_nil_iff.mp asked
    exact .nil
  | cons call calls ih =>
    cases pairs with
    | nil => cases asked
    | cons pair pairs =>
      obtain ⟨packet, askedLater⟩ := List.cons.inj asked
      obtain ⟨reply, answeredLater⟩ := List.cons.inj answered
      simp only [Prod.mk.injEq] at reply
      refine .cons ⟨packet, ?_, reply.1⟩ (ih askedLater answeredLater)
      rw [List.map_singleton, reply.2.1, reply.2.2]

/-- The server handles the packets of the calls, in their order. -/
theorem Inv.asked (inv : Inv msgs slave s events) (c : Nat) :
    (exchanges msgs slave c events).map Prod.fst <+: (s.conns c).packets := by
  refine prefix_of_encodeAll ((Sessions.run_exchanges msgs slave events s.sessions inv.ran c).1.asked.trans ?_)
  rw [← (inv.linked c).sent]
  exact List.prefix_append _ _

/-- What is on the left of two lists that correspond has something on the right. -/
theorem forall₂_mem {α β : Type*} {related : α → β → Prop} {xs : List α} {ys : List β}
    (each : List.Forall₂ related xs ys) {x : α} (among : x ∈ xs) : ∃ y ∈ ys, related x y := by
  induction each with
  | nil => cases among
  | cons here _ ih =>
    rcases List.mem_cons.mp among with rfl | later
    · exact ⟨_, List.mem_cons_self, here⟩
    · obtain ⟨y, member, holds⟩ := ih later
      exact ⟨y, List.mem_cons_of_mem _ member, holds⟩

/-- The calls that have returned are answered by the first exchanges of their connection:
the packets handled are those of the calls in their order, each has one reply, and what
has been received is the beginning of the replies. -/
theorem Inv.answers (inv : Inv msgs slave s events) (c : Nat) :
    List.Forall₂ (Answers msgs) (s.conns c).returned
      ((exchanges msgs slave c events).take (s.conns c).returned.length) := by
  obtain ⟨accounts, proper⟩ := Sessions.run_exchanges msgs slave events s.sessions inv.ran c
  obtain ⟨replies, bytes, bodies⟩ := Sessions.replies_of_proper proper
  have linked := inv.linked c
  have asked := inv.asked c
  have received : (s.conns c).returned.map Prod.snd <+: replies := by
    refine prefix_of_encodeAll ?_
    rw [← linked.read, ← bytes]
    exact (List.take_prefix _ _).trans accounts.written
  have single : ∀ x ∈ exchanges msgs slave c events, ∃ message, x.2 = [message] := by
    intro x among
    obtain ⟨type, known⟩ := Option.ne_none_iff_exists'.mp
      (linked.asks x.1 (asked.subset (List.mem_map_of_mem among)))
    have types := (proper x among).types
    rw [known] at types
    obtain ⟨message, rest, only, _, nothing⟩ := List.map_eq_cons_iff.mp types
    rw [List.map_eq_nil_iff.mp nothing] at only
    exact ⟨message, only⟩
  obtain ⟨pairs, split⟩ := pairs_of_single single
  have flat : (pairs.map fun pair => (pair.1, [pair.2])).flatMap Prod.snd = pairs.map Prod.snd := by
    rw [List.flatMap_map]
    exact (List.map_eq_flatMap).symm
  rw [split, flat, List.map_map] at bodies
  rw [split, List.map_map] at asked
  have enough : (s.conns c).returned.length ≤ pairs.length := by
    have lengths := congrArg List.length bodies
    have short := received.length_le
    rw [List.length_map] at short
    rw [List.length_map, List.length_map] at lengths
    omega
  rw [split, ← List.map_take]
  refine answers_of_pairs ?_ ?_
  · have first : (pairs.map Prod.fst).take (s.conns c).returned.length =
        (s.conns c).packets.take (s.conns c).returned.length := by
      obtain ⟨rest, whole⟩ := asked
      rw [← whole, List.take_append_of_le_length (by rw [List.length_map]; exact enough)]
      rfl
    rw [List.map_take, first, Conn.packets, List.take_left' (List.length_map _)]
  · have first : (s.conns c).returned.map Prod.snd = replies.take (s.conns c).returned.length := by
      rw [List.prefix_iff_eq_take.mp received, List.length_map]
    have taken := congrArg (List.take (s.conns c).returned.length) bodies
    rw [← List.map_take, ← List.map_take, ← first, List.map_map] at taken
    exact taken

/-- In every run of the calls over the server with all its links, on every connection: the
packets that the server handles are those of the calls, each once and in their order, and the
k-th call that has returned has the reply to its own packet, the one message with which the
server has answered it, whatever the pieces in which bytes are sent and received, what the
other connections do and which calls have thrown. An `hincr` returns with the refusal, since
its type is not registered.

Proof: the calls of the clients make a run of the server, whose replies are in order. A
connection has one call at a time and sends nothing more behind one that has thrown, so the
first replies it reads belong to its first calls. -/
theorem calls_answered (msgs : Messages) (requests : Requests) (slave : Slave m) (calls : List (Event m))
    (s : Calls m) (ran : run (step msgs requests) (fresh slave) calls = some s) :
    ∃ events, run (Sessions.step msgs) (Sessions.fresh slave) events = some s.sessions ∧ ∀ c,
      (exchanges msgs slave c events).map Prod.fst <+: (s.conns c).packets ∧
      List.Forall₂ (Answers msgs) (s.conns c).returned
        ((exchanges msgs slave c events).take (s.conns c).returned.length) ∧
      ∀ call ∈ (s.conns c).returned, call.1.type = clientHincr →
        call.2.type = nf ∧ call.2.body = msgs.reply ⟨1, "Command Not Found"⟩ := by
  obtain ⟨events, inv⟩ := inv_of_run calls ran
  refine ⟨events, inv.ran, fun c => ⟨inv.asked c, inv.answers c, fun call among hincr => ?_⟩⟩
  obtain ⟨exchange, handled, answers⟩ := forall₂_mem (inv.answers c) among
  have proper := (Sessions.run_exchanges msgs slave events s.sessions inv.ran c).2 exchange
    ((List.take_subset _ _) handled)
  have unregistered : cmds.lookup exchange.1.type = none := by rw [answers.asked, hincr]; rfl
  have answered := answers.answered
  rw [proper.refused unregistered, List.map_singleton] at answered
  obtain ⟨type, body⟩ := Prod.mk.inj (List.singleton_inj.mp answered)
  exact ⟨type.symm, body.symm⟩

/-- protobuf for examples: a message with an empty address and port zero, the `hset` of "x" in
field "f" of key "k", and a message of a float that is zero. -/
def shortRequests : Requests where
  hget := fun _ => []
  slaveof := fun _ => []
  hset := fun _ => [10, 1, 107, 18, 1, 102, 34, 5, 26, 3, 10, 1, 120]
  hincr := fun _ => [26, 2, 10, 0]

/-- An `hincr`, a `slaveof` and an `hset` on one connection. -/
def threeCalls : List (Event 1) :=
  [.server (.accept 0 5 ⟨0, Nat.one_pos⟩), .execute 0 (.hincrFloat [] [] 0), .send 0 5, .send 0 7,
    .server (.onRead 0 [8, 4] ⟨0, 0⟩ []), .server (.onWrite 0 [.wrote 29]), .recv 0 [8, 21],
    .execute 0 (.slaveof "" 0), .send 0 8, .server (.onRead 0 [8] ⟨0, 0⟩ []), .server (.onWrite 0 [.wrote 17]),
    .recv 0 [8, 9], .execute 0 (.hset [107] [102] (.bytesV [120])), .send 0 21,
    .server (.onRead 0 [8, 13] ⟨0, 0⟩ [10, 1, 107]), .server (.onWrite 0 [.wrote 8]), .recv 0 [8]]

/-- The first is refused and the others succeed. -/
theorem calls_answered_three : ∃ s,
    run (step Sessions.shortMessages shortRequests) (fresh (Slave.fresh 1 "")) threeCalls = some s ∧
      (s.conns 0).returned.map (fun call => (call.1.type, call.2.type)) =
        [(clientHincr, nf), (replSlaveof, replSlaveof), (clientHset, clientHset)] ∧
      ∀ call ∈ (s.conns 0).returned, call.1.type = clientHincr →
        call.2.body = Sessions.shortMessages.reply ⟨1, "Command Not Found"⟩ := by
  have ends : (run (step Sessions.shortMessages shortRequests) (fresh (Slave.fresh 1 "")) threeCalls).map
      (fun s => (s.conns 0).returned.map fun call => (call.1.type, call.2.type)) =
      some [(clientHincr, nf), (replSlaveof, replSlaveof), (clientHset, clientHset)] := by decide +kernel
  obtain ⟨s, ran, types⟩ := Option.map_eq_some_iff.mp ends
  obtain ⟨_, _, answered⟩ :=
    calls_answered Sessions.shortMessages shortRequests (Slave.fresh 1 "") threeCalls s ran
  exact ⟨s, ran, types, fun call among hincr => ((answered 0).2.2 call among hincr).2⟩

end Calls

end Naruto.Clients
