import Naruto.Link.SessionStep

/-!
# Replies in the order of the requests

Seen from one connection the server is a responder, whatever happens on the others. Its
accounts over a run are those of a responder: the packets handled are the peer's, in its
order, and what the peer receives are their replies in the same order. The watchers keep
the links going, and never act on a descriptor that belongs to another connection.
-/

namespace Naruto.Link

open Naruto.Theory Naruto.Utils Naruto.Command Naruto.Replication

namespace Sessions

variable {m : Nat} {msgs : Messages} {s s' : Sessions m} {event : Event m}

/-! ### A connection as a responder -/

/-- What has come on a connection, what is queued and what has been sent. -/
def view (c : Nat) (s : Sessions m) : Responder UInt8 UInt8 where
  input := (s.peers c).sent
  buffer := (s.links c).elim [] fun link => link.wbuf.buf
  output := (s.peers c).received
  broken := (s.links c).elim false ClientLink.err

/-- A connection is what its link and its peer are. -/
theorem view_congr {c : Nat} (links : s'.links c = s.links c) (peers : s'.peers c = s.peers c) :
    view c s' = view c s := by
  rw [view, view, links, peers]

/-- A callback of another connection, seen from this one. -/
theorem view_other {c c' : Nat} {link link' : ClientLink m} {slave : Slave m} {peer : Peer} (apart : c ≠ c') :
    view c (s.after c' link slave link' peer) = view c s :=
  view_congr (by rw [after_links, Function.update_of_ne apart]) (by rw [after_peers, Function.update_of_ne apart])

/-- A callback of a connection, seen from it. -/
theorem view_own {c : Nat} {link link' : ClientLink m} {slave : Slave m} {peer : Peer} :
    view c (s.after c link slave link' peer) = ⟨peer.sent, link'.wbuf.buf, peer.received, link'.err⟩ := by
  simp [view]

/-- The bytes of the packets that were handled, and of what answered them. -/
def asked (exchanges : List (Pack × List (UInt16 × Reply))) : List UInt8 :=
  Pack.encodeAll (exchanges.map Prod.fst)

/-- The bytes of the messages that answer some packets, in the order of the packets. They are
what the peer should receive. -/
def answered (msgs : Messages) (exchanges : List (Pack × List (UInt16 × Reply))) : List UInt8 :=
  (exchanges.flatMap Prod.snd).flatMap (packet msgs)

/-- The exchange of a callback that serves a packet. -/
theorem exchange_served {c : Nat} {link : ClientLink m} {results : List Nat} {clock : Clock} {beyond : List UInt8}
    {slave : Slave m} {p : Pack} {sent : List UInt8} {messages : List (UInt16 × Reply)} (there : s.links c = some link)
    (received : link.recv results (s.peers c).sent = some (some (Bytes.filled p.serialize 0), sent))
    (handled : handle msgs clock beyond link.workerId s.slave (Bytes.filled p.serialize 0) = some (slave, messages)) :
    exchange msgs c s (.onRead c results clock beyond) = [(p, messages)] := by
  have packed : packOf (Bytes.filled p.serialize 0).buf = some p := packOf_serialize p
  simp [exchange, there, received, handled, packed]

/-- There is none when the connection breaks. -/
theorem exchange_cut {c : Nat} {link : ClientLink m} {results : List Nat} {clock : Clock} {beyond : List UInt8}
    {sent : List UInt8} (there : s.links c = some link) (received : link.recv results (s.peers c).sent = some (none, sent)) :
    exchange msgs c s (.onRead c results clock beyond) = [] := by
  simp [exchange, there, received]

/-- A step makes of a connection what some actions of a responder do, which bring what
arrives and answer the packet that is handled. -/
def Acts (msgs : Messages) (c : Nat) (s : Sessions m) (event : Event m) (s' : Sessions m)
    (actions : List (Responder.Action UInt8 UInt8)) : Prop :=
  run Responder.step (view c s) actions = some (view c s') ∧
    actions.flatMap Responder.arrives = arrived c event ∧
    actions.flatMap Responder.requests = asked (exchange msgs c s event) ∧
    actions.flatMap Responder.answers = answered msgs (exchange msgs c s event)

/-- A callback of the connection is one action at most. A read that gets a packet serves one
request; a write, or a failure, moves bytes or breaks the connection. -/
theorem Callback.acts {c : Nat} {link link' : ClientLink m} {slave : Slave m} {peer : Peer} (kept : s.Kept c link)
    (there : s.links c = some link) (callback : Callback msgs s c link event slave link' peer) :
    ∃ actions, Acts msgs c s event (s.after c link slave link' peer) actions := by
  have before : view c s = ⟨(s.peers c).sent, link.wbuf.buf, (s.peers c).received, link.err⟩ := by
    simp [view, there]
  cases callback with
  | served p sent messages sound received split handled queued =>
    refine ⟨[.serve p.serialize (messages.flatMap (packet msgs))], ?_⟩
    obtain ⟨behind, same⟩ := sendMsgs_some kept.queued queued
    have buf : link'.wbuf.buf = link.wbuf.buf ++ messages.flatMap (packet msgs) := by rw [behind.2]; rfl
    have err : link'.err = link.err := by rw [same]
    rw [Acts, before, view_own, exchange_served there received handled, buf, err, sound, split]
    simp [Responder.step, Responder.arrives, Responder.requests, Responder.answers, arrived, asked, answered]
  | cut lost sound received =>
    refine ⟨[.breakOff 0 lost], ?_⟩
    rw [Acts, before, view_own, exchange_cut there received, sound]
    simp [Responder.step, Responder.arrives, Responder.requests, Responder.answers, arrived, asked, answered,
      ClientLink.close]
  | wrote sound =>
    refine ⟨[.write], ?_⟩
    rw [Acts, before, view_own, sound]
    simp [Responder.step, Responder.arrives, Responder.requests, Responder.answers, arrived, asked, answered,
      exchange, Bytes.cleared]
  | failed sent sound =>
    refine ⟨[.breakOff sent 0], ?_⟩
    rw [Acts, before, view_own, sound]
    simp [Responder.step, Responder.arrives, Responder.requests, Responder.answers, arrived, asked, answered,
      exchange, ClientLink.close]
  | stale broken =>
    refine ⟨[], ?_⟩
    rw [Acts, before, view_own]
    simp [arrived, asked, answered, exchange]

/-- A step that leaves the connection alone is no action. -/
theorem acts_nothing {c : Nat} (same : view c s' = view c s) (quiet : arrived c event = [])
    (unasked : exchange msgs c s event = []) : Acts msgs c s event s' [] := by
  rw [Acts, same, quiet, unasked]
  exact ⟨rfl, rfl, rfl, rfl⟩

/-- Every step is matched by actions of a responder, for every connection. For the connection
of the callback they are its actions, and for any other connection nothing. -/
theorem step_acts (inv : s.Inv) (c : Nat) (stepped : step msgs s event = some s') :
    ∃ actions, Acts msgs c s event s' actions := by
  have watched : ∀ c', (∃ results clock beyond, event = .onRead c' results clock beyond) ∨
      (∃ results, event = .onWrite c' results) →
      ∃ actions, Acts msgs c s event s' actions := by
    intro c' watched
    obtain ⟨link, slave, link', peer, there, callback, rfl⟩ := inv.callback watched stepped
    by_cases here : c' = c
    · obtain rfl := here
      exact callback.acts (inv.kept c' link there) there
    · refine ⟨[], acts_nothing (view_other (Ne.symm here)) ?_ ?_⟩
      · rcases watched with ⟨_, _, _, rfl⟩ | ⟨_, rfl⟩ <;> rfl
      · rcases watched with ⟨_, _, _, rfl⟩ | ⟨_, rfl⟩
        · rw [exchange, if_neg here]
        · rfl
  cases event with
  | arrive c' bytes =>
    obtain rfl := Option.some.inj stepped
    by_cases here : c' = c
    · obtain rfl := here
      refine ⟨[.arrive bytes], ?_⟩
      simp [Acts, view, setPeer, Responder.step, Responder.arrives, Responder.requests, Responder.answers, arrived,
        asked, answered, exchange]
    · refine ⟨[], acts_nothing (view_congr rfl ?_) ?_ rfl⟩
      · exact Function.update_of_ne (Ne.symm here) _ _
      · rw [arrived, if_neg here]
  | accept c' fd workerId =>
    obtain ⟨⟨unknown, _⟩, rest⟩ := Option.ite_none_right_eq_some.mp stepped
    obtain rfl := Option.some.inj rest
    refine ⟨[], acts_nothing ?_ rfl rfl⟩
    by_cases here : c' = c
    · obtain rfl := here
      simp [view, setLink, unknown, Bytes.cleared]
    · exact view_congr (Function.update_of_ne (Ne.symm here) _ _) rfl
  | others slave =>
    obtain rfl := Option.some.inj stepped
    exact ⟨[], acts_nothing rfl rfl rfl⟩
  | onRead c' results clock beyond => exact watched c' (.inl ⟨results, clock, beyond, rfl⟩)
  | onWrite c' results => exact watched c' (.inr ⟨results, rfl⟩)

/-- What a peer has received stays with it. -/
theorem received_grows (inv : s.Inv) (c : Nat) (stepped : step msgs s event = some s') :
    (s.peers c).received <+: (s'.peers c).received := by
  obtain ⟨actions, matched, _⟩ := step_acts inv c stepped
  exact Responder.run_output actions matched

/-- What holds of the links holds in every state that a run reaches. -/
theorem inv_of_run (slave : Slave m) (events : List (Event m)) (ran : run (step msgs) (fresh slave) events = some s) :
    s.Inv :=
  run_preserves Inv (fun _ _ _ inv stepped => inv.step stepped) (fresh slave) s events (inv_fresh slave) ran

/-- The accounts of a connection over a run: what has arrived, and the exchanges. By induction
on the events: each is, for the connection, some actions of a responder. -/
theorem run_accounts (c : Nat) {arrived' asked' answered' : List UInt8} {last : Sessions m} (inv : s.Inv)
    (accounts : Responder.Accounts arrived' asked' answered' (view c s)) (events : List (Event m))
    (ran : run (step msgs) s events = some last) :
    last.Inv ∧ Responder.Accounts (arrived' ++ events.flatMap (arrived c))
      (asked' ++ asked (traced (step msgs) (exchange msgs c) s events))
      (answered' ++ answered msgs (traced (step msgs) (exchange msgs c) s events)) (view c last) := by
  induction events generalizing s arrived' asked' answered' with
  | nil =>
    obtain rfl := Option.some.inj ran
    refine ⟨inv, ?_⟩
    simpa [asked, answered] using accounts
  | cons event events ih =>
    obtain ⟨s', stepped, rest⟩ := Option.bind_eq_some_iff.mp ran
    obtain ⟨actions, matched, arrives, requests, answers⟩ := step_acts inv c stepped
    have grown := accounts.run actions matched
    rw [arrives, requests, answers] at grown
    have later := ih (inv.step stepped) grown rest
    rw [traced_cons stepped]
    simpa only [asked, answered, List.flatMap_cons, List.map_append, List.flatMap_append, Pack.encodeAll_append,
      List.append_assoc] using later

/-- An exchange of a run: the packet is answered by its reply type, and refused when its type
is not registered; and the messages are of a size that packets have. -/
structure Proper (msgs : Messages) (exchange : Pack × List (UInt16 × Reply)) : Prop where
  types : exchange.2.map Prod.fst = (replyType exchange.1.type).toList
  refused : cmds.lookup exchange.1.type = none → exchange.2 = [(nf, .command ⟨1, "Command Not Found"⟩)]
  fits : ∀ message ∈ exchange.2, 8 + (msgs.serialize message.2).length < 2 ^ 32

/-- A message has eight bytes more on the wire than its body has. -/
theorem packet_length (message : UInt16 × Reply) :
    (packet msgs message).length = 8 + (msgs.serialize message.2).length := by
  simp only [packet, List.length_append, leBytes_length]

/-- The types of the messages of proper exchanges, in order. -/
theorem types_of_proper {exchanges : List (Pack × List (UInt16 × Reply))}
    (proper : ∀ x ∈ exchanges, Proper msgs x) :
    (exchanges.flatMap Prod.snd).map Prod.fst = exchanges.filterMap fun exchange => replyType exchange.1.type := by
  induction exchanges with
  | nil => rfl
  | cons exchange exchanges ih =>
    have later := ih fun x member => proper x (List.mem_cons_of_mem _ member)
    rw [List.flatMap_cons, List.map_append, later, (proper exchange List.mem_cons_self).types, List.filterMap_cons]
    cases replyType exchange.1.type <;> rfl

/-- The exchanges of a step are proper. Only the callback of a read handles a packet, and the
handler sends what belongs to it. -/
theorem exchange_proper (inv : s.Inv) (c : Nat) (stepped : step msgs s event = some s') :
    ∀ x ∈ exchange msgs c s event, Proper msgs x := by
  intro x among
  cases event with
  | onRead c' results clock beyond =>
    by_cases here : c' = c
    · obtain rfl := here
      obtain ⟨link, slave, link', peer, there, callback, _⟩ := inv.callback (.inl ⟨results, clock, beyond, rfl⟩) stepped
      cases callback with
      | served p sent messages sound received split handled queued =>
        rw [exchange_served there received handled] at among
        obtain rfl := List.mem_singleton.mp among
        refine ⟨handle_types handled, handle_unregistered handled, fun message member => ?_⟩
        have room := (sendMsgs_some (inv.kept c' link there).queued queued).1.1
        rw [List.length_append] at room
        obtain ⟨front, back, rfl⟩ := List.append_of_mem member
        rw [List.flatMap_append, List.flatMap_cons, List.length_append, List.length_append, packet_length] at room
        omega
      | cut lost sound received =>
        rw [exchange_cut there received] at among
        cases among
    · rw [exchange, if_neg here] at among
      cases among
  | _ => cases among

/-- Messages of a size that packets have are sent as packets. -/
theorem packets_of_proper {messages : List (UInt16 × Reply)}
    (fits : ∀ message ∈ messages, 8 + (msgs.serialize message.2).length < 2 ^ 32) :
    ∃ packs : List Pack, messages.flatMap (packet msgs) = Pack.encodeAll packs ∧
      packs.map (fun p => (p.flag, p.type, p.body)) =
        messages.map fun message => (0, message.1, msgs.serialize message.2) := by
  induction messages with
  | nil => exact ⟨[], rfl, rfl⟩
  | cons message messages ih =>
    obtain ⟨packs, bytes, bodies⟩ := ih fun other member => fits other (List.mem_cons_of_mem _ member)
    refine ⟨⟨0, message.1, msgs.serialize message.2, fits message List.mem_cons_self⟩ :: packs, ?_, ?_⟩
    · rw [List.flatMap_cons, bytes]
      rfl
    · rw [List.map_cons, List.map_cons, bodies]

/-- The exchanges of a connection in a run. -/
def exchanges (msgs : Messages) (slave : Slave m) (c : Nat) (events : List (Event m)) :
    List (Pack × List (UInt16 × Reply)) :=
  traced (step msgs) (exchange msgs c) (fresh slave) events

/-- The accounts of a connection over a run of the server, and its exchanges. -/
theorem run_exchanges (msgs : Messages) (slave : Slave m) (events : List (Event m)) (s : Sessions m)
    (ran : run (step msgs) (fresh slave) events = some s) (c : Nat) :
    Responder.Accounts (events.flatMap (arrived c)) (asked (exchanges msgs slave c events))
      (answered msgs (exchanges msgs slave c events)) (view c s) ∧
    ∀ x ∈ exchanges msgs slave c events, Proper msgs x := by
  have start : Responder.Accounts [] [] [] (view c (fresh slave)) := Responder.accounts_fresh
  obtain ⟨_, accounts⟩ := run_accounts c (inv_fresh slave) start events ran
  rw [List.nil_append, List.nil_append, List.nil_append] at accounts
  exact ⟨accounts, traced_forall (Proper msgs) Inv (fun _ _ _ inv stepped => inv.step stepped)
    (fun _ _ _ inv stepped => exchange_proper inv c stepped) (fresh slave) s events (inv_fresh slave) ran⟩

/-- What answers proper exchanges, as packets. -/
theorem replies_of_proper {exchanges : List (Pack × List (UInt16 × Reply))}
    (proper : ∀ x ∈ exchanges, Proper msgs x) :
    ∃ replies : List Pack, answered msgs exchanges = Pack.encodeAll replies ∧
      replies.map (fun p => (p.flag, p.type, p.body)) =
        (exchanges.flatMap Prod.snd).map fun message => (0, message.1, msgs.serialize message.2) :=
  packets_of_proper fun message member =>
    let ⟨x, among, inside⟩ := List.mem_flatMap.mp member
    (proper x among).fits message inside

/-- In every run, on every connection: the packets that were handled are those the peer has
sent, in their order, up to what is unread; each is answered by one message of its reply type,
or by none; and what the peer has received, with what is queued, is these messages as packets,
in the order of the requests. Of a broken connection the peer has received the beginning of
them.

Proof: seen from one connection, a callback serves some requests or changes nothing, and a
callback of another connection is not seen. So the view of a connection is a responder that
accounts for its input and its output; what it has answered is a matter of the handlers, one
message for each packet, which `sendMsg` queues as a packet. -/
theorem replies_in_order (msgs : Messages) (slave : Slave m) (events : List (Event m)) (s : Sessions m)
    (ran : run (step msgs) (fresh slave) events = some s) (c : Nat) (link : ClientLink m)
    (there : s.links c = some link) :
    ∃ replies : List Pack,
      replies.map (fun p => (p.flag, p.type, p.body)) =
        ((exchanges msgs slave c events).flatMap Prod.snd).map
          (fun message => (0, message.1, msgs.serialize message.2)) ∧
      replies.map Pack.type = (exchanges msgs slave c events).filterMap (fun exchange => replyType exchange.1.type) ∧
      Pack.encodeAll ((exchanges msgs slave c events).map Prod.fst) <+: events.flatMap (arrived c) ∧
      (s.peers c).received <+: Pack.encodeAll replies ∧
      (link.err = false →
        events.flatMap (arrived c) =
          Pack.encodeAll ((exchanges msgs slave c events).map Prod.fst) ++ (s.peers c).sent ∧
        Pack.encodeAll replies = (s.peers c).received ++ link.wbuf.buf) := by
  obtain ⟨accounts, proper⟩ := run_exchanges msgs slave events s ran c
  obtain ⟨replies, bytes, bodies⟩ := replies_of_proper proper
  have view' : view c s = ⟨(s.peers c).sent, link.wbuf.buf, (s.peers c).received, link.err⟩ := by
    simp [view, there]
  rw [view', bytes] at accounts
  refine ⟨replies, bodies, ?_, ?_, ?_, fun sound => ⟨?_, ?_⟩⟩
  · have types := congrArg (List.map fun body : UInt16 × UInt16 × List UInt8 => body.2.1) bodies
    rw [List.map_map, List.map_map] at types
    exact types.trans (types_of_proper proper)
  · exact accounts.asked
  · exact accounts.written
  · exact accounts.input sound
  · exact accounts.output sound

/-- protobuf for examples: strings and numbers below 128, and of the requests one `hset`, of "x"
in field "f" of key "k". -/
def shortMessages : Messages where
  hset := fun _ => ⟨[107], [102], 0, some (.bytesV [120])⟩
  hget := fun _ => ⟨[], []⟩
  slaveof := fun _ => ⟨"", 0⟩
  reply := fun reply =>
    (if reply.errcode = 0 then [] else [8, UInt8.ofNat reply.errcode]) ++
      (if reply.errmsg = "" then [] else [18, UInt8.ofNat reply.errmsg.length] ++
        reply.errmsg.toList.map fun char => UInt8.ofNat char.toNat)
  hgetReply := fun _ => []
  pong := fun pong => [10, UInt8.ofNat pong.ip.length] ++ pong.ip.toList.map fun char => UInt8.ofNat char.toNat

/-- A ping and a packet of an unregistered type come on one connection in pieces, and an
`hset` behind them; they are answered with one write. Another connection breaks with a pong
that waits; its write watcher is still started on the descriptor when a third connection
has it. -/
def threeLinks : List (Event 1) :=
  [.accept 0 5 ⟨0, Nat.one_pos⟩, .accept 1 6 ⟨0, Nat.one_pos⟩, .arrive 0 [8, 0, 0, 0, 0],
    .arrive 1 [8, 0, 0, 0, 0, 0, 3, 0], .onRead 1 [8] ⟨0, 0⟩ [], .arrive 0 [0, 3, 0, 8, 0, 0, 0, 0, 0, 233, 3],
    .onRead 1 [] ⟨0, 0⟩ [], .onRead 0 [5, 3] ⟨0, 0⟩ [], .accept 2 6 ⟨0, Nat.one_pos⟩, .onRead 0 [8] ⟨0, 0⟩ [],
    .onWrite 1 [], .arrive 0 [21, 0, 0, 0, 0, 0, 208, 7, 10, 1, 107, 18, 1, 102, 34, 5, 26, 3, 10, 1, 120],
    .onRead 0 [8, 13] ⟨0, 0⟩ [10, 1, 107], .onWrite 0 [.wrote 20, .interrupted, .wrote 36]]

/-- On the first connection the pong, the refusal and the answer to the `hset` come in this
order. The theorem gives the replies, and nothing is queued there in the end. -/
theorem replies_in_order_three : ∃ s link,
    run (step shortMessages) (fresh (Slave.fresh 1 "")) threeLinks = some s ∧ s.links 0 = some link ∧
      ∃ replies : List Pack, replies.map Pack.type = [replPong, nf, clientHset] ∧
        (s.peers 0).received = Pack.encodeAll replies := by
  have ends : ((run (step shortMessages) (fresh (Slave.fresh 1 "")) threeLinks).bind fun s =>
      (s.links 0).map fun link => (link.err, link.wbuf.buf)) = some (false, []) ∧
      (exchanges shortMessages (Slave.fresh 1 "") 0 threeLinks).filterMap
        (fun exchange => replyType exchange.1.type) = [replPong, nf, clientHset] := by decide +kernel
  obtain ⟨s, ran, found⟩ := Option.bind_eq_some_iff.mp ends.1
  obtain ⟨link, there, fields⟩ := Option.map_eq_some_iff.mp found
  obtain ⟨sound, nothing⟩ := Prod.mk.inj fields
  obtain ⟨replies, _, types, _, _, whole⟩ :=
    replies_in_order shortMessages (Slave.fresh 1 "") threeLinks s ran 0 link there
  refine ⟨s, link, ran, there, replies, types.trans ends.2, ?_⟩
  rw [(whole sound).2, nothing, List.append_nil]

/-- The connection whose callback an event is. -/
def callee : Event m → Option Nat
  | .onRead c _ _ _ => some c
  | .onWrite c _ => some c
  | _ => none

/-- What `onWrite` does when `::send` takes all of the buffer, in any pieces. The loop of
`send` takes the pieces, the buffer is cleared and the watcher is stopped. -/
theorem onWrite_whole (inv : s.Inv) {c : Nat} {link : ClientLink m} {results : List Connection.SendResult}
    (there : s.links c = some link) (opened : link.fd ≠ none) (waits : link.wbuf.buf ≠ [])
    (sends : Connection.Sends results link.wbuf.buf.length) :
    step msgs s (.onWrite c results) = some (s.after c link s.slave { link with wbuf := Bytes.cleared, cWio := false }
      ⟨(s.peers c).sent, (s.peers c).received ++ link.wbuf.buf⟩) := by
  have kept := inv.kept c link there
  obtain ⟨fd, own⟩ := Option.ne_none_iff_exists'.mp opened
  have sound : link.err = false := by
    cases broken : link.err with
    | false => rfl
    | true => exact absurd (kept.closed.mp broken) opened
  have runs := kept.waits sound waits
  have filled : link.wbuf.size ≠ 0 := by
    intro empty
    have size : link.wbuf.size.toNat = link.wbuf.buf.length := word_toNat _ kept.queued.1
    rw [empty] at size
    exact waits (List.eq_nil_of_length_eq_zero size.symm)
  have done : link.send results = some (link.wbuf.buf.length, true) := by
    have returned := Connection.sendLoop_eq link.wbuf.buf 0 results (List.length_pos_of_ne_nil waits) sends
    rw [ClientLink.send, if_neg (by simp [sound, own]), if_neg (by rw [sends.1]; exact Nat.lt_irrefl _),
      Connection.send]
    rw [Nat.sub_zero] at returned
    rw [returned]
    rfl
  simp only [step, there, Option.bind_some, runs, if_true, onWrite, if_neg filled, done, Option.map_some,
    deliver_open kept own, List.take_length]
  simp only [Sessions.after, freed, own, setPeer, setLink]

/-- In every state that a run reaches: a link has the descriptors that belong to its
connection, as long as it has one it reads, and it waits for the socket to be writable exactly
while replies are queued. A write watcher left behind by a closed link sends nothing to
whoever has its descriptor now, changes nothing and is stopped. A callback touches only its
own connection. And what is queued is sent as soon as the socket takes it, in any pieces.

Proof: the invariant says these things of one link and its descriptors. A callback is one of a
few kinds, each of which keeps the own link so, and the other links are left alone, since no
descriptor is shared. -/
theorem watchers_keep (msgs : Messages) (slave : Slave m) (events : List (Event m)) (s : Sessions m)
    (ran : run (step msgs) (fresh slave) events = some s) :
    (∀ c link, s.links c = some link →
      (∀ fd, link.fd = some fd ↔ s.fds fd = some c) ∧
      (link.fd ≠ none → link.cRio = true ∧ (link.cWio = true ↔ link.wbuf.buf ≠ [])) ∧
      (link.fd = none → link.cRio = false ∧ ∀ results s', step msgs s (.onWrite c results) = some s' →
        s' = { s with links := Function.update s.links c (some { link with cWio := false }) }) ∧
      (link.fd ≠ none → link.wbuf.buf ≠ [] → ∀ results, Connection.Sends results link.wbuf.buf.length →
        ∃ s' link', step msgs s (.onWrite c results) = some s' ∧ s'.links c = some link' ∧ link'.wbuf.buf = [] ∧
          link'.cWio = false ∧ (s'.peers c).received = (s.peers c).received ++ link.wbuf.buf)) ∧
    (∀ event s' c c', step msgs s event = some s' → callee event = some c → c' ≠ c →
      s'.links c' = s.links c' ∧ s'.peers c' = s.peers c' ∧
        ∀ fd, s'.fds fd = some c' ↔ s.fds fd = some c') := by
  have inv : s.Inv := inv_of_run slave events ran
  refine ⟨fun c link there => ⟨(inv.kept c link there).owns, fun opened => ?_, fun closed => ?_,
    fun opened waits results sends => ?_⟩, fun event s' c c' stepped own apart => ?_⟩
  · have kept := inv.kept c link there
    have sound : link.err = false := by
      cases broken : link.err with
      | false => rfl
      | true => exact absurd (kept.closed.mp broken) opened
    exact ⟨by rw [kept.reads, sound]; rfl, kept.writes, kept.waits sound⟩
  · have kept := inv.kept c link there
    have broken := kept.closed.mpr closed
    refine ⟨by rw [kept.reads, broken]; rfl, fun results s' stepped => ?_⟩
    obtain ⟨link', slave', link'', peer, found, callback, rfl⟩ := inv.callback (.inr ⟨results, rfl⟩) stepped
    obtain rfl := Option.some.inj (there.symm.trans found)
    cases callback with
    | wrote sound => rw [broken] at sound; cases sound
    | failed sent sound => rw [broken] at sound; cases sound
    | stale _ => simp only [Sessions.after, freed, closed, Function.update_eq_self]
  · refine ⟨_, { link with wbuf := Bytes.cleared, cWio := false }, onWrite_whole inv there opened waits sends, ?_,
      rfl, rfl, ?_⟩
    · rw [after_links, Function.update_self]
    · rw [after_peers, Function.update_self]
  · have watched : (∃ results clock beyond, event = .onRead c results clock beyond) ∨
        ∃ results, event = .onWrite c results := by
      cases event with
      | onRead c₀ results clock beyond =>
        obtain rfl := Option.some.inj own
        exact .inl ⟨results, clock, beyond, rfl⟩
      | onWrite c₀ results =>
        obtain rfl := Option.some.inj own
        exact .inr ⟨results, rfl⟩
      | _ => cases own
    obtain ⟨link, slave', link', peer, there, callback, rfl⟩ := inv.callback watched stepped
    have kept := inv.kept c link there
    refine ⟨by rw [after_links, Function.update_of_ne apart], by rw [after_peers, Function.update_of_ne apart],
      fun fd => ?_⟩
    rw [after_fds, freed_iff kept (callback.fd kept)]
    exact ⟨And.left, fun taken => ⟨taken, fun here => absurd here apart⟩⟩

/-- The write watcher of the second connection when the third has its descriptor: the third
receives nothing. -/
theorem watchers_keep_three : ∃ s s',
    run (step shortMessages) (fresh (Slave.fresh 1 "")) (threeLinks.take 10) = some s ∧
      step shortMessages s (.onWrite 1 []) = some s' ∧ s.fds 6 = some 2 ∧ s'.peers = s.peers := by
  have ends : ((run (step shortMessages) (fresh (Slave.fresh 1 "")) (threeLinks.take 10)).bind fun s =>
      (s.links 1).bind fun link => (step shortMessages s (.onWrite 1 [])).map fun _ =>
        (link.fd, s.fds 6)) = some (none, some 2) := by decide +kernel
  obtain ⟨s, ran, found⟩ := Option.bind_eq_some_iff.mp ends
  obtain ⟨link, there, found⟩ := Option.bind_eq_some_iff.mp found
  obtain ⟨s', stepped, fields⟩ := Option.map_eq_some_iff.mp found
  obtain ⟨closed, taken⟩ := Prod.mk.inj fields
  have kept := (watchers_keep shortMessages (Slave.fresh 1 "") (threeLinks.take 10) s ran).1 1 link there
  refine ⟨s, s', ran, stepped, taken, ?_⟩
  rw [(kept.2.2.1 closed).2 [] s' stepped]

end Sessions

end Naruto.Link
