import Naruto.Replication.Slaves

/-!
# The connection pool of the clients

`ConnectionPool` hands out connections, at most `max_conns` of them. A `fetch` takes an idle
one, makes a new one, or waits for one that is released; behind the lock it reconnects one
that is broken or has been idle for too long. `Kunai::execute` fetches a connection, sends,
receives and releases it.

The capacity is counted in `used_connections_`. A connection whose reconnect fails, or whose
`send` or `recv` throws out of `execute`, is dropped without being counted back.

The result of `wait_for` is taken the wrong way round. A fetch that is woken with a connection
in the pool throws that it has timed out, and one whose time is over while the pool is empty
goes on to `_fetch`, which asserts that it is not.
-/

namespace Naruto.Connection

open Naruto.Theory Naruto.Replication

/-- The classes of `errors.h` that `throw_err` throws. -/
inductive ErrorClass
  | error
  | io
  | timeout
  | oom
  | closed
  | proto
deriving DecidableEq, Repr

/-- What is thrown. -/
structure Error where
  kind : ErrorClass
  what : String
deriving DecidableEq, Repr

/-- What a call that has failed leaves in `err_` and `errmsg_`, and whether `errno` is `EAGAIN`,
`EWOULDBLOCK` or `ETIMEDOUT`. -/
structure Failure where
  err : Int
  errmsg : String
  again : Bool
deriving DecidableEq, Repr

/-- `throw_err`. -/
def throwErr (again : Bool) (errType : Int) (errmsg : String) : Error :=
  if errType = 1 then ⟨if again then .timeout else .io, errmsg⟩
  else if errType = 5 then ⟨.oom, errmsg⟩
  else if errType = 3 then ⟨.closed, errmsg⟩
  else if errType = 6 then ⟨.timeout, errmsg⟩
  else if errType = 4 then ⟨.proto, errmsg⟩
  else if errType = 2 then ⟨.error, errmsg⟩
  else ⟨.error, "unknown error code: " ++ errmsg⟩

/-- `ConnectionPoolOptions`, with times in milliseconds. Nothing reads `max_idel`. -/
structure ConnectionPoolOptions where
  maxConns : Nat
  waitTimeout : Int
  connectionLifetime : Int
deriving DecidableEq, Repr

/-- A connection of the pool, with `_last_active` in nanoseconds. -/
structure PoolConnect where
  connect : Connect
  errmsg : String
  lastActive : Int
deriving DecidableEq, Repr

/-- A connection that has just been made. -/
def PoolConnect.new (now : Int) : PoolConnect := ⟨⟨.connected, 0⟩, "", now⟩

/-- `update_last_active()`. -/
def PoolConnect.updateLastActive (conn : PoolConnect) (now : Int) : PoolConnect := { conn with lastActive := now }

/-- Where a client is: outside of `fetch` without a connection, perhaps because a call has thrown,
in `_wait_for_connect` up to a deadline if there is one, in `reconnect` with the connection that
it has taken, or outside with a connection. In `asserts`, the assertion of `_fetch` has failed. -/
inductive Client
  | idle
  | threw (error : Error)
  | waiting (deadline : Option Int)
  | reconnecting (conn : PoolConnect)
  | holding (conn : PoolConnect)
  | asserts
deriving DecidableEq, Repr

/-- The client has a connection. -/
def Client.holds : Client → Bool
  | .idle => false
  | .threw _ => false
  | .waiting _ => false
  | .reconnecting _ => true
  | .holding _ => true
  | .asserts => false

/-- The client may call `fetch`. -/
def Client.free : Client → Bool
  | .idle => true
  | .threw _ => true
  | _ => false

/-- `ConnectionPool`, its clients and the steady clock in nanoseconds. A client is free, waits,
reconnects, has a connection, has thrown or has failed the assertion. -/
structure ConnectionPool where
  poolOpts : ConnectionPoolOptions
  pool : List PoolConnect
  usedConnections : Nat
  clients : List Client
  now : Int
deriving DecidableEq, Repr

/-- What happens: time passes; a client calls `fetch`, with the result of `connect()` if it makes a
connection; a waiting client wakes up before its deadline, or its deadline passes; a `reconnect`
ends; a client calls `release`, and may have left anything in its connection; or `Kunai::execute`
goes on behind its `fetch`, with the results of `send` and `recv`. -/
inductive PoolEvent
  | passes (nanoseconds : Nat)
  | fetch (client : Nat) (connected : Option Failure)
  | wake (client : Nat)
  | expire (client : Nat)
  | reconnect (client : Nat) (connected : Option Failure)
  | release (client : Nat) (connect : Connect) (errmsg : String)
  | execute (client : Nat) (sent received : Option Failure)
deriving DecidableEq, Repr

/-- A step that drops a connection: a `reconnect` fails, or a `send` or `recv` in `execute`. -/
def PoolEvent.loses : PoolEvent → Bool
  | .reconnect _ connected => connected.isSome
  | .execute _ sent received => sent.isSome || received.isSome
  | _ => false

namespace ConnectionPool

/-- The pool that the constructor makes. -/
def new (poolOpts : ConnectionPoolOptions) (clients : Nat) (now : Int) : ConnectionPool :=
  ⟨poolOpts, [], 0, List.replicate clients .idle, now⟩

/-- A client is somewhere else. -/
def setClient (s : ConnectionPool) (client : Nat) (c : Client) : ConnectionPool :=
  { s with clients := s.clients.set client c }

/-- `_need_reconnect`. -/
def needReconnect (s : ConnectionPool) (conn : PoolConnect) : Bool :=
  conn.connect.broken ∨
    0 < s.poolOpts.connectionLifetime ∧ s.poolOpts.connectionLifetime * 1000000 < s.now - conn.lastActive

/-- `_fetch`, and what `fetch` does with its connection up to `reconnect`. -/
def fetchFront (s : ConnectionPool) (client : Nat) : ConnectionPool :=
  match s.pool with
  | [] => s.setClient client .asserts
  | conn :: pool =>
    let s := { s with pool := pool }
    if s.needReconnect conn then s.setClient client (.reconnecting { conn with connect := conn.connect.close })
    else s.setClient client (.holding (conn.updateLastActive s.now))

/-- `_create`, and what `fetch` does with its connection. -/
def create (s : ConnectionPool) (client : Nat) : Option Failure → ConnectionPool
  | some failure => s.setClient client (.threw (throwErr failure.again failure.err failure.errmsg))
  | none => { s with usedConnections := s.usedConnections + 1 }.setClient client (.holding (PoolConnect.new s.now))

/-- The deadline of `_wait_for_connect`. -/
def deadline (s : ConnectionPool) : Option Int :=
  if 0 < s.poolOpts.waitTimeout then some (s.now + s.poolOpts.waitTimeout * 1000000) else none

/-- What `_wait_for_connect` throws. -/
def timeOut (s : ConnectionPool) : Error :=
  throwErr false 2 ("fetch a connection time out in " ++ toString s.poolOpts.waitTimeout ++ " milliseconds")

/-- `fetch` up to where it waits or has a connection. -/
def fetch (s : ConnectionPool) (client : Nat) (connected : Option Failure) : ConnectionPool :=
  if s.pool = [] then
    if s.poolOpts.maxConns ≤ s.usedConnections then s.setClient client (.waiting s.deadline)
    else s.create client connected
  else s.fetchFront client

/-- `wait_for` returns whether there is a connection, and `fetch` goes on behind it. -/
def waitedFor (s : ConnectionPool) (client : Nat) (result : Bool) : ConnectionPool :=
  if result = true then s.setClient client (.threw s.timeOut) else s.fetchFront client

/-- A waiting client has got the lock again. Without a connection it waits on. -/
def wake (s : ConnectionPool) (client : Nat) (deadline : Option Int) : ConnectionPool :=
  if s.pool = [] then s
  else
    match deadline with
    | some _ => s.waitedFor client true
    | none => s.fetchFront client

/-- `release`. -/
def release (s : ConnectionPool) (client : Nat) (conn : PoolConnect) : ConnectionPool :=
  { s with pool := s.pool ++ [conn] }.setClient client .idle

/-- The end of a `reconnect`, which throws what the old connection has in `err_`. -/
def reconnect (s : ConnectionPool) (client : Nat) (conn : PoolConnect) : Option Failure → ConnectionPool
  | some failure => s.setClient client (.threw (throwErr failure.again conn.connect.err conn.errmsg))
  | none => s.setClient client (.holding (PoolConnect.new s.now))

/-- `Kunai::execute` behind its `fetch`. -/
def execute (s : ConnectionPool) (client : Nat) (conn : PoolConnect) (sent received : Option Failure) :
    ConnectionPool :=
  match sent, received with
  | some failure, _ => s.setClient client (.threw (throwErr failure.again failure.err failure.errmsg))
  | none, some failure => s.setClient client (.threw (throwErr failure.again failure.err failure.errmsg))
  | none, none => s.release client conn

/-- One event, as long as no assertion has failed. A waiting fetch goes on when it is woken
before its deadline or when the deadline passes; what system calls return is part of the
event. -/
def step (s : ConnectionPool) (event : PoolEvent) : Option ConnectionPool :=
  if .asserts ∈ s.clients then none
  else
    match event with
    | .passes nanoseconds => some { s with now := s.now + nanoseconds }
    | .fetch client connected =>
      match s.clients[client]? with
      | some c => if c.free = true then some (s.fetch client connected) else none
      | none => none
    | .wake client =>
      match s.clients[client]? with
      | some (.waiting deadline) =>
        if ∀ time ∈ deadline, s.now < time then some (s.wake client deadline) else none
      | _ => none
    | .expire client =>
      match s.clients[client]? with
      | some (.waiting (some time)) =>
        if time ≤ s.now then some (s.waitedFor client (s.pool ≠ [])) else none
      | _ => none
    | .reconnect client connected =>
      match s.clients[client]? with
      | some (.reconnecting conn) => some (s.reconnect client conn connected)
      | _ => none
    | .release client connect errmsg =>
      match s.clients[client]? with
      | some (.holding conn) => some (s.release client ⟨connect, errmsg, conn.lastActive⟩)
      | _ => none
    | .execute client sent received =>
      match s.clients[client]? with
      | some (.holding conn) => some (s.execute client conn sent received)
      | _ => none

/-- The connections that clients have. -/
def held (s : ConnectionPool) : Nat := s.clients.countP Client.holds

/-- The counter is right: it counts the idle connections and those that clients have, and does not
exceed the maximum. -/
def Counted (s : ConnectionPool) : Prop :=
  s.usedConnections = s.pool.length + s.held ∧ s.usedConnections ≤ s.poolOpts.maxConns

/-- How waits should end: a fetch that is woken before its deadline with a connection in the pool
goes on with it, one whose deadline passes with the pool empty throws that it has timed out, and the
assertion of `_fetch` holds. -/
structure Answers (s : ConnectionPool) (event : PoolEvent) (s' : ConnectionPool) : Prop where
  woken : ∀ client time, event = .wake client → s.clients[client]? = some (.waiting (some time)) → s.pool ≠ [] →
    ∃ conn, s'.clients[client]? = some (.holding conn) ∨ s'.clients[client]? = some (.reconnecting conn)
  expired : ∀ client, event = .expire client → s.pool = [] → s'.clients[client]? = some (.threw s.timeOut)
  asserted : .asserts ∉ s'.clients

/-- No assertion has failed, and a waiting fetch is woken before its deadline with a connection in
the pool, or its deadline passes with the pool empty. -/
def Misfires (s : ConnectionPool) (event : PoolEvent) : Prop :=
  .asserts ∉ s.clients ∧ ∃ client time, s.clients[client]? = some (.waiting (some time)) ∧
    (event = .wake client ∧ s.now < time ∧ s.pool ≠ [] ∨ event = .expire client ∧ time ≤ s.now ∧ s.pool = [])

/-- What a step does. It lists the events with the tests that let them happen, so that a proof
has one case for each. -/
inductive Stepped (s : ConnectionPool) : PoolEvent → ConnectionPool → Prop
  | passes (nanoseconds : Nat) : Stepped s (.passes nanoseconds) { s with now := s.now + nanoseconds }
  | fetch {client : Nat} {c : Client} (connected : Option Failure) (at' : s.clients[client]? = some c)
      (free : c.free = true) : Stepped s (.fetch client connected) (s.fetch client connected)
  | wake {client : Nat} {deadline : Option Int} (at' : s.clients[client]? = some (.waiting deadline))
      (early : ∀ time ∈ deadline, s.now < time) : Stepped s (.wake client) (s.wake client deadline)
  | expire {client : Nat} {time : Int} (at' : s.clients[client]? = some (.waiting (some time)))
      (late : time ≤ s.now) : Stepped s (.expire client) (s.waitedFor client (s.pool ≠ []))
  | reconnect {client : Nat} {conn : PoolConnect} (connected : Option Failure)
      (at' : s.clients[client]? = some (.reconnecting conn)) :
      Stepped s (.reconnect client connected) (s.reconnect client conn connected)
  | release {client : Nat} {conn : PoolConnect} (connect : Connect) (errmsg : String)
      (at' : s.clients[client]? = some (.holding conn)) :
      Stepped s (.release client connect errmsg) (s.release client ⟨connect, errmsg, conn.lastActive⟩)
  | execute {client : Nat} {conn : PoolConnect} (sent received : Option Failure)
      (at' : s.clients[client]? = some (.holding conn)) :
      Stepped s (.execute client sent received) (s.execute client conn sent received)

variable {s s' : ConnectionPool} {event : PoolEvent} {client : Nat}

/-- No assertion has failed before a step. -/
theorem step_asserted (stepped : s.step event = some s') : .asserts ∉ s.clients := by
  intro failed
  unfold step at stepped
  rw [if_pos failed] at stepped
  cases stepped

/-- A step is one of those that `Stepped` lists. By cases on the event and its tests. -/
theorem step_stepped (stepped : s.step event = some s') : s.Stepped event s' := by
  have asserted := step_asserted stepped
  unfold step at stepped
  rw [if_neg asserted] at stepped
  cases event with
  | passes nanoseconds =>
    obtain rfl := Option.some.inj stepped
    exact .passes nanoseconds
  | fetch client connected =>
    dsimp only at stepped
    split at stepped
    · obtain ⟨free, same⟩ := Option.ite_none_right_eq_some.mp stepped
      obtain rfl := Option.some.inj same
      exact .fetch connected ‹_› free
    · cases stepped
  | wake client =>
    dsimp only at stepped
    split at stepped
    · obtain ⟨early, same⟩ := Option.ite_none_right_eq_some.mp stepped
      obtain rfl := Option.some.inj same
      exact .wake ‹_› early
    · cases stepped
  | expire client =>
    dsimp only at stepped
    split at stepped
    · obtain ⟨late, same⟩ := Option.ite_none_right_eq_some.mp stepped
      obtain rfl := Option.some.inj same
      exact .expire ‹_› late
    · cases stepped
  | reconnect client connected =>
    dsimp only at stepped
    split at stepped
    · obtain rfl := Option.some.inj stepped
      exact .reconnect connected ‹_›
    · cases stepped
  | release client connect errmsg =>
    dsimp only at stepped
    split at stepped
    · obtain rfl := Option.some.inj stepped
      exact .release connect errmsg ‹_›
    · cases stepped
  | execute client sent received =>
    dsimp only at stepped
    split at stepped
    · obtain rfl := Option.some.inj stepped
      exact .execute sent received ‹_›
    · cases stepped

/-- A client has moved: one connection more or less may be held. -/
theorem held_setClient {c : Client} (at' : s.clients[client]? = some c) (c' : Client) :
    (s.setClient client c').held + c.holds.toNat = s.held + c'.holds.toNat := by
  obtain ⟨within, same⟩ := List.getElem?_eq_some_iff.mp at'
  have positive : c.holds = true → 0 < s.clients.countP Client.holds := fun holds =>
    List.countP_pos_iff.mpr ⟨c, List.mem_of_getElem? at', holds⟩
  rw [held, held, setClient, List.countP_set within, same]
  cases holds : c.holds <;> cases holds' : c'.holds <;> simp_all

/-- The accounts: the counter has the idle connections, those that are held and those that have been
lost, and does not exceed the maximum. -/
structure Accounts (maxConns lost : Nat) (s : ConnectionPool) : Prop where
  opts : s.poolOpts.maxConns = maxConns
  used : s.usedConnections = s.pool.length + s.held + lost
  bounded : s.usedConnections ≤ maxConns

namespace Accounts

variable {maxConns lost : Nat}

/-- A client moves, and what it gets or gives is balanced by the pool, the counter or a loss.
The count of those held changes by what it has before and behind the move. -/
theorem move (accounts : Accounts maxConns lost s) {c c' : Client} {gives gets : Bool}
    (at' : s.clients[client]? = some c) (before : c.holds = gives) (behind : c'.holds = gets)
    (pool : List PoolConnect) (used lost' : Nat)
    (balanced : used + s.pool.length + gives.toNat + lost =
      s.usedConnections + pool.length + gets.toNat + lost') (bounded : used ≤ maxConns) :
    Accounts maxConns lost' ({ s with pool := pool, usedConnections := used }.setClient client c') := by
  have count := held_setClient at' c'
  rw [before, behind] at count
  have same : ({ s with pool := pool, usedConnections := used }.setClient client c').held =
    (s.setClient client c').held := rfl
  have accounted := accounts.used
  refine ⟨accounts.opts, ?_, bounded⟩
  rw [same]
  show used = pool.length + (s.setClient client c').held + lost'
  omega

/-- A client without a connection moves to where it has none. -/
theorem moveFree (accounts : Accounts maxConns lost s) {c c' : Client} (at' : s.clients[client]? = some c)
    (before : c.holds = false) (behind : c'.holds = false) : Accounts maxConns lost (s.setClient client c') :=
  accounts.move at' before behind s.pool s.usedConnections lost rfl accounts.bounded

/-- A client without a connection gets the one in front of the pool, if there is any. -/
theorem fetchFront (accounts : Accounts maxConns lost s) {c : Client} (at' : s.clients[client]? = some c)
    (without : c.holds = false) : Accounts maxConns lost (s.fetchFront client) := by
  rw [ConnectionPool.fetchFront]
  cases pool : s.pool with
  | nil => exact accounts.moveFree at' without rfl
  | cons conn rest =>
    have balanced : s.usedConnections + s.pool.length + 0 + lost = s.usedConnections + rest.length + 1 + lost := by
      rw [pool, List.length_cons]
      omega
    dsimp only
    split
    · exact accounts.move at' without rfl rest s.usedConnections lost balanced accounts.bounded
    · exact accounts.move at' without rfl rest s.usedConnections lost balanced accounts.bounded

/-- A client without a connection makes one, below the maximum. -/
theorem create (accounts : Accounts maxConns lost s) {c : Client} (at' : s.clients[client]? = some c)
    (without : c.holds = false) (room : s.usedConnections < s.poolOpts.maxConns) (connected : Option Failure) :
    Accounts maxConns lost (s.create client connected) := by
  cases connected with
  | some failure => exact accounts.moveFree at' without rfl
  | none =>
    have balanced : s.usedConnections + 1 + s.pool.length + 0 + lost = s.usedConnections + s.pool.length + 1 + lost := by
      omega
    rw [accounts.opts] at room
    exact accounts.move at' without rfl s.pool (s.usedConnections + 1) lost balanced room

/-- A client that has a connection gives it back to the pool. -/
theorem release (accounts : Accounts maxConns lost s) {conn : PoolConnect}
    (at' : s.clients[client]? = some (.holding conn)) (back : PoolConnect) :
    Accounts maxConns lost (s.release client back) := by
  have balanced : s.usedConnections + s.pool.length + 1 + lost =
      s.usedConnections + (s.pool ++ [back]).length + 0 + lost := by
    rw [List.length_append, List.length_singleton]
    omega
  exact accounts.move at' rfl rfl (s.pool ++ [back]) s.usedConnections lost balanced accounts.bounded

/-- A client that has a connection drops it. -/
theorem drop (accounts : Accounts maxConns lost s) {c : Client} (at' : s.clients[client]? = some c)
    (has : c.holds = true) (error : Error) : Accounts maxConns (lost + 1) (s.setClient client (.threw error)) := by
  have balanced : s.usedConnections + s.pool.length + 1 + lost =
      s.usedConnections + s.pool.length + 0 + (lost + 1) := by
    omega
  exact accounts.move at' has rfl s.pool s.usedConnections (lost + 1) balanced accounts.bounded

/-- A step keeps the accounts, with one loss more when it loses a connection. One case for each
event of `Stepped`; pool, holders and counter are balanced in each. -/
theorem step (accounts : Accounts maxConns lost s) (stepped : s.step event = some s') :
    Accounts maxConns (lost + event.loses.toNat) s' := by
  cases step_stepped stepped with
  | passes nanoseconds => exact ⟨accounts.opts, accounts.used, accounts.bounded⟩
  | @fetch client c connected at' free =>
    have without : c.holds = false := by
      cases c <;> first | rfl | cases free
    rw [ConnectionPool.fetch]
    split
    · split
      · exact accounts.moveFree at' without rfl
      · exact accounts.create at' without (by omega) connected
    · exact accounts.fetchFront at' without
  | @wake client deadline at' early =>
    unfold ConnectionPool.wake
    split
    · exact accounts
    · cases deadline with
      | none => exact accounts.fetchFront at' rfl
      | some time =>
        exact accounts.moveFree at' rfl rfl
  | expire at' late =>
    rw [waitedFor]
    split
    · exact accounts.moveFree at' rfl rfl
    · exact accounts.fetchFront at' rfl
  | @reconnect client conn connected at' =>
    cases connected with
    | some failure => exact accounts.drop at' rfl _
    | none => exact accounts.move at' rfl rfl s.pool s.usedConnections lost rfl accounts.bounded
  | release connect errmsg at' => exact accounts.release at' _
  | @execute client conn sent received at' =>
    cases sent with
    | some failure => exact accounts.drop at' rfl _
    | none =>
      cases received with
      | some failure => exact accounts.drop at' rfl _
      | none => exact accounts.release at' conn

/-- A run keeps the accounts, with the losses of its steps. By induction on its events. -/
theorem run (accounts : Accounts maxConns lost s) (events : List PoolEvent)
    (ran : run ConnectionPool.step s events = some s') :
    Accounts maxConns (lost + events.countP PoolEvent.loses) s' := by
  induction events generalizing s lost with
  | nil =>
    obtain rfl := Option.some.inj ran
    exact accounts
  | cons event events ih =>
    obtain ⟨middle, stepped, rest⟩ := Option.bind_eq_some_iff.mp ran
    have later := ih (accounts.step stepped) rest
    have total : lost + (event :: events).countP PoolEvent.loses =
        lost + event.loses.toNat + events.countP PoolEvent.loses := by
      rw [List.countP_cons, Nat.add_assoc, Nat.add_comm event.loses.toNat]
      cases event.loses <;> rfl
    rw [total]
    exact later

/-- The counter is right exactly when nothing has been lost. -/
theorem counted_iff (accounts : Accounts maxConns lost s) : s.Counted ↔ lost = 0 := by
  have used := accounts.used
  have bounded := accounts.bounded
  rw [Counted, accounts.opts]
  omega

end Accounts

/-- A new pool. -/
theorem new_accounts (poolOpts : ConnectionPoolOptions) (clients : Nat) (now : Int) :
    Accounts poolOpts.maxConns 0 (new poolOpts clients now) := by
  have unheld : (new poolOpts clients now).held = 0 := by
    rw [held, new, List.countP_replicate]
    rfl
  refine ⟨rfl, ?_, Nat.zero_le _⟩
  rw [unheld]
  rfl

/-- In a run of any clients on a new pool, the counter is right in every state exactly when no
`reconnect` and no `send` or `recv` of `execute` fails.

Proof: the counter is the number of connections in use or idle, and one more for each
connection that a client has dropped behind a failure. This account is kept by every step, so
the counter is right at the end exactly when none was dropped. -/
theorem run_counted_iff (poolOpts : ConnectionPoolOptions) (clients : Nat) (now : Int) (events : List PoolEvent)
    (last : ConnectionPool) (ran : run step (new poolOpts clients now) events = some last) :
    (∀ front back s, events = front ++ back → run step (new poolOpts clients now) front = some s → s.Counted) ↔
      ∀ event ∈ events, event.loses = false := by
  have start := new_accounts poolOpts clients now
  constructor
  · intro counted
    have unbroken := ((start.run events ran).counted_iff).mp (counted events [] last (List.append_nil _).symm ran)
    rw [Nat.zero_add, List.countP_eq_zero] at unbroken
    exact fun event member => Bool.eq_false_iff.mpr (unbroken event member)
  · intro kept front back s split ran'
    refine ((start.run front ran').counted_iff).mpr ?_
    rw [Nat.zero_add, List.countP_eq_zero]
    exact fun event member => Bool.eq_false_iff.mp (kept event (by rw [split]; exact List.mem_append_left _ member))

/-- A pool of one connection, with a deadline of a second for waits. -/
def onlyOne : ConnectionPoolOptions := ⟨1, 1000, 5000⟩

/-- A reconnect and an `execute` that succeed, with a second client that waits and times out. -/
theorem counted_soundly :
    (∀ front back s, [PoolEvent.fetch 0 none, .fetch 1 none, .release 0 ⟨.connected, 1⟩ "", .wake 1, .fetch 0 none,
          .reconnect 0 none, .execute 0 none none] = front ++ back →
        run step (new onlyOne 2 0) front = some s → s.Counted) ↔
      ∀ event ∈ [PoolEvent.fetch 0 none, .fetch 1 none, .release 0 ⟨.connected, 1⟩ "", .wake 1, .fetch 0 none,
          .reconnect 0 none, .execute 0 none none], event.loses = false :=
  run_counted_iff onlyOne 2 0 _ _ rfl

/-- A `recv` that fails takes the only connection out of the pool. -/
theorem not_counted : ¬ ∀ (poolOpts : ConnectionPoolOptions) (clients : Nat) (now : Int) (events : List PoolEvent)
    (s : ConnectionPool), 0 < poolOpts.maxConns → run step (new poolOpts clients now) events = some s → s.Counted := by
  intro counted
  have kept := counted onlyOne 1 0 [.fetch 0 none, .execute 0 none (some ⟨1, "read_(io)", true⟩)] _ (by decide) rfl
  exact absurd kept.1 (by decide)

/-- The connection in front of the pool goes to the client. -/
theorem fetchFront_some (nonempty : s.pool ≠ []) :
    ∃ c, (s.fetchFront client).clients = s.clients.set client c ∧
      ∃ conn, c = .holding conn ∨ c = .reconnecting conn := by
  rw [fetchFront]
  cases pool : s.pool with
  | nil => exact absurd pool nonempty
  | cons conn rest =>
    dsimp only
    split
    · exact ⟨_, rfl, _, Or.inr rfl⟩
    · exact ⟨_, rfl, _, Or.inl rfl⟩

/-- The assertion holds when a client goes elsewhere. -/
theorem asserted_set {c : Client} (asserted : .asserts ∉ s.clients) (elsewhere : c ≠ .asserts) :
    .asserts ∉ s.clients.set client c := by
  intro failed
  rcases List.mem_or_eq_of_mem_set failed with before | same
  · exact asserted before
  · exact elsewhere same.symm

/-- So it does when there is a connection in the pool. -/
theorem asserted_fetchFront (asserted : .asserts ∉ s.clients) (nonempty : s.pool ≠ []) :
    .asserts ∉ (s.fetchFront client).clients := by
  obtain ⟨c, moved, conn, rfl | rfl⟩ := @fetchFront_some s client nonempty
  · rw [moved]
    exact asserted_set asserted (by simp)
  · rw [moved]
    exact asserted_set asserted (by simp)

/-- No step but the one past a deadline with the pool empty fails the assertion. The front of
the pool is taken by those that have seen it filled, but for the one past its deadline. -/
theorem Stepped.asserted (stepped : s.Stepped event s') (asserted : .asserts ∉ s.clients)
    (sound : ¬ s.Misfires event) : .asserts ∉ s'.clients := by
  cases stepped with
  | passes nanoseconds => exact asserted
  | @fetch client c connected at' free =>
    rw [ConnectionPool.fetch]
    split
    · split
      · exact asserted_set asserted (by simp)
      · cases connected with
        | none => exact asserted_set asserted (by simp)
        | some failure => exact asserted_set asserted (by simp)
    · exact asserted_fetchFront asserted ‹_›
  | @wake client deadline at' early =>
    unfold ConnectionPool.wake
    split
    · exact asserted
    · cases deadline with
      | none => exact asserted_fetchFront asserted ‹_›
      | some time => exact asserted_set asserted (by simp)
  | @expire client time at' late =>
    have nonempty : s.pool ≠ [] := fun drained => sound ⟨asserted, client, time, at', Or.inr ⟨rfl, late, drained⟩⟩
    rw [decide_eq_true nonempty]
    exact asserted_set asserted (by simp)
  | reconnect connected at' =>
    cases connected with
    | none => exact asserted_set asserted (by simp)
    | some failure => exact asserted_set asserted (by simp)
  | release connect errmsg at' => exact asserted_set asserted (by simp)
  | execute sent received at' =>
    cases sent with
    | some failure => exact asserted_set asserted (by simp)
    | none =>
      cases received with
      | some failure => exact asserted_set asserted (by simp)
      | none => exact asserted_set asserted (by simp)

/-- A client has moved. -/
theorem setClient_at {c : Client} (at' : s.clients[client]? = some c) (c' : Client) :
    (s.setClient client c').clients[client]? = some c' :=
  List.getElem?_set_self (List.getElem?_eq_some_iff.mp at').1

/-- A step ends its wait as it should exactly when it does not misfire. A wake before the
deadline with a connection there throws, and a deadline with an empty pool runs into the
assertion; the other steps are as they should be. -/
theorem answers_iff : (∀ s', s.step event = some s' → Answers s event s') ↔ ¬ s.Misfires event := by
  constructor
  · rintro answers ⟨asserted, client, time, at', ⟨rfl, early, nonempty⟩ | ⟨rfl, late, drained⟩⟩
    · have stepped : s.step (.wake client) = some (s.setClient client (.threw s.timeOut)) := by
        simp [step, asserted, at', early, wake, nonempty, waitedFor]
      obtain ⟨conn, holds | holds⟩ := (answers _ stepped).woken client time rfl at' nonempty
      · cases (setClient_at at' _).symm.trans holds
      · cases (setClient_at at' _).symm.trans holds
    · have stepped : s.step (.expire client) = some (s.setClient client .asserts) := by
        simp [step, asserted, at', late, waitedFor, drained, fetchFront]
      exact (answers _ stepped).asserted (List.mem_of_getElem? (setClient_at at' _))
  · intro sound s' stepped
    have asserted := step_asserted stepped
    refine ⟨fun client time same at' nonempty => ?_, fun client same drained => ?_,
      (step_stepped stepped).asserted asserted sound⟩
    · subst same
      cases step_stepped stepped with
      | wake at'' early =>
        obtain rfl := Client.waiting.inj (Option.some.inj (at''.symm.trans at'))
        exact absurd ⟨asserted, client, time, at', Or.inl ⟨rfl, early time rfl, nonempty⟩⟩ sound
    · subst same
      cases step_stepped stepped with
      | expire at' late => exact absurd ⟨asserted, client, _, at', Or.inr ⟨rfl, late, drained⟩⟩ sound

/-- In a run of any clients on a new pool, all waits end as they should exactly when no
waiting fetch is woken before its deadline with a connection in the pool, and none has its
deadline pass with the pool empty.

Proof: the test of `wait_for` is inverted, so a fetch that is woken in time with a connection
there throws, and one whose deadline passes goes on to the front of an empty pool. These are
the steps that misfire, and every other step ends its wait as it should, so the two conditions
agree step by step. -/
theorem run_answers_iff (poolOpts : ConnectionPoolOptions) (clients : Nat) (now : Int) (events : List PoolEvent) :
    Along step (fun s event => ∀ s', s.step event = some s' → Answers s event s') (new poolOpts clients now) events ↔
      Along step (fun s event => ¬ s.Misfires event) (new poolOpts clients now) events :=
  Along.congr_of_invariant (fun _ => True) (fun _ _ _ _ _ => trivial) (fun _ _ _ => answers_iff) _ events trivial

/-- A client waits for the only connection, and is woken by its release. -/
theorem not_answers : ¬ ∀ (poolOpts : ConnectionPoolOptions) (clients : Nat) (now : Int) (events : List PoolEvent),
    0 < poolOpts.waitTimeout →
      Along step (fun s event => ∀ s', s.step event = some s' → Answers s event s') (new poolOpts clients now)
        events := by
  intro answers
  have along := answers onlyOne 2 0 [.fetch 0 none, .fetch 1 none, .release 0 ⟨.connected, 0⟩ "", .wake 1] (by decide)
  have woken := ((along.2 _ rfl).2 _ rfl).2 _ rfl
  obtain ⟨conn, holds | holds⟩ := (woken.1 _ rfl).woken 1 1000000000 rfl rfl (by decide)
  · cases holds
  · cases holds

end ConnectionPool

end Naruto.Connection
