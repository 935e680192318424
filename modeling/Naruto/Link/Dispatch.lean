import Naruto.Link.ClientLink
import Naruto.Replication.Replication

/-!
# Dispatching a packet

`clientLink::onRead` hands a received packet to the command registered for its type,
and every other packet to `CommandNF`, which answers that it does not know it. The
start-up replay takes the same way to a command's `execMsg`. On both ways the name of
the type is logged before the table is consulted, and a number that the enumeration
does not have has no name: there the process ends, while the unregistered values of
the enumeration reach `CommandNF`.
-/

namespace Naruto.Link

open Naruto.Theory Naruto.Utils Naruto.Database Naruto.Command Naruto.Replication

/-- The calls of `reg` in `Commands::Commands`. -/
def cmds : List (UInt16 × Handler) :=
  [(clientHset, .commandHset), (clientHget, .commandHget), (replMulti, .commandAof), (replPsync, .commandPsync),
    (replSlaveof, .commandSlaveof), (replPing, .commandPing), (replPong, .commandPong)]

/-- What a handler works on: the server, and the messages queued in `wbuf` of the link,
each with its type. -/
structure Exchange (m : Nat) where
  server : Server m
  wbuf : List (UInt16 × CommandReply)

variable {m : Nat}

/-- `CommandNF::exec`. -/
def commandNFExec (x : Exchange m) : Exchange m := { x with wbuf := x.wbuf ++ [(nf, ⟨1, "Command Not Found"⟩)] }

/-- `clientLink::onRead` on one packet; `exec` stands for the registered commands. Nothing
when the name of the type is read through null. -/
def dispatch (exec : Handler → Bytes → Exchange m → Option (Exchange m)) (x : Exchange m) (p : Pack) :
    Option (Exchange m) := do
  let rbuf ← recv p
  let (rbuf, type) := onRead rbuf
  if ¬ describes type then none
  else match ← fetch type with
    | .commandNF => some (commandNFExec x)
    | handler => exec handler rbuf x

/-- A packet of a registered type goes to its handler, and any other one to `CommandNF`:
one reply of type `NF` is queued, and the server stays as it is. A replay that comes to
a packet without a handler goes on as if it were not there. -/
def Dispatched (parse : ParseHset) (p : Pack) : Prop :=
  (∀ handler, cmds.lookup p.type = some handler →
    ∀ (m : Nat) (exec : Handler → Bytes → Exchange m → Option (Exchange m)) (x : Exchange m),
      dispatch exec x p = exec handler (Bytes.filled p.serialize 8) x) ∧
  (cmds.lookup p.type = none →
    (∀ (m : Nat) (exec : Handler → Bytes → Exchange m → Option (Exchange m)) (x : Exchange m),
      dispatch exec x p = some ⟨x.server, x.wbuf ++ [(nf, ⟨1, "Command Not Found"⟩)]⟩) ∧
    ∀ (clock : Clock) (db : Buckets) (front back : List Pack),
      replayAof parse clock db (front ++ p :: back) = replayAof parse clock db (front ++ back))

/-- `fetch` is the table, behind the log line. The log line asks for the name of the type first,
so a type without descriptor does not get to the table. -/
theorem fetch_eq (type : UInt16) :
    fetch type = if describes type then some ((cmds.lookup type).getD .commandNF) else none := by
  have table : ∀ keys : List (UInt16 × Handler), ∀ key handler,
      ((key, handler) :: keys).lookup type = if type = key then some handler else keys.lookup type := by
    intro keys key handler
    rw [List.lookup_cons]
    by_cases same : type = key
    · rw [if_pos same, beq_iff_eq.mpr same]
    · rw [if_neg same, beq_false_of_ne same]
  by_cases described : describes type = true
  · rw [fetch, if_neg (not_not.mpr described), if_pos described]
    simp only [cmds, table, List.lookup_nil]
    congr 1
    split_ifs <;> rfl
  · rw [fetch, if_pos described, if_neg described]

/-- Every registered type has a name. -/
theorem describes_registered {type : UInt16} {handler : Handler} (registered : cmds.lookup type = some handler) :
    describes type = true ∧ handler ≠ .commandNF := by
  have all : ∀ entry ∈ cmds, describes entry.1 = true ∧ entry.2 ≠ .commandNF := by decide
  obtain ⟨front, back, split, _⟩ := List.lookup_eq_some_iff.mp registered
  exact all (type, handler) (by rw [split]; exact List.mem_append_right front List.mem_cons_self)

/-- The dispatch of a packet whose type has a name. -/
theorem dispatch_described (exec : Handler → Bytes → Exchange m → Option (Exchange m)) (x : Exchange m) {p : Pack}
    (described : describes p.type = true) :
    dispatch exec x p =
      match (cmds.lookup p.type).getD .commandNF with
      | .commandNF => some (commandNFExec x)
      | handler => exec handler (Bytes.filled p.serialize 8) x := by
  simp only [dispatch, recv_eq, Option.bind_eq_bind, Option.bind_some, onRead_received, described, not_true_eq_false,
    ↓reduceIte, fetch_eq]

/-- Without a name there is no dispatch. -/
theorem dispatch_nameless (exec : Handler → Bytes → Exchange m → Option (Exchange m)) (x : Exchange m) {p : Pack}
    (nameless : ¬ describes p.type = true) : dispatch exec x p = none := by
  simp only [dispatch, recv_eq, Option.bind_eq_bind, Option.bind_some, onRead_received]
  exact if_pos nameless

/-- Such a packet has no handler, and is not dispatched as it should be. -/
theorem nameless_not_dispatched {parse : ParseHset} {p : Pack} (nameless : ¬ describes p.type = true) :
    ¬ Dispatched parse p := by
  rintro ⟨_, other⟩
  have unregistered : cmds.lookup p.type = none := by
    by_contra registered
    obtain ⟨handler, entry⟩ := Option.ne_none_iff_exists'.mp registered
    exact nameless (describes_registered entry).1
  have answered := (other unregistered).1 0 (fun _ _ x => some x) ⟨Server.fresh 2 "", []⟩
  rw [dispatch_nameless _ _ nameless] at answered
  cases answered

/-- The replay skips a packet whose type has a name and no handler. -/
theorem replayAof_skips (parse : ParseHset) (clock : Clock) (db : Buckets) (front back : List Pack) {p : Pack}
    (described : describes p.type = true) (unregistered : cmds.lookup p.type = none) :
    replayAof parse clock db (front ++ p :: back) = replayAof parse clock db (front ++ back) := by
  have found : fetch p.type = some .commandNF := by
    rw [fetch_eq, if_pos described, unregistered]
    rfl
  have skipped : ∀ db, replayAof parse clock db (p :: back) = replayAof parse clock db back := by
    intro db
    rw [replayAof, List.foldlM_cons, execPack, found]
    rfl
  rw [replayAof, replayAof, List.foldlM_append, List.foldlM_append]
  exact congrArg (Option.bind _) (funext skipped)

/-- A packet is dispatched as it should be exactly when its type is a value of the
enumeration: the registered ones all are, and of the others only those reach the table.

Proof: the descriptor of a type outside the enumeration is a null pointer, which is
dereferenced for its name before the table is asked. Inside the enumeration the table decides:
a registered type gets its own handler, on the live path and in the replay, and another one is
refused live and skipped in the replay. -/
theorem dispatched_iff (parse : ParseHset) (p : Pack) : Dispatched parse p ↔ describes p.type = true := by
  constructor
  · intro dispatched
    by_contra nameless
    exact nameless_not_dispatched nameless dispatched
  · intro described
    constructor
    · intro handler registered m exec x
      have known := (describes_registered registered).2
      rw [dispatch_described exec x described, registered, Option.getD_some]
      cases handler with
      | commandNF => exact absurd rfl known
      | _ => rfl
    · intro unregistered
      constructor
      · intro m exec x
        rw [dispatch_described exec x described, unregistered]
        rfl
      · intro clock db front back
        exact replayAof_skips parse clock db front back described unregistered

/-- A packet without a body, of a type that the enumeration does not have. -/
theorem dispatched_not : ¬ ∀ (parse : ParseHset) (p : Pack), Dispatched parse p := by
  intro all
  have nameless : ¬ describes 8 = true := by decide
  exact nameless_not_dispatched nameless (all keyedHset ⟨0, 8, [], by decide⟩)

end Naruto.Link
