import Naruto.Command.Hget
import Naruto.Command.Replay

/-!
# Executing a log that overlaps the store

A dump may be ahead of the AOF position recorded for it: the start-up replay then
executes commands that the loaded store already holds. Successful `hset` messages
executed once more, from any place before the store's on, succeed again and lead
where they led: the kinds they need have been fixed by themselves, and a cell that
is moved back to an older value is moved on by what follows.
-/

namespace Naruto.Command

open Naruto.Theory Naruto.Utils Naruto.Database

/-- What a message is without the readings of the clock at its execution. -/
def Message.command (m : Message) : UInt16 × UInt16 × List UInt8 := (m.flag, m.type, m.body)

/-- The messages are executed, one after another, and each replies 0. -/
def Succeeds (parse : ParseHset) (db : Buckets) (messages : List Message) (db' : Buckets) : Prop :=
  ∃ replies, execAll parse db messages = some (db', replies) ∧ ∀ reply ∈ replies, reply.errcode = 0

/-- What the messages write. -/
def writesOfMessages (parse : ParseHset) (messages : List Message) : List (Cell × Object) :=
  messages.filterMap fun m => (parse m.body).write

/-- Nothing to execute. -/
theorem succeeds_nil (parse : ParseHset) (db : Buckets) : Succeeds parse db [] db :=
  ⟨[], rfl, fun _ member => absurd member List.not_mem_nil⟩

/-- One message, then others. All succeed exactly when the first does and the others do behind
it. -/
theorem succeeds_cons {parse : ParseHset} {db db' : Buckets} {m : Message} {messages : List Message} :
    Succeeds parse db (m :: messages) db' ↔
      ∃ middle reply, execMsg parse m.clock m.flag m.type db m.body = some (middle, reply) ∧ reply.errcode = 0 ∧
        Succeeds parse middle messages db' := by
  constructor
  · rintro ⟨replies, executed, zero⟩
    simp only [execAll, Option.bind_eq_bind, Option.bind_eq_some_iff, Option.some.injEq] at executed
    obtain ⟨⟨middle, reply⟩, first, ⟨last, later⟩, rest, same⟩ := executed
    obtain ⟨rfl, rfl⟩ := Prod.mk.inj same
    exact ⟨middle, reply, first, zero reply List.mem_cons_self, later, rest,
      fun r member => zero r (List.mem_cons_of_mem _ member)⟩
  · rintro ⟨middle, reply, first, code, later, rest, zero⟩
    refine ⟨reply :: later, ?_, ?_⟩
    · simp only [execAll, first, rest, Option.bind_eq_bind, Option.bind_some]
    · intro r member
      rcases List.mem_cons.mp member with rfl | behind
      · exact code
      · exact zero r behind

/-- Messages that succeed all have a value; their writes are accepted by the cells in turn, and
are what they do to the cells. By induction on the messages, from the front. -/
theorem Succeeds.writes {parse : ParseHset} {db db' : Buckets} {messages : List Message}
    (succeeds : Succeeds parse db messages db') :
    (∀ m ∈ messages, ∃ w, (parse m.body).write = some w) ∧
      Accepted Object.type db.cells (writesOfMessages parse messages) ∧
      db'.cells = replay Object.type db.cells (writesOfMessages parse messages) := by
  induction messages generalizing db with
  | nil =>
    obtain ⟨replies, executed, _⟩ := succeeds
    obtain ⟨rfl, _⟩ := Prod.mk.inj (Option.some.inj executed)
    exact ⟨fun _ member => absurd member List.not_mem_nil, trivial, rfl⟩
  | cons m messages ih =>
    obtain ⟨middle, reply, first, code, rest⟩ := succeeds_cons.mp succeeds
    obtain ⟨w, written, accepts, cells⟩ := execMsg_accepted first code
    obtain ⟨valued, accepted, last⟩ := ih rest
    have writes : writesOfMessages parse (m :: messages) = w :: writesOfMessages parse messages :=
      List.filterMap_cons_some written
    rw [writes]
    refine ⟨?_, ⟨accepts, cells ▸ accepted⟩, ?_⟩
    · intro m' member
      rcases List.mem_cons.mp member with rfl | behind
      · exact ⟨w, written⟩
      · exact valued m' behind
    · rw [last, cells, replay_cons]

/-- Messages with values succeed when the cells accept their writes in turn. By induction on the
messages: each does to the cells what its write does. -/
theorem succeeds_of_writes {parse : ParseHset} {db : Buckets} {messages : List Message}
    (valued : ∀ m ∈ messages, ∃ w, (parse m.body).write = some w)
    (accepted : Accepted Object.type db.cells (writesOfMessages parse messages)) :
    ∃ db', Succeeds parse db messages db' := by
  induction messages generalizing db with
  | nil => exact ⟨db, succeeds_nil parse db⟩
  | cons m messages ih =>
    obtain ⟨w, written⟩ := valued m List.mem_cons_self
    have writes : writesOfMessages parse (m :: messages) = w :: writesOfMessages parse messages :=
      List.filterMap_cons_some written
    rw [writes] at accepted
    obtain ⟨accepts, behind⟩ := accepted
    obtain ⟨middle, reply, executed, cells, code⟩ :=
      execMsg_value parse m.clock m.flag m.type db m.body w written
    obtain ⟨db', rest⟩ := ih (fun m' member => valued m' (List.mem_cons_of_mem _ member)) (cells ▸ behind)
    exact ⟨db', succeeds_cons.mpr ⟨middle, reply, executed, code.mpr accepts, rest⟩⟩

/-- The writes do not depend on the clock. A message's write is its command's cell and value,
and the clock is in neither. -/
theorem writes_command (parse : ParseHset) {messages messages' : List Message}
    (same : messages'.map Message.command = messages.map Message.command) :
    writesOfMessages parse messages' = writesOfMessages parse messages ∧
      ((∀ m ∈ messages, ∃ w, (parse m.body).write = some w) →
        ∀ m ∈ messages', ∃ w, (parse m.body).write = some w) := by
  induction messages generalizing messages' with
  | nil =>
    obtain rfl := List.map_eq_nil_iff.mp same
    exact ⟨rfl, fun valued => valued⟩
  | cons m messages ih =>
    obtain ⟨m', rest, rfl, command, later⟩ := List.map_eq_cons_iff.mp same
    obtain ⟨writes, valued'⟩ := ih later
    have body : m'.body = m.body := congrArg (fun command => command.2.2) command
    constructor
    · rw [writesOfMessages, writesOfMessages, List.filterMap_cons, List.filterMap_cons, body]
      rw [writesOfMessages, writesOfMessages] at writes
      rw [writes]
    · intro valued other member
      rcases List.mem_cons.mp member with rfl | behind
      · rw [body]
        exact valued m List.mem_cons_self
      · exact valued' (fun m member => valued m (List.mem_cons_of_mem _ member)) other behind

/-- Messages that all succeed from a store, in this order, lead through a store behind the
first `t`. Executed from there once more, from any `i` up to `t` on and with other readings of
the clock, they succeed again, and every cell ends with the kind and the value it ended with
the first time.

Proof: a message succeeds when its cell accepts the value's kind, and then the cell has that
kind for good. So the store behind the first `t` accepts the same writes again; and the last
write of each cell is the same in both orders, since the messages behind `t` come last in
both. -/
theorem overlap_succeeds (parse : ParseHset) (d last : Buckets) (messages redone : List Message) (i t : Nat)
    (succeeds : Succeeds parse d messages last) (order : i ≤ t) (_ : t ≤ messages.length)
    (same : redone.map Message.command = (messages.drop i).map Message.command) :
    ∃ middle, Succeeds parse d (messages.take t) middle ∧
      ∃ last', Succeeds parse middle redone last' ∧ last'.cells = last.cells := by
  obtain ⟨valued, accepted, cells⟩ := succeeds.writes
  have parts : messages = messages.take i ++ (messages.drop i).take (t - i) ++ messages.drop t := by
    rw [← List.take_add, Nat.add_sub_of_le order, List.take_append_drop]
  have front : messages.take t = messages.take i ++ (messages.drop i).take (t - i) := by
    rw [← List.take_add, Nat.add_sub_of_le order]
  have behind : messages.drop i = (messages.drop i).take (t - i) ++ messages.drop t := by
    have rest : (messages.drop i).drop (t - i) = messages.drop t := by
      rw [List.drop_drop, Nat.add_sub_of_le order]
    rw [← rest, List.take_append_drop]
  have split : ∀ l r, writesOfMessages parse (l ++ r) = writesOfMessages parse l ++ writesOfMessages parse r :=
    fun _ _ => List.filterMap_append
  rw [parts, split, split] at accepted cells
  obtain ⟨again, leads⟩ := accepted.overlap
  have taken : Accepted Object.type d.cells (writesOfMessages parse (messages.take t)) := by
    rw [front, split]
    exact ((accepted_append _ _ _).mp accepted).1
  obtain ⟨middle, first⟩ := succeeds_of_writes (fun m member => valued m (List.mem_of_mem_take member)) taken
  have there := first.writes.2.2
  rw [front, split] at there
  obtain ⟨writes, valued'⟩ := writes_command parse same
  rw [behind, split] at writes
  have overlaps : Accepted Object.type middle.cells (writesOfMessages parse redone) := by
    rw [writes, there]
    exact again
  obtain ⟨last', second⟩ :=
    succeeds_of_writes (valued' fun m member => valued m (List.mem_of_mem_drop member)) overlaps
  refine ⟨middle, first, last', second, ?_⟩
  rw [second.writes.2.2, writes, there, leads, cells]

/-- A string and a longer one for the same key: from the longer one on, both again. -/
theorem overlap_succeeds_strings : ∃ last middle last', Succeeds mixedHset Buckets.empty twoStrings last ∧
    Succeeds mixedHset Buckets.empty twoStrings middle ∧ Succeeds mixedHset middle twoStrings last' ∧
    last'.cells = last.cells := by
  have valued : ∀ m ∈ twoStrings, ∃ w, (mixedHset m.body).write = some w := by
    intro m _
    exact ⟨_, rfl⟩
  have accepted : Accepted Object.type Buckets.empty.cells (writesOfMessages mixedHset twoStrings) :=
    ⟨trivial, rfl, trivial⟩
  obtain ⟨last, succeeds⟩ := succeeds_of_writes valued accepted
  obtain ⟨middle, first, last', second, cells⟩ :=
    overlap_succeeds mixedHset Buckets.empty last twoStrings twoStrings 0 2 succeeds (Nat.zero_le 2) (Nat.le_refl 2) rfl
  exact ⟨last, middle, last', succeeds, first, second, cells⟩

end Naruto.Command
