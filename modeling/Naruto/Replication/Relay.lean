import Naruto.Command.Replay
import Naruto.Replication.ReplicaLink

/-!
# The hop of a packet from master to slave

The sender copies the body of a packet into a character array with a zero byte
behind it and adds the array to the message, so the string that is sent ends
before the body's first zero byte; the flag is read and dropped. The slave
executes the string, and then frames it anew, with flag zero, for its own backlog. A type
that is not described, or an `hset` without a value for an empty cell, ends its process
before that. So a packet passes unchanged exactly when its flag is zero, no byte of its body
is, and the slave outlives the commands of the message up to it.
-/

namespace Naruto.Replication

open Naruto.Theory Naruto.Utils Naruto.Utils.File Naruto.Database Naruto.Command

/-- The packets that a tick of `onSendIncrToSlave` collects for its message. -/
def collected (dir : Dir) (link : ReplicaLink) : Option (List Call) := do
  let contents ← dir link.replAofFileName
  let sending ← readWindow (contents.drop link.replAofOff)
  some sending.calls

/-- What `CommandAof::exec` does with one command of a message: the arguments of
`execMsg`, which `backlogFeed` receives as well. -/
structure Relayed where
  flag : UInt16
  type : UInt16
  msg : List UInt8
  n : Nat
deriving DecidableEq, Repr

/-- The commands of a message: a string and its type at each index. -/
def CommandAof.relayed (message : CommandAof) : List Relayed :=
  (message.types.zip message.commands).map fun entry => ⟨0, entry.1, entry.2, entry.2.length⟩

/-- `commands->fetch(type)->execMsg(0, type, msg, n)`: the store afterwards. Nothing when the
process ends: the name of the type, or an object, is read through null. -/
def Relayed.execMsg (parse : ParseHset) (clock : Clock) (db : Buckets) (entry : Relayed) : Option Buckets := do
  match ← fetch entry.type with
  | .commandHset =>
    (Command.execMsg parse clock entry.flag entry.type db (entry.msg.take entry.n)).map Prod.fst
  | _ => some db

/-- The loop of `CommandAof::exec`: the commands that are executed and then fed, in order,
until the process ends. -/
def execFed (parse : ParseHset) (clock : Clock) (db : Buckets) : List Relayed → List Relayed
  | [] => []
  | entry :: entries =>
    match entry.execMsg parse clock db with
    | none => []
    | some db => entry :: execFed parse clock db entries

/-- The bytes that `backlogFeed` writes behind the command number. -/
def Relayed.fed (entry : Relayed) : Option (List UInt8) :=
  (Pack.serializeTo (entry.msg.take entry.n) entry.type Bytes.cleared).map Bytes.buf

/-- A command arrives as a packet unchanged: type, body and length are passed to `execMsg`,
and the slave's backlog gets the master's bytes. -/
structure Faithful (entry : Relayed) (p : Pack) : Prop where
  type : entry.type = p.type
  msg : entry.msg = p.body
  n : entry.n = p.body.length
  fed : entry.fed = some p.serialize

/-- A slave with this store executes and feeds the command at this index of a message, and it
is faithful to a packet. -/
def Arrives (parse : ParseHset) (clock : Clock) (db : Buckets) (message : CommandAof) (index : Nat) (p : Pack) : Prop :=
  ∃ entry, (execFed parse clock db message.relayed)[index]? = some entry ∧ Faithful entry p

/-- A command that a store outlives: its type is described, and an `hset` brings a value or
finds its cell. -/
def Relayed.Harmless (parse : ParseHset) (db : Buckets) (entry : Relayed) : Prop :=
  describes entry.type = true ∧ (entry.type = clientHset →
    let hset := parse (entry.msg.take entry.n)
    hset.value ≠ none ∨ db.get hset.key hset.field ≠ none)

/-- A store outlives commands, executed one after another. -/
def Outlives (parse : ParseHset) (clock : Clock) (db : Buckets) : List Relayed → Prop
  | [] => True
  | entry :: entries =>
    entry.Harmless parse db ∧ ∀ db', entry.execMsg parse clock db = some db' → Outlives parse clock db' entries

/-- The command that a slave makes of a packet that was collected. -/
def carriedCall (call : Call) : Relayed := ⟨0, call.type, cString call.msg, (cString call.msg).length⟩

/-- The message that follows the read loop lists what the loop has collected. -/
theorem finishSending_message {dir : Dir} {link link' : ReplicaLink} {message : CommandAof} {sending : Sending}
    (finished : finishSending dir link sending = some (link', some message)) :
    message.types = sending.calls.map Call.type ∧
      message.commands = sending.calls.map fun call => cString call.msg := by
  obtain ⟨next, _, rest⟩ := Option.bind_eq_some_iff.mp finished
  by_cases nothing : sending.buffer.size = 0
  · rw [if_pos nothing] at rest
    cases rest
  · rw [if_neg nothing] at rest
    obtain ⟨_, same⟩ := Prod.mk.inj (Option.some.inj rest)
    obtain rfl := Option.some.inj same
    exact ⟨rfl, rfl⟩

/-- A tick that sends a message has read a file with something in it. In all other cases it
returns before the message. -/
theorem tick_message {dir : Dir} {link link' : ReplicaLink} {message : CommandAof}
    (ticked : onSendIncrToSlave dir link = some (link', some message)) :
    ∃ contents sending, dir link.replAofFileName = some contents ∧
      readWindow (contents.drop link.replAofOff) = some sending ∧
      finishSending dir link sending = some (link', some message) := by
  rw [onSendIncrToSlave] at ticked
  split at ticked
  · cases ticked
  · split at ticked
    · cases ticked
    · rename_i contents found
      by_cases empty : contents = []
      · rw [if_pos empty] at ticked
        obtain ⟨next, _, rest⟩ := Option.bind_eq_some_iff.mp ticked
        cases next <;> cases rest
      · rw [if_neg empty] at ticked
        obtain ⟨sending, window, finished⟩ := Option.bind_eq_some_iff.mp ticked
        exact ⟨contents, sending, found, window, finished⟩

/-- The message of a tick lists what the tick has collected. -/
theorem message_collected {dir : Dir} {link link' : ReplicaLink} {message : CommandAof} {calls : List Call}
    (ticked : onSendIncrToSlave dir link = some (link', some message)) (took : collected dir link = some calls) :
    message.relayed = calls.map carriedCall := by
  obtain ⟨contents, sending, found, window, finished⟩ := tick_message ticked
  have calls' : sending.calls = calls := by
    rw [collected, found, Option.bind_eq_bind, Option.bind_some, window] at took
    exact Option.some.inj took
  obtain ⟨types, commands⟩ := finishSending_message finished
  rw [CommandAof.relayed, types, commands, calls', List.zip_map', List.map_map]
  rfl

/-- A string without a zero byte passes through a character array unchanged, and no other. -/
theorem cString_eq_self (msg : List UInt8) : cString msg = msg ↔ 0 ∉ msg := by
  rw [cString, List.takeWhile_eq_self_iff]
  constructor
  · intro nonzero zero
    exact absurd (nonzero 0 zero) (by decide)
  · intro absent byte member
    have other : byte ≠ 0 := fun same => absent (same ▸ member)
    simpa using other

/-- A character array never makes a string longer. -/
theorem cString_length_le (msg : List UInt8) : (cString msg).length ≤ msg.length :=
  (List.takeWhile_prefix _).length_le

/-- The packet that a slave makes of a packet of its master. -/
def reframe (p : Pack) : Pack where
  flag := 0
  type := p.type
  body := cString p.body
  fits := Nat.lt_of_le_of_lt (Nat.add_le_add_left (cString_length_le p.body) 8) p.fits

/-- The bytes fed for a packet are those of the new packet. -/
theorem fed_eq (p : Pack) :
    (carriedCall p.call).fed = some (reframe p).serialize := by
  have fits := (reframe p).fits
  have written := Pack.serializeTo_filled p.type (cString p.body) fits [] 0
    (by rw [List.length_nil, Nat.zero_add]; exact fits)
  change (Pack.serializeTo ((cString p.body).take (cString p.body).length) p.type Bytes.cleared).map Bytes.buf = _
  rw [List.take_length, Bytes.cleared_eq, written]
  rfl

/-- A packet that a tick collects passes unchanged exactly when its flag is zero and no
byte of its body is. -/
theorem relayed_faithful_iff (p : Pack) :
    Faithful (carriedCall p.call) p ↔ p.flag = 0 ∧ 0 ∉ p.body := by
  have fed := fed_eq p
  constructor
  · rintro ⟨_, same, _, bytes⟩
    refine ⟨?_, (cString_eq_self p.body).mp same⟩
    rw [fed] at bytes
    have fields := p.serialize_fields.2.1
    rw [← Option.some.inj bytes, (reframe p).serialize_fields.2.1] at fields
    exact UInt16.toNat_inj.mp fields.symm
  · rintro ⟨flag, absent⟩
    have same := (cString_eq_self p.body).mpr absent
    have whole : reframe p = p := by
      cases p
      simp only [reframe, Pack.mk.injEq, true_and]
      exact ⟨flag.symm, same⟩
    exact ⟨rfl, same, congrArg List.length same, fed.trans (by rw [whole])⟩

section Executing

variable {parse : ParseHset} {clock : Clock} {db : Buckets}

/-- A command is executed exactly when the store outlives it. By cases on the descriptor of the
type, the cell and the value. -/
theorem Relayed.execMsg_some_iff (entry : Relayed) :
    (∃ db', entry.execMsg parse clock db = some db') ↔ entry.Harmless parse db := by
  obtain ⟨flag, type, msg, n⟩ := entry
  by_cases known : describes type = true
  · by_cases hset : type = clientHset
    · subst hset
      have fetched : fetch clientHset = some .commandHset := by decide
      simp only [execMsg, fetched, Option.bind_eq_bind, Option.bind_some, Harmless, known, true_and, forall_const]
      cases found : db.get (parse (msg.take n)).key (parse (msg.take n)).field with
      | none =>
        cases unset : (parse (msg.take n)).value with
        | none =>
          have dies := execMsg_null parse clock flag clientHset db (msg.take n) unset found
          simp [dies]
        | some value =>
          obtain ⟨db', reply, executed, _⟩ :=
            execMsg_absent parse clock flag clientHset db (msg.take n) value unset found
          simp [executed]
      | some data =>
        cases unset : (parse (msg.take n)).value with
        | none =>
          obtain ⟨db', reply, executed, _⟩ :=
            execMsg_touch parse clock flag clientHset db (msg.take n) data unset found
          simp [executed]
        | some value =>
          obtain ⟨db', reply, executed, _⟩ :=
            execMsg_present parse clock flag clientHset db (msg.take n) value data unset found
          simp [executed]
    · have other : ∃ handler, fetch type = some handler ∧ handler ≠ .commandHset := by
        rw [fetch, if_neg (by simp [known]), if_neg hset]
        refine ⟨_, rfl, ?_⟩
        repeat' split
        all_goals exact fun same => by cases same
      obtain ⟨handler, fetched, apart⟩ := other
      refine iff_of_true ⟨db, ?_⟩ ⟨known, fun same => absurd same hset⟩
      rw [execMsg, fetched]
      cases handler <;> first | rfl | exact absurd rfl apart
  · refine iff_of_false ?_ fun harmless => known harmless.1
    rintro ⟨db', executed⟩
    simp [execMsg, fetch, known] at executed

/-- What is executed and fed of a message, up to an index: its command is when the store
outlives the commands up to it. By induction on the commands. -/
theorem execFed_getElem? (entries : List Relayed) (index : Nat) (entry : Relayed) :
    (execFed parse clock db entries)[index]? = some entry ↔
      entries[index]? = some entry ∧ Outlives parse clock db (entries.take (index + 1)) := by
  induction entries generalizing db index with
  | nil => simp [execFed]
  | cons first entries ih =>
    rw [execFed, List.take_succ_cons, Outlives, ← first.execMsg_some_iff]
    cases executed : first.execMsg parse clock db with
    | none => simp
    | some db' =>
      cases index with
      | zero => simp [Outlives]
      | succ index =>
        simp only [List.getElem?_cons_succ, ih]
        simp

end Executing

/-- For every tick that sends a message, and every store of the slave: a collected packet
arrives exactly when its flag is zero, no byte of its body is, and the slave outlives the
commands of the message up to it.

Proof: the commands of the message are the packets collected, cut at their zero bytes, and
each is framed anew with flag zero, so it is the packet exactly when nothing was cut and the
flag was zero. The loop executes and feeds as many of them as the slave outlives, which is an
induction on the commands. -/
theorem relayed_iff (parse : ParseHset) (clock : Clock) (db : Buckets) (dir : Dir) (link link' : ReplicaLink)
    (message : CommandAof) (calls : List Call) (index : Nat) (p : Pack)
    (ticked : onSendIncrToSlave dir link = some (link', some message))
    (took : collected dir link = some calls) (packet : calls[index]? = some p.call) :
    Arrives parse clock db message index p ↔
      p.flag = 0 ∧ 0 ∉ p.body ∧ Outlives parse clock db ((calls.take (index + 1)).map carriedCall) := by
  have listed : message.relayed[index]? = some (carriedCall p.call) := by
    rw [message_collected ticked took, List.getElem?_map, packet]
    rfl
  have faithful := relayed_faithful_iff p
  rw [Arrives, ← and_assoc, ← faithful, List.map_take, ← message_collected ticked took]
  constructor
  · rintro ⟨entry, fed, holds⟩
    obtain ⟨there, outlives⟩ := (execFed_getElem? _ _ _).mp fed
    obtain rfl := Option.some.inj (listed.symm.trans there)
    exact ⟨holds, outlives⟩
  · rintro ⟨holds, outlives⟩
    exact ⟨_, (execFed_getElem? _ _ _).mpr ⟨listed, outlives⟩, holds⟩

/-- A file with two stored bytes: the second packet arrives unchanged behind the first. -/
theorem relayed_second :
    Arrives keyedHset ⟨0, 0⟩ Buckets.empty (CommandAof.mk (genAofFilename 0) 18 [2000, 2000] [[7], [8]]) 1
      ⟨0, 2000, [8], by decide⟩ :=
  (relayed_iff keyedHset ⟨0, 0⟩ Buckets.empty (aofDir 0 [[⟨0, 2000, [7], by decide⟩, ⟨0, 2000, [8], by decide⟩]])
    ⟨genAofFilename 0, 0⟩ ⟨genAofFilename 0, 18⟩ ⟨genAofFilename 0, 18, [2000, 2000], [[7], [8]]⟩
    [⟨0, 2000, [7]⟩, ⟨0, 2000, [8]⟩] 1 ⟨0, 2000, [8], by decide⟩ (by decide +kernel) (by decide +kernel) rfl).mpr
    ⟨rfl, by decide, ⟨rfl, fun _ => .inl (by simp [keyedHset])⟩,
      fun _ _ => ⟨⟨rfl, fun _ => .inl (by simp [keyedHset])⟩, fun _ _ => trivial⟩⟩

/-- A body with a zero byte is cut. -/
theorem relay_cuts : ¬ ∀ (parse : ParseHset) (clock : Clock) (db : Buckets) (dir : Dir) (link link' : ReplicaLink)
    (message : CommandAof) (calls : List Call) (index : Nat) (p : Pack),
      onSendIncrToSlave dir link = some (link', some message) → collected dir link = some calls →
      calls[index]? = some p.call → Arrives parse clock db message index p := by
  intro always
  obtain ⟨entry, fed, faithful⟩ := always keyedHset ⟨0, 0⟩ Buckets.empty
    (aofDir 0 [[⟨0, 2000, [1, 0, 2], by decide⟩]]) ⟨genAofFilename 0, 0⟩
    ⟨genAofFilename 0, 11⟩ ⟨genAofFilename 0, 11, [2000], [[1]]⟩ [⟨0, 2000, [1, 0, 2]⟩] 0
    ⟨0, 2000, [1, 0, 2], by decide⟩ (by decide +kernel) (by decide +kernel) rfl
  have listed := ((execFed_getElem? _ _ _).mp fed).1
  have msg := faithful.msg
  rw [← Option.some.inj listed] at msg
  exact absurd msg (by decide)

end Naruto.Replication
