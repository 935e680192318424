import Naruto.Command.Hset
import Naruto.Theory.CommandLog

/-!
# Executing packets

The start-up replay and `REPL_MULTI` execute a packet through the command table.
Only `hset` overrides `execMsg` with something that changes the store; for the
other commands it returns a default reply. On the cells of the store a packet is
a partial command: an `hset` with a value writes its cell, one without a value
needs the cell to be there.
-/

namespace Naruto.Command

open Naruto.Theory Naruto.Utils Naruto.Database

/-- `commands->fetch(type)->execMsg(flag, type, s, n)` for a packet. -/
def execPack (parse : ParseHset) (clock : Clock) (db : Buckets) (p : Pack) : Option (Buckets × CommandReply) := do
  match ← fetch p.type with
  | .commandHset => execMsg parse clock p.flag p.type db p.body
  | _ => some (db, ⟨0, ""⟩)

/-- What a packet does to the cells. -/
def entryOf (parse : ParseHset) (p : Pack) : Option (Entry Cell Object) :=
  (fetch p.type).map fun
    | .commandHset =>
      match (parse p.body).write with
      | some w => .write w.1 w.2
      | none => .touch ((parse p.body).key, (parse p.body).field)
    | _ => .skip

/-- The replay of packets on a store. -/
def replayAof (parse : ParseHset) (clock : Clock) (db : Buckets) (packs : List Pack) : Option Buckets :=
  packs.foldlM (fun db p => (execPack parse clock db p).map Prod.fst) db

/-- The packets of the AOF as commands on the cells. -/
abbrev performPacks (parse : ParseHset) (s : Cell → Option Object) (packs : List Pack) :
    Option (Cell → Option Object) := performAll Object.type (entryOf parse) s packs

/-- An `hset` without a value on an empty cell stores a null pointer and reads it. -/
theorem execMsg_null (parse : ParseHset) (clock : Clock) (flag type : UInt16) (db : Buckets) (s : List UInt8)
    (unset : (parse s).value = none) (absent : db.get (parse s).key (parse s).field = none) :
    execMsg parse clock flag type db s = none := by
  simp only [execMsg, absent, CommandHset.element, unset, Option.map_none, Option.bind_eq_bind, Option.bind_none]

/-- An `hset` without a value on a cell that holds an object changes no object and
replies an error. -/
theorem execMsg_touch (parse : ParseHset) (clock : Clock) (flag type : UInt16) (db : Buckets) (s : List UInt8)
    (data : Element) (unset : (parse s).value = none)
    (found : db.get (parse s).key (parse s).field = some data) :
    ∃ db' reply, execMsg parse clock flag type db s = some (db', reply) ∧ db'.cells = db.cells ∧
      reply.errcode ≠ 0 := by
  simp only [execMsg, found, unset, setValue, Option.bind_eq_bind, Option.bind_some]
  refine ⟨_, _, rfl, ?_, Nat.one_ne_zero⟩
  rw [cells_modify, found]
  apply Function.update_eq_self_iff.mpr
  rw [cells_get, found]

/-- A packet executed on the store is its command performed on the cells. An `hset` with a
value is an assignment, one without touches its cell, and any other packet does nothing. -/
theorem execPack_cells (parse : ParseHset) (clock : Clock) (db : Buckets) (p : Pack) :
    (execPack parse clock db p).map (fun result => result.1.cells) =
      perform Object.type (entryOf parse) db.cells p := by
  rw [execPack, perform, entryOf]
  cases fetch p.type with
  | none => rfl
  | some handler =>
    cases handler with
    | commandHset =>
      simp only [Option.bind_eq_bind, Option.bind_some, Option.map_some]
      cases written : (parse p.body).write with
      | some w =>
        obtain ⟨db', reply, executed, cells, _⟩ := execMsg_value parse clock p.flag p.type db p.body w written
        rw [executed]
        exact congrArg some cells
      | none =>
        have unset : (parse p.body).value = none := Option.map_eq_none_iff.mp written
        cases found : db.get (parse p.body).key (parse p.body).field with
        | none =>
          have absent : db.cells ((parse p.body).key, (parse p.body).field) = none := by
            rw [cells_get, found]
            rfl
          simp only [execMsg_null parse clock p.flag p.type db p.body unset found, Entry.perform, absent,
            Option.map_none, Option.isSome_none, Bool.false_eq_true, ↓reduceIte]
        | some data =>
          have present : db.cells ((parse p.body).key, (parse p.body).field) = some data.ptr := by
            rw [cells_get, found]
            rfl
          obtain ⟨db', reply, executed, cells, _⟩ :=
            execMsg_touch parse clock p.flag p.type db p.body data unset found
          simp only [executed, Entry.perform, present, Option.map_some, Option.isSome_some, ↓reduceIte, cells]
    | _ => rfl

/-- The replay on the store is the log performed on the cells. -/
theorem replayAof_cells (parse : ParseHset) (clock : Clock) (db : Buckets) (packs : List Pack) :
    (replayAof parse clock db packs).map Buckets.cells = performPacks parse db.cells packs := by
  induction packs generalizing db with
  | nil => rfl
  | cons p packs ih =>
    have first := execPack_cells parse clock db p
    rw [performPacks, performAll_cons, ← first, replayAof, List.foldlM_cons]
    cases execPack parse clock db p with
    | none => rfl
    | some result => exact ih result.1

/-- The replay of a log that the cells can perform. -/
theorem replayAof_of_perform {parse : ParseHset} (clock : Clock) {db : Buckets} {packs : List Pack}
    {t : Cell → Option Object} (performed : performPacks parse db.cells packs = some t) :
    ∃ db', replayAof parse clock db packs = some db' ∧ db'.cells = t :=
  Option.map_eq_some_iff.mp ((replayAof_cells parse clock db packs).trans performed)

/-- A packet that an `hset` with a value is: its type and what it writes. -/
def Writes (parse : ParseHset) (p : Pack) (w : Cell × Object) : Prop :=
  p.type = clientHset ∧ (parse p.body).write = some w

/-- Its entry is that write. -/
theorem Writes.entry {parse : ParseHset} {p : Pack} {w : Cell × Object} (writes : Writes parse p w) :
    entryOf parse p = some (.write w.1 w.2) := by
  have found : fetch p.type = some .commandHset := by
    rw [writes.1]
    decide
  rw [entryOf, found]
  simp only [Option.map_some, writes.2]

/-- Packets that all are an `hset` with a value do their writes on any store. -/
theorem performPacks_writes {parse : ParseHset} (s : Cell → Option Object) {packs : List Pack}
    (writes : ∀ p ∈ packs, ∃ w, Writes parse p w) :
    performPacks parse s packs = some (replay Object.type s (writesOf (entryOf parse) packs)) := by
  apply performAll_ready
  intro p member
  obtain ⟨w, written⟩ := writes p member
  exact ⟨_, written.entry, fun _ impossible => by cases impossible⟩

/-- An `hset` message that is executed: with a value it does what the sequential command does, and
without one it leaves the cells alone and replies an error. -/
theorem execMsg_some {parse : ParseHset} {clock : Clock} {flag type : UInt16} {db db' : Buckets} {s : List UInt8}
    {reply : CommandReply} (executed : execMsg parse clock flag type db s = some (db', reply)) :
    (∃ w, (parse s).write = some w ∧ db'.cells = assign Object.type db.cells w ∧
      (reply.errcode = 0 ↔ Accepts Object.type (db.cells w.1) w.2)) ∨
      (db'.cells = db.cells ∧ reply.errcode ≠ 0) := by
  cases written : (parse s).write with
  | some w =>
    obtain ⟨db'', reply'', executed', cells, accepted⟩ := execMsg_value parse clock flag type db s w written
    obtain ⟨rfl, rfl⟩ := Prod.mk.inj (Option.some.inj (executed.symm.trans executed'))
    exact Or.inl ⟨w, rfl, cells, accepted⟩
  | none =>
    have unset : (parse s).value = none := Option.map_eq_none_iff.mp written
    cases found : db.get (parse s).key (parse s).field with
    | none =>
      rw [execMsg_null parse clock flag type db s unset found] at executed
      exact absurd executed (by simp)
    | some data =>
      obtain ⟨db'', reply'', executed', cells, error⟩ := execMsg_touch parse clock flag type db s data unset found
      obtain ⟨rfl, rfl⟩ := Prod.mk.inj (Option.some.inj (executed.symm.trans executed'))
      exact Or.inr ⟨cells, error⟩

/-- An `hset` message that is executed and replies 0 had a value, and its cell accepted it. -/
theorem execMsg_accepted {parse : ParseHset} {clock : Clock} {flag type : UInt16} {db db' : Buckets} {s : List UInt8}
    {reply : CommandReply} (executed : execMsg parse clock flag type db s = some (db', reply))
    (code : reply.errcode = 0) :
    ∃ w, (parse s).write = some w ∧ Accepts Object.type (db.cells w.1) w.2 ∧
      db'.cells = assign Object.type db.cells w := by
  rcases execMsg_some executed with ⟨w, written, cells, accepted⟩ | ⟨_, error⟩
  · exact ⟨w, written, accepted.mp code, cells⟩
  · exact absurd code error

/-- An `hset` message that is executed and replies another code has left the cells alone. -/
theorem execMsg_refused {parse : ParseHset} {clock : Clock} {flag type : UInt16} {db db' : Buckets} {s : List UInt8}
    {reply : CommandReply} (executed : execMsg parse clock flag type db s = some (db', reply))
    (code : reply.errcode ≠ 0) : db'.cells = db.cells := by
  rcases execMsg_some executed with ⟨w, _, cells, accepted⟩ | ⟨same, _⟩
  · have refuses : ¬ Accepts Object.type (db.cells w.1) w.2 := fun accepts => code (accepted.mpr accepts)
    rw [cells, assign, assignCell_refuses refuses, Function.update_eq_self]
  · exact same

/-- A packet of an `hset` goes to `execMsg`. -/
theorem execPack_hset {parse : ParseHset} {clock : Clock} {db : Buckets} {p : Pack} (hset : p.type = clientHset) :
    execPack parse clock db p = execMsg parse clock p.flag p.type db p.body := by
  have found : fetch p.type = some .commandHset := by
    rw [hset]
    decide
  rw [execPack, found]
  rfl

/-- The same for a packet. -/
theorem execPack_accepted {parse : ParseHset} {clock : Clock} {db db' : Buckets} {p : Pack} {reply : CommandReply}
    (hset : p.type = clientHset) (executed : execPack parse clock db p = some (db', reply))
    (code : reply.errcode = 0) :
    ∃ w, Writes parse p w ∧ Accepts Object.type (db.cells w.1) w.2 ∧ db'.cells = assign Object.type db.cells w := by
  rw [execPack_hset hset] at executed
  obtain ⟨w, written, accepts, cells⟩ := execMsg_accepted executed code
  exact ⟨w, ⟨hset, written⟩, accepts, cells⟩

/-- An `hset` that is refused leaves every cell as it was. -/
theorem execPack_refused {parse : ParseHset} {clock : Clock} {db db' : Buckets} {p : Pack} {reply : CommandReply}
    (hset : p.type = clientHset) (executed : execPack parse clock db p = some (db', reply))
    (code : reply.errcode ≠ 0) : db'.cells = db.cells := by
  rw [execPack_hset hset] at executed
  exact execMsg_refused executed code

/-- An `hset` message keeps every object of the store one that writes its field. -/
theorem execMsg_written {parse : ParseHset} {clock : Clock} {flag type : UInt16} {db db' : Buckets} {s : List UInt8}
    {reply : CommandReply} (written : db.Written)
    (executed : execMsg parse clock flag type db s = some (db', reply)) : db'.Written := by
  intro cell o stored
  rcases execMsg_some executed with ⟨w, set, cells, _⟩ | ⟨same, _⟩
  · rw [cells] at stored
    obtain ⟨value, _, rfl⟩ := Option.map_eq_some_iff.mp set
    exact written_assign db.cells _ written (object_written value) cell o stored
  · rw [same] at stored
    exact written cell o stored

/-- Executing a packet keeps every object of the store one that writes its field. It does no
more to the cells than one write, and that is of an object made from a value. -/
theorem execPack_written {parse : ParseHset} {clock : Clock} {db db' : Buckets} {p : Pack} {reply : CommandReply}
    (written : db.Written) (executed : execPack parse clock db p = some (db', reply)) : db'.Written := by
  have performed := execPack_cells parse clock db p
  rw [executed] at performed
  obtain ⟨e, found, same, _⟩ := perform_eq performed.symm
  have cells : db'.cells = replay Object.type db.cells e.writes := same
  intro cell o stored
  rw [cells] at stored
  cases e with
  | touch c => exact written cell o stored
  | skip => exact written cell o stored
  | write c v =>
    apply written_assign db.cells (c, v) written ?_ cell o stored
    obtain ⟨handler, _, made⟩ := Option.map_eq_some_iff.mp found
    cases handler with
    | commandHset =>
      cases set : (parse p.body).write with
      | none => simp [set] at made
      | some w =>
        obtain ⟨value, _, rfl⟩ := Option.map_eq_some_iff.mp set
        simp only [set, Entry.write.injEq] at made
        exact made.2 ▸ object_written value
    | _ => exact absurd made (by simp)

/-- A replay keeps every object of the store one that writes its field. -/
theorem replayAof_written {parse : ParseHset} {clock : Clock} {db db' : Buckets} {packs : List Pack}
    (written : db.Written) (replayed : replayAof parse clock db packs = some db') : db'.Written := by
  induction packs generalizing db with
  | nil =>
    obtain rfl := Option.some.inj replayed
    exact written
  | cons p packs ih =>
    rw [replayAof, List.foldlM_cons] at replayed
    obtain ⟨middle, first, rest⟩ := Option.bind_eq_some_iff.mp replayed
    obtain ⟨⟨db'', reply⟩, executed, rfl⟩ := Option.map_eq_some_iff.mp first
    exact ih (execPack_written written executed) rest

/-- A parser for examples: the first byte is the key, the rest the value. -/
def keyedHset : ParseHset := fun s => ⟨s.take 1, [], 0, some (.bytesV (s.drop 1))⟩

/-- An `hset` packet for this parser. -/
def keyedPack (key value : UInt8) : Pack := ⟨0, clientHset, [key, value], (by decide : 10 < 2 ^ 32)⟩

/-- It writes its value to its key. -/
theorem perform_keyedPack_cons (s : Cell → Option Object) (key value : UInt8) (packs : List Pack) :
    performPacks keyedHset s (keyedPack key value :: packs) =
      performPacks keyedHset (assign Object.type s (([key], []), .string [value])) packs := by
  have writes : Writes keyedHset (keyedPack key value) (([key], []), .string [value]) := ⟨rfl, rfl⟩
  rw [performPacks, performAll_cons, perform, writes.entry]
  rfl

/-- Alone it does nothing else. -/
theorem perform_keyedPack (s : Cell → Option Object) (key value : UInt8) :
    performPacks keyedHset s [keyedPack key value] = some (assign Object.type s (([key], []), .string [value])) :=
  perform_keyedPack_cons s key value []

/-- An `hset` packet for this parser whose body begins with a copy of its header. -/
def copiedPack : Pack := ⟨0, clientHset, [17, 0, 0, 0, 0, 0, 208, 7, 5], (by decide : 17 < 2 ^ 32)⟩

/-- It writes what follows the key. -/
theorem perform_copiedPack (s : Cell → Option Object) : performPacks keyedHset s [copiedPack] =
    some (assign Object.type s (([17], []), .string [0, 0, 0, 0, 0, 208, 7, 5])) := by
  have writes : Writes keyedHset copiedPack (([17], []), .string [0, 0, 0, 0, 0, 208, 7, 5]) := ⟨rfl, rfl⟩
  rw [performPacks, performAll_cons, perform, writes.entry]
  rfl

/-- A store for examples: one key with one value. -/
def keyedDb (key value : UInt8) : Buckets := Buckets.empty.put [key] [] ⟨0, 0, 0, 0, .string [value]⟩

/-- Its cells. -/
theorem keyedDb_cells (key value : UInt8) :
    (keyedDb key value).cells = Function.update (fun _ => none) ([key], []) (some (.string [value])) :=
  cells_put _ _ _ _ rfl

/-- Its object writes its field. -/
theorem keyedDb_written (key value : UInt8) : (keyedDb key value).Written := by
  intro cell o stored
  rw [keyedDb_cells] at stored
  by_cases here : cell = ([key], [])
  · rw [here, Function.update_self] at stored
    obtain rfl := Option.some.inj stored
    exact trivial
  · rw [Function.update_of_ne here] at stored
    cases stored

end Naruto.Command
