import Naruto.Command.Hset

/-!
# The `hget` command, and the store as a typed map

`exec` answers the requested fields in their order, each from its own lookup. A
sequence of `hset` messages with values keeps the sharded store an image of a
plain map from cells to typed values, in which the first value of a cell fixes
its kind; `hget` then reads that map.
-/

namespace Naruto.Command

open Naruto.Theory Naruto.Utils Naruto.Database

/-- `client::command_hget`. -/
structure CommandHget where
  key : Str
  fields : List Str
deriving DecidableEq, Repr

/-- `client::command_hget_reply`. -/
structure CommandHgetReply where
  state : CommandReply
  features : List Feature
deriving DecidableEq, Repr

/-- The `hget` message that protobuf reads from bytes. -/
abbrev ParseHget := List UInt8 → CommandHget

/-- The message `add_features()` appends. -/
def Feature.empty : Feature := ⟨.unknow, 0, 0, 0, 0, none⟩

/-- `CommandHget::exec` on the body of its packet. -/
def CommandHget.exec (parse : ParseHget) (db : Buckets) (s : List UInt8) : CommandHgetReply :=
  let hget := parse s
  { state := ⟨0, "success"⟩
    features := hget.fields.map fun field =>
      match db.get hget.key field with
      | some data => data.ptr.serialize Feature.empty
      | none => Feature.empty }

/-- The kind of a value. -/
def CommandData.kind : CommandData → FeatureType
  | .floatV _ => .float
  | .int64V _ => .int
  | .bytesV _ => .bytes

/-- A value with its type tag. -/
def CommandData.feature : CommandData → Feature
  | .floatV value => { Feature.empty with type := .float, kind := some (.floatValue value) }
  | .int64V value => { Feature.empty with type := .int, kind := some (.int64Value value) }
  | .bytesV value => { Feature.empty with type := .bytes, kind := some (.bytesValue value) }

/-- One `hset` message that a worker executes. -/
structure Message where
  clock : Clock
  flag : UInt16
  type : UInt16
  body : List UInt8

/-- Messages executed one after another, with their replies. -/
def execAll (parse : ParseHset) (db : Buckets) : List Message → Option (Buckets × List CommandReply)
  | [] => some (db, [])
  | m :: messages => do
    let (db, reply) ← execMsg parse m.clock m.flag m.type db m.body
    let (db, replies) ← execAll parse db messages
    some (db, reply :: replies)

/-- The cell of a message and the value it sets. -/
def Message.sets (parse : ParseHset) (m : Message) : Option (Cell × CommandData) :=
  (parse m.body).value.map fun value => (((parse m.body).key, (parse m.body).field), value)

/-- What the acknowledged messages have set. -/
def acknowledged (parse : ParseHset) (messages : List Message) (replies : List CommandReply) :
    List (Cell × CommandData) :=
  (messages.zip replies).filterMap fun exchange =>
    if exchange.2.errcode = 0 then exchange.1.sets parse else none

/-- The abstract store: a map from cells to typed values. -/
abbrev TypedMap := Cell → Option CommandData

/-- The store holds the objects of the values of the map. -/
def Refines (db : Buckets) (m : TypedMap) : Prop := db.cells = fun cell => (m cell).map CommandData.object

/-- The object a value is stored as has the type of the value. -/
@[simp] theorem object_type (value : CommandData) : value.object.type = value.kind := by
  cases value <;> rfl

/-- A stored value is sent with its tag. -/
theorem object_serialize (value : CommandData) : value.object.serialize Feature.empty = value.feature := by
  cases value <;> rfl

/-- One message: the map takes the value as the store does, and the reply tells
whether it did. -/
theorem execMsg_refines {parse : ParseHset} {db : Buckets} {m : TypedMap} (refines : Refines db m)
    {message : Message} {w : Cell × CommandData} (sets : message.sets parse = some w) :
    ∃ db' reply,
      execMsg parse message.clock message.flag message.type db message.body = some (db', reply) ∧
      Refines db' (assign CommandData.kind m w) ∧
      db'.cells = assign Object.type db.cells (w.1, w.2.object) ∧
      (reply.errcode = 0 ↔ Accepts CommandData.kind (m w.1) w.2) := by
  obtain ⟨value, set, rfl⟩ := Option.map_eq_some_iff.mp sets
  have write : (parse message.body).write =
      some (((parse message.body).key, (parse message.body).field), value.object) := by
    rw [CommandHset.write, set]
    rfl
  obtain ⟨db', reply, executed, cells, code⟩ :=
    execMsg_value parse message.clock message.flag message.type db message.body _ write
  have image : db.cells = fun cell => (m cell).map CommandData.object := refines
  refine ⟨db', reply, executed, ?_, cells, ?_⟩
  · rw [Refines, cells, image]
    exact assign_map object_type m _ value
  · rw [code, image]
    exact accepts_map object_type _ value

/-- A command that sets a value counts among the acknowledged ones when its reply is zero. -/
theorem acknowledged_cons (parse : ParseHset) (message : Message) (messages : List Message) (reply : CommandReply)
    (replies : List CommandReply) (w : Cell × CommandData) (sets : message.sets parse = some w) :
    acknowledged parse (message :: messages) (reply :: replies) =
      if reply.errcode = 0 then w :: acknowledged parse messages replies else acknowledged parse messages replies := by
  rw [acknowledged, List.zip_cons_cons, List.filterMap_cons]
  by_cases code : reply.errcode = 0
  · simp only [code, ↓reduceIte, sets]
    rfl
  · simp only [code, ↓reduceIte]
    rfl

/-- A sequence of messages with values, by induction on it: the store stays the image of the
map, and the acknowledged messages are the writes the map has accepted. A refused message
changes neither store nor map, and its reply says so. -/
theorem execAll_refines {parse : ParseHset} {messages : List Message}
    (valued : ∀ m ∈ messages, (m.sets parse).isSome) {db : Buckets} {m : TypedMap} (refines : Refines db m) :
    ∃ db' replies, execAll parse db messages = some (db', replies) ∧
      Refines db' (replay CommandData.kind m (messages.filterMap (Message.sets parse))) ∧
      acknowledged parse messages replies =
        successful CommandData.kind m (messages.filterMap (Message.sets parse)) := by
  induction messages generalizing db m with
  | nil => exact ⟨db, [], rfl, refines, rfl⟩
  | cons message messages ih =>
    obtain ⟨w, sets⟩ := Option.isSome_iff_exists.mp (valued message List.mem_cons_self)
    obtain ⟨db₁, reply, executed, refines₁, _, code⟩ := execMsg_refines refines sets
    obtain ⟨db', replies, rest, refines', same⟩ :=
      ih (fun m member => valued m (List.mem_cons_of_mem _ member)) refines₁
    refine ⟨db', reply :: replies, ?_, ?_, ?_⟩
    · simp only [execAll, executed, rest, Option.bind_eq_bind, Option.bind_some]
    · rw [List.filterMap_cons_some sets, replay_cons]
      exact refines'
    · rw [acknowledged_cons parse message messages reply replies w sets, List.filterMap_cons_some sets,
        successful, same]
      by_cases accepts : Accepts CommandData.kind (m w.1) w.2
      · rw [if_pos accepts, if_pos (code.mpr accepts)]
      · rw [if_neg accepts, if_neg fun zero => accepts (code.mp zero), assign_refused accepts]

/-- Two sequences, one after the other. -/
theorem execAll_append {parse : ParseHset} {db db₁ db₂ : Buckets} {front back : List Message}
    {replies₁ replies₂ : List CommandReply} (first : execAll parse db front = some (db₁, replies₁))
    (second : execAll parse db₁ back = some (db₂, replies₂)) :
    execAll parse db (front ++ back) = some (db₂, replies₁ ++ replies₂) := by
  induction front generalizing db replies₁ with
  | nil =>
    obtain ⟨rfl, rfl⟩ := Prod.mk.inj (Option.some.inj first)
    exact second
  | cons message front ih =>
    simp only [execAll, Option.bind_eq_bind, Option.bind_eq_some_iff, Option.some.injEq] at first
    obtain ⟨⟨middle, reply⟩, executed, ⟨last, replies⟩, rest, same⟩ := first
    obtain ⟨rfl, rfl⟩ := Prod.mk.inj same
    simp only [List.cons_append, execAll, executed, ih rest, Option.bind_eq_bind, Option.bind_some]

/-- `hget` on the image of a map reads the map. Field by field: an empty cell gives an empty
feature on both sides, and a stored object writes the feature of its value. -/
theorem exec_refines {db : Buckets} {m : TypedMap} (refines : Refines db m) (parse : ParseHget) (s : List UInt8) :
    CommandHget.exec parse db s =
      ⟨⟨0, "success"⟩, (parse s).fields.map fun field =>
        ((m ((parse s).key, field)).map CommandData.feature).getD Feature.empty⟩ := by
  rw [CommandHget.exec]
  congr 1
  apply List.map_congr_left
  intro field _
  have cell : (db.get (parse s).key field).map Element.ptr =
      (m ((parse s).key, field)).map CommandData.object := congrFun refines ((parse s).key, field)
  cases held : m ((parse s).key, field) with
  | none =>
    rw [held] at cell
    have absent : db.get (parse s).key field = none := Option.map_eq_none_iff.mp cell
    rw [absent]
    rfl
  | some value =>
    rw [held] at cell
    obtain ⟨data, found, ptr⟩ := Option.map_eq_some_iff.mp cell
    rw [found, Option.map_some, Option.getD_some, ← object_serialize, ← ptr]

/-- After any sequence of `hset` messages with values on an empty store, and one more: the
store is the image of the map that the messages describe. The last message is acknowledged
exactly when its cell is new or of the value's kind; then it sets that cell, and otherwise
nothing. An `hget` answers each field in turn with the value of the last acknowledged `hset`
of its cell, or with an empty feature.

Proof: the abstract map assigns typed values to cells and refuses a value of another kind.
Each message simulates one assignment, and its reply says whether it was refused; so after the
run the store is the replay of the messages, and the value of a cell is that of the last write
it accepted. -/
theorem hset_refines (parse : ParseHset) (messages : List Message) (message : Message) (cell : Cell)
    (value : CommandData) (valued : ∀ m ∈ messages, (m.sets parse).isSome)
    (sets : message.sets parse = some (cell, value)) :
    ∃ db replies db' reply,
      execAll parse Buckets.empty messages = some (db, replies) ∧
      execAll parse Buckets.empty (messages ++ [message]) = some (db', replies ++ [reply]) ∧
      Refines db (replay CommandData.kind (fun _ => none) (messages.filterMap (Message.sets parse))) ∧
      (reply.errcode = 0 ↔ ∀ o, db.cells cell = some o → o.type = value.kind) ∧
      (reply.errcode = 0 → db'.cells = Function.update db.cells cell (some value.object)) ∧
      (reply.errcode ≠ 0 → db'.cells = db.cells) ∧
      ∀ parseHget s, CommandHget.exec parseHget db s =
        ⟨⟨0, "success"⟩, (parseHget s).fields.map fun field =>
          ((writesTo ((parseHget s).key, field) (acknowledged parse messages replies)).getLast?.map
            CommandData.feature).getD Feature.empty⟩ := by
  have empty : Refines Buckets.empty fun _ => none := rfl
  obtain ⟨db, replies, ran, refines, same⟩ := execAll_refines valued empty
  obtain ⟨db', reply, executed, _, cells, code⟩ := execMsg_refines refines sets
  have image : db.cells = fun cell => _ := refines
  have last : execAll parse db [message] = some (db', [reply]) := by
    simp only [execAll, executed, Option.bind_eq_bind, Option.bind_some]
  have accepts : reply.errcode = 0 ↔ Accepts Object.type (db.cells cell) value.object := by
    rw [code, image]
    exact (accepts_map object_type _ value).symm
  refine ⟨db, replies, db', reply, ran, execAll_append ran last, refines, ?_, ?_, ?_, ?_⟩
  · rw [accepts]
    cases db.cells cell with
    | none => exact ⟨fun _ o impossible => absurd impossible (by simp), fun _ => trivial⟩
    | some u =>
      constructor
      · rintro kinds o held
        obtain rfl := Option.some.inj held
        rw [← object_type]
        exact kinds.symm
      · intro kinds
        exact (object_type value).trans (kinds u rfl).symm
  · intro zero
    rw [cells, assign, assignCell_accepts (accepts.mp zero)]
  · intro error
    rw [cells]
    exact assign_refused fun accepted => error (accepts.mpr accepted)
  · intro parseHget s
    rw [exec_refines refines, same]
    congr 1
    apply List.map_congr_left
    intro field _
    rw [replay_last, Option.or_none]

/-- A parser for examples: the first byte is the key, the rest a string, or a number
when nothing is left. -/
def mixedHset : ParseHset := fun s =>
  ⟨s.take 1, [], 0, some (if s.drop 1 = [] then .int64V 5 else .bytesV (s.drop 1))⟩

/-- Two strings set to one cell, one after the other. -/
def twoStrings : List Message := [⟨⟨0, 0⟩, 0, clientHset, [7, 1]⟩, ⟨⟨0, 0⟩, 0, clientHset, [7, 2]⟩]

/-- The second string stays when a number follows. -/
theorem hset_refines_strings :
    ∃ db replies db' reply,
      execAll mixedHset Buckets.empty twoStrings = some (db, replies) ∧
      execAll mixedHset Buckets.empty (twoStrings ++ [⟨⟨0, 0⟩, 0, clientHset, [7]⟩]) =
        some (db', replies ++ [reply]) ∧
      db.cells ([7], []) = some (.string [2]) ∧ reply.errcode ≠ 0 ∧ db'.cells = db.cells := by
  obtain ⟨db, replies, db', reply, ran, last, refines, code, _, kept, _⟩ :=
    hset_refines mixedHset twoStrings ⟨⟨0, 0⟩, 0, clientHset, [7]⟩ ([7], []) (.int64V 5) (by decide) rfl
  have held : db.cells ([7], []) = some (.string [2]) := (congrFun refines ([7], [])).trans rfl
  have refused : reply.errcode ≠ 0 := by
    intro zero
    exact absurd (code.mp zero _ held) (by decide)
  exact ⟨db, replies, db', reply, ran, last, held, refused, kept refused⟩

end Naruto.Command
