import Naruto.Command.Hget
import Naruto.Theory.Linearization
import Naruto.Theory.Runs

/-!
# Workers on one store

Several workers execute `hset` and `hget` on numbers. A lookup and an insertion
are made under the mutex of the bucket, a number is set and read atomically, and
any worker may come in between. An `hset` that finds no element makes one, with
the value 0, inserts it and then sets it; the insertion keeps an element that is
there already, and the worker goes on with its own.

The commands can be put into a sequential order as long as nobody meets an element
between its insertion and its first set, every insertion finds its cell empty,
and no cell changes that an `hget` with fields left has answered.
-/

namespace Naruto.Command.Workers

open Naruto.Theory Naruto.Utils Naruto.Database

/-- A `Number` object: its class and its data. -/
inductive Number
  | int64 (data : Int64)
  | float (data : UInt32)
deriving DecidableEq, Repr

/-- The number as the value of an `hset`. -/
def Number.data : Number → CommandData
  | .int64 data => .int64V data
  | .float data => .floatV data

/-- `type()`. -/
def Number.type (n : Number) : FeatureType := n.data.kind

/-- The number in the reply of an `hget`. -/
def Number.feature (n : Number) : Feature := n.data.feature

/-- The kind of a number's value is its type. -/
theorem data_kind (n : Number) : n.data.kind = n.type := rfl

/-- `Number()`: the number of the class as it is made. -/
def Number.zero : Number → Number
  | .int64 _ => .int64 0
  | .float _ => .float 0

/-- The commands. -/
inductive Request
  | hset (cell : Cell) (value : Number)
  | hget (hget : CommandHget)
deriving DecidableEq

/-- Their replies. -/
inductive Reply
  | hset (reply : CommandReply)
  | hget (reply : CommandHgetReply)
deriving DecidableEq

/-- Where a worker is with its command. `created` tells that the element is the one
the worker has made and inserted. -/
inductive Pc
  | idle
  | getting (cell : Cell) (value : Number)
  | putting (cell : Cell) (value : Number) (data : Nat)
  | setting (cell : Cell) (value : Number) (data : Nat) (created : Bool)
  | looking (hget : CommandHget) (features : List Feature)
  | reading (hget : CommandHget) (features : List Feature) (data : Nat)
  | replying (request : Request) (reply : Reply)
deriving DecidableEq

/-- The elements by address, the store with their addresses, the workers, and what the
clients see. -/
structure State (m : Nat) where
  heap : List Number
  table : Cell → Option Nat
  pc : Fin m → Pc
  calls : Fin m → Nat
  history : List (CallEvent (Fin m) Request Reply)

/-- A worker takes a command, makes its next atomic step, or sends its reply. -/
inductive Event (m : Nat)
  | invoke (worker : Fin m) (request : Request)
  | advance (worker : Fin m)
  | reply (worker : Fin m)
deriving DecidableEq

variable {m : Nat}

/-- An empty store and idle workers. -/
def initial : State m := ⟨[], fun _ => none, fun _ => .idle, fun _ => 0, []⟩

/-- The reply of an `hset` whose element is of the kind of the value, or not. -/
def setReply (value number : Number) : CommandReply :=
  if value.type = number.type then ⟨0, ""⟩ else ⟨1, "data type is " ++ number.type.name⟩

/-- The loop of `hget`: on with the next field, or with the reply. -/
def answer (hget : CommandHget) (features : List Feature) : Pc :=
  if features.length < hget.fields.length then .looking hget features
  else .replying (.hget hget) (.hget ⟨⟨0, "success"⟩, features⟩)

/-- Where a command begins. -/
def Request.begin : Request → Pc
  | .hset cell value => .getting cell value
  | .hget query => answer query []

/-- `bucket::put` on addresses: `emplace` keeps what is there. -/
def emplace {A : Type} (table : Cell → Option A) (cell : Cell) (data : A) : Cell → Option A :=
  Function.update table cell ((table cell).or (some data))

/-- The next atomic step of a worker. An `hset` gets its cell, creates an element and inserts
it where there is none, and sets it; an `hget` looks its cells up and reads them one after
another. Each access to the table or to an element is one step. -/
def advance (s : State m) (w : Fin m) : Option (State m) :=
  match s.pc w with
  | .getting cell value =>
    match s.table cell with
    | some data => some { s with pc := Function.update s.pc w (.setting cell value data false) }
    | none => some
      { s with
        heap := s.heap ++ [value.zero]
        pc := Function.update s.pc w (.putting cell value s.heap.length) }
  | .putting cell value data => some
    { s with
      table := emplace s.table cell data
      pc := Function.update s.pc w (.setting cell value data true) }
  | .setting cell value data _ => s.heap[data]?.map fun number =>
    { s with
      heap := if value.type = number.type then s.heap.set data value else s.heap
      pc := Function.update s.pc w (.replying (.hset cell value) (.hset (setReply value number))) }
  | .looking hget features => hget.fields[features.length]?.map fun field =>
    match s.table (hget.key, field) with
    | some data => { s with pc := Function.update s.pc w (.reading hget features data) }
    | none => { s with pc := Function.update s.pc w (answer hget (features ++ [Feature.empty])) }
  | .reading hget features data => s.heap[data]?.map fun number =>
    { s with pc := Function.update s.pc w (answer hget (features ++ [number.feature])) }
  | .idle => none
  | .replying _ _ => none

/-- One event. A worker has one command at a time; its call is noted when it begins and when it
is answered. -/
def step (s : State m) : Event m → Option (State m)
  | .invoke w request =>
    if s.pc w = .idle then some
      { s with
        pc := Function.update s.pc w request.begin
        history := s.history ++ [.invoked (w, s.calls w) request] }
    else none
  | .advance w => advance s w
  | .reply w =>
    match s.pc w with
    | .replying request reply => some
      { s with
        pc := Function.update s.pc w .idle
        calls := Function.update s.calls w (s.calls w + 1)
        history := s.history ++ [.replied (w, s.calls w) request reply] }
    | _ => none

/-- The commands one after another, on a map from cells to numbers. -/
def apply (map : Cell → Option Number) : Request → (Cell → Option Number) × Reply
  | .hset cell value =>
    (assign Number.type map (cell, value), .hset (((map cell).map (setReply value)).getD ⟨0, ""⟩))
  | .hget hget =>
    (map, .hget ⟨⟨0, "success"⟩, hget.fields.map fun field =>
      ((map (hget.key, field)).map Number.feature).getD Feature.empty⟩)

/-- The insertion of a bucket is this one. -/
theorem emplace_put (b : Buckets) (key field : Str) (v : Element) :
    (fun cell : Cell => (b.put key field v).get cell.1 cell.2) =
      emplace (fun cell => b.get cell.1 cell.2) (key, field) v := by
  rw [emplace]
  exact Buckets.read_update id (b.get_put key field v)

/-- The store holds the numbers of the map. -/
abbrev Holds (db : Buckets) (map : Cell → Option Number) : Prop := Refines db fun cell => (map cell).map Number.data

/-- An `hset` that is executed alone does to the store, and replies, what the sequential
command does. -/
theorem execMsg_apply {parse : ParseHset} {db : Buckets} {map : Cell → Option Number} (holds : Holds db map)
    {message : Message} {cell : Cell} {value : Number} (sets : message.sets parse = some (cell, value.data)) :
    ∃ db' reply, execMsg parse message.clock message.flag message.type db message.body = some (db', reply) ∧
      Holds db' (apply map (.hset cell value)).1 ∧ (apply map (.hset cell value)).2 = .hset reply := by
  obtain ⟨db', reply, executed, refines, _, _⟩ := execMsg_refines holds sets
  refine ⟨db', reply, executed, ?_, ?_⟩
  · have image := assign_map data_kind map cell value
    exact refines.trans (congrArg (fun m : TypedMap => fun cell => (m cell).map CommandData.object) image)
  · obtain ⟨value', set, same⟩ := Option.map_eq_some_iff.mp sets
    obtain ⟨rfl, rfl⟩ := Prod.mk.inj same
    have stored : db.cells ((parse message.body).key, (parse message.body).field) =
        ((map ((parse message.body).key, (parse message.body).field)).map Number.data).map CommandData.object :=
      congrFun holds _
    rw [execMsg_reply set executed, stored, apply]
    cases map ((parse message.body).key, (parse message.body).field) with
    | none => rfl
    | some number =>
      simp only [Option.map_some, Option.getD_some, object_type, Object.typeName]
      rfl

/-- An `hget` that is executed alone replies what the sequential command does. -/
theorem exec_apply {db : Buckets} {map : Cell → Option Number} (holds : Holds db map) (parse : ParseHget)
    (s : List UInt8) : apply map (.hget (parse s)) = (map, .hget (CommandHget.exec parse db s)) := by
  rw [exec_refines holds]
  simp only [Option.map_map]
  rfl

/-- The numbers in the store. -/
def State.cells (s : State m) (cell : Cell) : Option Number := (s.table cell).bind fun data => s.heap[data]?

/-- The replies are those of some sequential order of the commands that is consistent
with real time, and so is the store when no worker is busy. -/
def Linearizable (s : State m) : Prop :=
  ∃ order map, Explains s.history order ∧ Legal apply (fun _ => none) order map ∧
    ((∀ w, s.pc w = .idle) → s.cells = map)

/-- Every number an `hget` returns has been the value of an `hset` of that cell. -/
def OnlyWritten (s : State m) : Prop :=
  ∀ id hget reply, .replied id (.hget hget) (.hget reply) ∈ s.history →
    ∀ entry ∈ hget.fields.zip reply.features, entry.2 = Feature.empty ∨
      ∃ id' value, .invoked id' (.hset (hget.key, entry.1) value) ∈ s.history ∧ entry.2 = value.feature

/-- Acknowledged `hset`s of one cell are of one kind. -/
def OneKind (s : State m) : Prop :=
  ∀ cell id value id' value' text text',
    .replied id (.hset cell value) (.hset ⟨0, text⟩) ∈ s.history →
    .replied id' (.hset cell value') (.hset ⟨0, text'⟩) ∈ s.history → value.type = value'.type

/-- The element a worker has inserted and not set yet. -/
def Pc.fills : Pc → Option Nat
  | .setting _ _ data true => some data
  | _ => none

/-- The element a worker has made and not set yet. -/
def Pc.owns : Pc → Option Nat
  | .putting _ _ data => some data
  | .setting _ _ data true => some data
  | _ => none

/-- The cells that an `hget` with fields left has answered. -/
def Pc.answered : Pc → List Cell
  | .looking hget features => (hget.fields.take features.length).map fun field => (hget.key, field)
  | .reading hget features _ => (hget.fields.take features.length).map fun field => (hget.key, field)
  | _ => []

/-- The element has been inserted and its creator has not set it yet. -/
def State.Unset (s : State m) (data : Nat) : Prop := ∃ w, (s.pc w).fills = some data

/-- Whether an object is unset can be decided: no worker but the one that made it counts. -/
instance (s : State m) (data : Nat) : Decidable (s.Unset data) :=
  inferInstanceAs (Decidable (∃ w, (s.pc w).fills = some data))

/-- A lookup of the cell finds no element that is still unset. -/
def State.Settled (s : State m) (cell : Cell) : Prop := ∀ data ∈ s.table cell, ¬ s.Unset data

/-- Whether a cell is settled can be decided, from the table and the heap. -/
instance (s : State m) (cell : Cell) : Decidable (s.Settled cell) :=
  inferInstanceAs (Decidable (∀ data ∈ s.table cell, ¬ s.Unset data))

/-- What a worker's next step must not meet: a lookup no unset element, an insertion no
element at all, and a set that changes its cell no `hget` with fields left that has
answered the cell. -/
def State.Clear (s : State m) : Pc → Prop
  | .getting cell _ => s.Settled cell
  | .putting cell _ _ => s.table cell = none
  | .setting cell value data _ =>
    (∀ number ∈ s.heap[data]?, value.type = number.type) → ∀ w, cell ∉ (s.pc w).answered
  | .looking hget features => ∀ field ∈ hget.fields[features.length]?, s.Settled (hget.key, field)
  | _ => True

/-- Whether a step is clear can be decided, stage by stage. -/
instance (s : State m) : (pc : Pc) → Decidable (s.Clear pc)
  | .getting cell _ => inferInstanceAs (Decidable (s.Settled cell))
  | .putting cell _ _ => inferInstanceAs (Decidable (s.table cell = none))
  | .setting cell value data _ => inferInstanceAs (Decidable
      ((∀ number ∈ s.heap[data]?, value.type = number.type) → ∀ w, cell ∉ (s.pc w).answered))
  | .looking hget features =>
    inferInstanceAs (Decidable (∀ field ∈ hget.fields[features.length]?, s.Settled (hget.key, field)))
  | .idle => .isTrue trivial
  | .reading _ _ _ => .isTrue trivial
  | .replying _ _ => .isTrue trivial

/-- No command comes in between two steps of another. -/
def Undisturbed (s : State m) : Event m → Prop
  | .advance w => s.Clear (s.pc w)
  | _ => True

/-- So can whether an event is undisturbed: only the advance of a worker asks for something. -/
instance (s : State m) : (event : Event m) → Decidable (Undisturbed s event)
  | .advance w => inferInstanceAs (Decidable (s.Clear (s.pc w)))
  | .invoke _ _ => .isTrue trivial
  | .reply _ => .isTrue trivial

end Naruto.Command.Workers
