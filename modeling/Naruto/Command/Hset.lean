import Naruto.Command.Commands
import Naruto.Database.Buckets
import Naruto.Theory.TypedCells
import Naruto.Utils.PackLoop

/-!
# The `hset` command

`execMsg` parses the message, creates the element when the cell is new, and sets
the value when the message's value and the stored object are of one class. Seen
on the cells it is a typed assignment: the class of the first object stored in a
cell fixes the class of the cell.

Parsing is the protobuf library's; the model takes it as a parameter.
-/

namespace Naruto.Command

open Naruto.Theory Naruto.Utils Naruto.Database

/-- `client::command_data`. -/
inductive CommandData
  | floatV (value : UInt32)
  | int64V (value : Int64)
  | bytesV (value : Str)
deriving DecidableEq, Repr

/-- `client::command_hset`. -/
structure CommandHset where
  key : Str
  field : Str
  ttl : Int64
  value : Option CommandData
deriving DecidableEq, Repr

/-- `client::command_reply`. -/
structure CommandReply where
  errcode : Nat
  errmsg : String
deriving DecidableEq, Repr

/-- `hset.ParseFromArray`: the message that protobuf reads from bytes. -/
abbrev ParseHset := List UInt8 → CommandHset

/-- The two readings of the system clock in one call. -/
structure Clock where
  create : TimePoint
  lru : TimePoint
deriving DecidableEq, Repr

/-- The object a value is stored as. -/
def CommandData.object : CommandData → Object
  | .floatV value => .float value
  | .int64V value => .int64 value
  | .bytesV value => .string value

/-- The object `execMsg` creates for a value. -/
def CommandData.created : CommandData → Object
  | .floatV _ => .float 0
  | .int64V _ => .int64 0
  | .bytesV _ => .string []

/-- The element `execMsg` creates, when it gets an object at all. Its expiry is left unbounded:
the source counts nanoseconds in an `int64`, which overflows for a `ttl` of some 290 years. -/
def CommandHset.element (hset : CommandHset) (clock : Clock) : Option Element :=
  hset.value.map fun value =>
    { encoding := 0
      create := clock.create
      lru := 0
      expire := if 0 < hset.ttl then clock.create + hset.ttl.toInt * 1000000000 else 0
      ptr := value.created }

/-- The three branches that set the value: the class of the stored object must be
that of the message's value. -/
def setValue (value : Option CommandData) (ptr : Object) : Option Object :=
  match value with
  | some (.bytesV v) => if ptr.type = .bytes then some (.string v) else none
  | some (.floatV v) => if ptr.type = .float then some (.float v) else none
  | some (.int64V v) => if ptr.type = .int then some (.int64 v) else none
  | none => none

/-- `CommandHset::execMsg`: the store and the reply. Nothing when a cell is new and
the message has no value: the null pointer just stored is dereferenced. -/
def execMsg (parse : ParseHset) (clock : Clock) (_flag _type : UInt16) (db : Buckets) (s : List UInt8) :
    Option (Buckets × CommandReply) := do
  let hset := parse s
  let (db, data) ← match db.get hset.key hset.field with
    | some data => some (db, data)
    | none => (hset.element clock).map fun data => (db.put hset.key hset.field data, data)
  match setValue hset.value data.ptr with
  | some ptr => some (db.modify hset.key hset.field fun data => { data with ptr := ptr, lru := clock.lru },
      ⟨0, ""⟩)
  | none => some (db.modify hset.key hset.field fun data => { data with lru := clock.lru },
      ⟨1, "data type is " ++ data.ptr.typeName⟩)

/-- What an `hset` message writes: a cell and an object. -/
def CommandHset.write (hset : CommandHset) : Option (Cell × Object) :=
  hset.value.map fun value => ((hset.key, hset.field), value.object)

/-- Setting succeeds exactly when the stored object has the class of the value's. -/
theorem setValue_some (value : CommandData) (ptr : Object) :
    setValue (some value) ptr = if value.object.type = ptr.type then some value.object else none := by
  cases value <;> cases ptr <;> rfl

/-- The created object has the class of the value's object. -/
theorem created_type (value : CommandData) : value.created.type = value.object.type := by
  cases value <;> rfl

/-- The object of a cell, read from its element. -/
theorem cells_get (db : Buckets) (key field : Str) :
    db.cells (key, field) = (db.get key field).map Element.ptr := rfl

/-- A write through the pointer of a cell's element changes that cell alone. -/
theorem cells_modify (db : Buckets) (key field : Str) (f : Element → Element) :
    (db.modify key field f).cells =
      Function.update db.cells (key, field) ((db.get key field).map fun data => (f data).ptr) := by
  have read := Buckets.read_update (Option.map Element.ptr) (db.get_modify key field f)
  rw [Option.map_map] at read
  exact read

/-- A put into an empty cell fills that cell alone. -/
theorem cells_put (db : Buckets) (key field : Str) (v : Element) (absent : db.get key field = none) :
    (db.put key field v).cells = Function.update db.cells (key, field) (some v.ptr) := by
  have read := Buckets.read_update (Option.map Element.ptr) (db.get_put key field v)
  rw [absent] at read
  exact read

/-- An `hset` with a value on a cell that holds an object. It sets the object when the classes
agree, and else changes nothing but a time. -/
theorem execMsg_present (parse : ParseHset) (clock : Clock) (flag type : UInt16) (db : Buckets)
    (s : List UInt8) (value : CommandData) (data : Element) (set : (parse s).value = some value)
    (found : db.get (parse s).key (parse s).field = some data) :
    ∃ db' reply, execMsg parse clock flag type db s = some (db', reply) ∧
      db'.cells = assign Object.type db.cells (((parse s).key, (parse s).field), value.object) ∧
      (reply.errcode = 0 ↔ value.object.type = data.ptr.type) := by
  have cell : db.cells ((parse s).key, (parse s).field) = some data.ptr := by
    rw [cells_get, found]
    rfl
  simp only [execMsg, found, Option.bind_eq_bind, Option.bind_some, set, setValue_some, assign, cell,
    assignCell]
  by_cases same : value.object.type = data.ptr.type
  · simp only [same, ↓reduceIte]
    refine ⟨_, _, rfl, ?_, by simp⟩
    rw [cells_modify, found]
    rfl
  · simp only [same, ↓reduceIte]
    refine ⟨_, _, rfl, ?_, by simp⟩
    rw [cells_modify, found]
    rfl

/-- An `hset` with a value on an empty cell. The element that it makes has the class of the
value, so it is set at once. -/
theorem execMsg_absent (parse : ParseHset) (clock : Clock) (flag type : UInt16) (db : Buckets)
    (s : List UInt8) (value : CommandData) (set : (parse s).value = some value)
    (absent : db.get (parse s).key (parse s).field = none) :
    ∃ db' reply, execMsg parse clock flag type db s = some (db', reply) ∧
      db'.cells = Function.update db.cells ((parse s).key, (parse s).field) (some value.object) ∧
      reply.errcode = 0 := by
  obtain ⟨data, made, ptr⟩ : ∃ data, (parse s).element clock = some data ∧ data.ptr = value.created := by
    rw [CommandHset.element, set]
    exact ⟨_, rfl, rfl⟩
  simp only [execMsg, absent, made, set, Option.map_some, Option.bind_eq_bind, Option.bind_some, ptr,
    setValue_some, created_type, ↓reduceIte]
  have stored : (db.put (parse s).key (parse s).field data).get (parse s).key (parse s).field = some data := by
    rw [Buckets.get_put, if_pos ⟨rfl, rfl⟩, absent, Option.none_or]
  refine ⟨_, _, rfl, ?_, rfl⟩
  rw [cells_modify, cells_put _ _ _ _ absent, stored, Function.update_idem]
  rfl

/-- An `hset` with a value assigns its cell, and replies 0 exactly when the cell accepts the
value. On an empty cell the element is created with a neutral object first, and then set as one
that was there. -/
theorem execMsg_value (parse : ParseHset) (clock : Clock) (flag type : UInt16) (db : Buckets) (s : List UInt8)
    (w : Cell × Object) (set : (parse s).write = some w) :
    ∃ db' reply, execMsg parse clock flag type db s = some (db', reply) ∧
      db'.cells = assign Object.type db.cells w ∧
      (reply.errcode = 0 ↔ Accepts Object.type (db.cells w.1) w.2) := by
  obtain ⟨value, hasValue, rfl⟩ := Option.map_eq_some_iff.mp set
  cases found : db.get (parse s).key (parse s).field with
  | some data =>
    obtain ⟨db', reply, executed, cells, accepted⟩ :=
      execMsg_present parse clock flag type db s value data hasValue found
    refine ⟨db', reply, executed, cells, accepted.trans ?_⟩
    rw [cells_get, found]
    rfl
  | none =>
    obtain ⟨db', reply, executed, cells, code⟩ :=
      execMsg_absent parse clock flag type db s value hasValue found
    have empty : db.cells ((parse s).key, (parse s).field) = none := by
      rw [cells_get, found]
      rfl
    refine ⟨db', reply, executed, ?_, ?_⟩
    · rw [cells, assign, empty]
      rfl
    · rw [code, empty]
      exact ⟨fun _ => trivial, fun _ => rfl⟩

/-- The reply of an `hset` with a value, text and all. An empty cell gets an element of the
value's class first; else the classes are compared. -/
theorem execMsg_reply {parse : ParseHset} {clock : Clock} {flag type : UInt16} {db db' : Buckets} {s : List UInt8}
    {value : CommandData} {reply : CommandReply} (set : (parse s).value = some value)
    (executed : execMsg parse clock flag type db s = some (db', reply)) :
    reply = ((db.cells ((parse s).key, (parse s).field)).map fun o =>
      if value.object.type = o.type then ⟨0, ""⟩ else ⟨1, "data type is " ++ o.typeName⟩).getD ⟨0, ""⟩ := by
  rw [cells_get]
  cases found : db.get (parse s).key (parse s).field with
  | none =>
    simp only [execMsg, found, CommandHset.element, set, Option.map_some, Option.bind_eq_bind, Option.bind_some,
      setValue_some, created_type, ↓reduceIte, Option.some.injEq, Prod.mk.injEq] at executed
    exact executed.2.symm
  | some data =>
    simp only [execMsg, found, set, Option.bind_eq_bind, Option.bind_some, setValue_some] at executed
    rw [Option.map_some, Option.map_some, Option.getD_some]
    by_cases same : value.object.type = data.ptr.type
    · simp only [same, ↓reduceIte, Option.some.injEq, Prod.mk.injEq] at executed
      rw [if_pos same]
      exact executed.2.symm
    · simp only [same, ↓reduceIte, Option.some.injEq, Prod.mk.injEq] at executed
      rw [if_neg same]
      exact executed.2.symm

/-- An assignment of an object that writes its field keeps every object so. A cell has its own
object still, or the one that is assigned. -/
theorem written_assign (s : Cell → Option Object) (w : Cell × Object) (written : ∀ cell o, s cell = some o → o.Written)
    (added : w.2.Written) (cell : Cell) (o : Object) (stored : assign Object.type s w cell = some o) :
    o.Written := by
  rw [assign] at stored
  by_cases here : cell = w.1
  · subst here
    rw [Function.update_self] at stored
    cases present : s w.1 with
    | none =>
      rw [present] at stored
      exact Option.some.inj stored ▸ added
    | some u =>
      rw [present, assignCell] at stored
      split at stored
      · exact Option.some.inj stored ▸ added
      · exact Option.some.inj stored ▸ written w.1 u present
  · rw [Function.update_of_ne here] at stored
    exact written cell o stored

/-- A value is stored as an object that writes its field. -/
theorem object_written (value : CommandData) : value.object.Written := by
  cases value <;> exact trivial

end Naruto.Command
