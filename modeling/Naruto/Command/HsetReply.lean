import Naruto.Command.Hget
import Naruto.Command.Replay
import Naruto.Replication.Backlog
import Naruto.Theory.Runs

/-!
# The reply to an `hset`, down to the pointers

An element points to its object, and the pointer may be null. `execMsg` puts the element
of a new cell into the store before it looks at the kind of the value, and a value
without a kind gives it no object. The branch that would refuse such a message names
the type of the object, through the null pointer.
-/

namespace Naruto.Command

open Naruto.Theory Naruto.Utils Naruto.Database Naruto.Replication

/-- `element`, with a pointer to an object that may be null. `execMsg` stores the element
before it has looked at the pointer. -/
structure SharedElement where
  encoding : UInt32
  create : TimePoint
  lru : TimePoint
  expire : TimePoint
  ptr : Option Object
deriving DecidableEq, Repr

/-- The store as `get` and `put` see it. -/
abbrev SharedStore := Cell → Option SharedElement

/-- An element with an object. -/
def share (v : Element) : SharedElement := ⟨v.encoding, v.create, v.lru, v.expire, some v.ptr⟩

/-- A store whose elements have objects. -/
def sharedStore (db : Buckets) : SharedStore := fun cell => (db.get cell.1 cell.2).map share

/-- The element that `execMsg` creates. -/
def CommandHset.sharedElement (hset : CommandHset) (clock : Clock) : SharedElement where
  encoding := 0
  create := clock.create
  lru := 0
  expire := if 0 < hset.ttl then clock.create + hset.ttl.toInt * 1000000000 else 0
  ptr := hset.value.map CommandData.created

/-- `CommandHset::execMsg`: the store when it returns with a reply, or when it
dereferences a null pointer. All branches read the type of the object. -/
def execMsgShared (parse : ParseHset) (clock : Clock) (store : SharedStore) (s : List UInt8) :
    SharedStore × Option CommandReply :=
  let hset := parse s
  let cell := (hset.key, hset.field)
  let (store, data) := match store cell with
    | some data => (store, data)
    | none =>
      let data := hset.sharedElement clock
      (Function.update store cell (some data), data)
  match data.ptr with
  | none => (store, none)
  | some ptr =>
    match setValue hset.value ptr with
    | some ptr' => (Function.update store cell (some { data with ptr := some ptr', lru := clock.lru }), some ⟨0, ""⟩)
    | none => (Function.update store cell (some { data with lru := clock.lru }),
        some ⟨1, "data type is " ++ ptr.typeName⟩)

/-- What the command changes: the store and the backlog. -/
structure Serving (m : Nat) where
  store : SharedStore
  backlog : Backlog m

/-- `CommandHset::exec`: the packet is fed behind a reply of 0. The message is taken to be the
packet's own body; `Link.liveArgs` is what `exec` passes otherwise. -/
def Serving.exec {m : Nat} (parse : ParseHset) (clock : Clock) (tid : Fin m) (s : Serving m) (p : Pack) :
    Serving m × Option CommandReply :=
  match execMsgShared parse clock s.store p.body with
  | (store, none) => ({ s with store := store }, none)
  | (store, some reply) =>
    if reply.errcode = 0 then (⟨store, s.backlog.backlogFeed tid p⟩, some reply)
    else ({ s with store := store }, some reply)

/-- `CommandHget::exec`: nothing when it dereferences a null pointer. -/
def CommandHget.execShared (parse : ParseHget) (store : SharedStore) (s : List UInt8) : Option CommandHgetReply :=
  let hget := parse s
  (hget.fields.mapM fun field =>
    match store (hget.key, field) with
    | none => some Feature.empty
    | some data => data.ptr.map fun ptr => Object.serialize ptr Feature.empty).map
      fun features => ⟨⟨0, "success"⟩, features⟩

/-- The objects of the cells. -/
def objects (store : SharedStore) (cell : Cell) : Option (Option Object) := (store cell).map SharedElement.ptr

/-- No stored element has a null pointer. -/
def NonNull (store : SharedStore) : Prop := ∀ cell data, store cell = some data → data.ptr ≠ none

/-- What should come of an `hset`: a reply of 0 with the value stored and the packet fed,
or another reply, with all cells, their kinds and values as they were, and nothing fed. -/
def Replies {m : Nat} (parse : ParseHset) (clock : Clock) (tid : Fin m) (s : Serving m) (p : Pack) : Prop :=
  ∃ s' reply, s.exec parse clock tid p = (s', some reply) ∧
    ((reply.errcode = 0 ∧ s'.backlog = s.backlog.backlogFeed tid p ∧ ∃ value, (parse p.body).value = some value ∧
        objects s'.store =
          Function.update (objects s.store) ((parse p.body).key, (parse p.body).field) (some (some value.object))) ∨
      (reply.errcode ≠ 0 ∧ s'.backlog = s.backlog ∧ objects s'.store = objects s.store))

/-- The cell of a message has an element with an object, or it has none and the message's
value has a kind. -/
def GetsObject (store : SharedStore) (hset : CommandHset) : Prop :=
  match store (hset.key, hset.field) with
  | some data => data.ptr ≠ none
  | none => hset.value ≠ none

/-- What happens to the store: an `hset` of a client, a message executed in a replay or by
`REPL_MULTI`, and a load of a database file. -/
inductive StoreEvent (m : Nat)
  | hset (clock : Clock) (tid : Fin m) (p : Pack)
  | execMsg (clock : Clock) (body : List UInt8)
  | load (file : List Features)

/-- One event, and whether the process is still there. -/
def Serving.happens {m : Nat} (parse : ParseHset) (s : Serving m) : StoreEvent m → Serving m × Bool
  | .hset clock tid p =>
    let done := s.exec parse clock tid p
    (done.1, done.2.isSome)
  | .execMsg clock body =>
    let done := execMsgShared parse clock s.store body
    ({ s with store := done.1 }, done.2.isSome)
  | .load file => ({ s with store := sharedStore (Buckets.load file) }, true)

/-- A step of the process. Nothing comes after a null dereference. -/
def Serving.step {m : Nat} (parse : ParseHset) (s : Serving m × Bool) (event : StoreEvent m) :
    Option (Serving m × Bool) :=
  if s.2 then some (s.1.happens parse event) else none

/-- The condition for an event. -/
def StoreEvent.GetsObject {m : Nat} (parse : ParseHset) (s : Serving m × Bool) : StoreEvent m → Prop
  | .hset _ _ p => Command.GetsObject s.1.store (parse p.body)
  | .execMsg _ body => Command.GetsObject s.1.store (parse body)
  | .load _ => True

/-- A change of an element changes its cell's object and no other. -/
theorem objects_update (store : SharedStore) (cell : Cell) (data : SharedElement) :
    objects (Function.update store cell (some data)) = Function.update (objects store) cell (some data.ptr) := by
  funext other
  by_cases here : other = cell
  · subst here
    rw [objects, Function.update_self, Function.update_self]
    rfl
  · rw [objects, Function.update_of_ne here, Function.update_of_ne here]
    rfl

/-- Without null objects no cell holds one, in the words of the cells. -/
theorem nonNull_iff (store : SharedStore) : NonNull store ↔ ∀ cell, objects store cell ≠ some none := by
  constructor
  · intro nonNull cell null
    obtain ⟨data, stored, empty⟩ := Option.map_eq_some_iff.mp null
    exact nonNull cell data stored empty
  · intro nonNull cell data stored empty
    apply nonNull cell
    rw [objects, stored, Option.map_some, empty]

/-- A store of elements with objects has no null pointer. -/
theorem nonNull_sharedStore (db : Buckets) : NonNull (sharedStore db) := by
  intro cell data stored
  obtain ⟨v, _, rfl⟩ := Option.map_eq_some_iff.mp stored
  exact Option.some_ne_none _

/-- `execMsg` with an object to look at: it replies, and the store has the value, or the
objects it had. By cases on the element of the cell and the value: a value of another kind, or
none, leaves the objects. -/
theorem execMsgShared_gets {parse : ParseHset} {store : SharedStore} {s : List UInt8} (clock : Clock)
    (gets : GetsObject store (parse s)) :
    ∃ store' reply, execMsgShared parse clock store s = (store', some reply) ∧
      ((reply.errcode = 0 ∧ ∃ value, (parse s).value = some value ∧
          objects store' =
            Function.update (objects store) ((parse s).key, (parse s).field) (some (some value.object))) ∨
        (reply.errcode ≠ 0 ∧ objects store' = objects store)) := by
  rw [GetsObject] at gets
  cases found : store ((parse s).key, (parse s).field) with
  | some data =>
    rw [found] at gets
    obtain ⟨ptr, object⟩ := Option.ne_none_iff_exists'.mp gets
    simp only [execMsgShared, found, object]
    cases set : setValue (parse s).value ptr with
    | none =>
      refine ⟨_, _, rfl, Or.inr ⟨Nat.one_ne_zero, ?_⟩⟩
      rw [objects_update]
      apply Function.update_eq_self_iff.mpr
      rw [objects, found]
      exact congrArg some object.symm
    | some ptr' =>
      refine ⟨_, _, rfl, Or.inl ⟨rfl, ?_⟩⟩
      cases value : (parse s).value with
      | none =>
        rw [value] at set
        cases set
      | some v =>
        rw [value, setValue_some] at set
        split at set
        · obtain rfl := Option.some.inj set
          exact ⟨v, rfl, objects_update _ _ _⟩
        · cases set
  | none =>
    rw [found] at gets
    obtain ⟨v, value⟩ := Option.ne_none_iff_exists'.mp gets
    simp only [execMsgShared, found, CommandHset.sharedElement, value, Option.map_some, setValue_some, created_type,
      ↓reduceIte]
    refine ⟨_, _, rfl, Or.inl ⟨rfl, v, rfl, ?_⟩⟩
    rw [objects_update, objects_update, Function.update_idem]

/-- Without one it dereferences a null pointer. -/
theorem execMsgShared_null {parse : ParseHset} {store : SharedStore} {s : List UInt8} (clock : Clock)
    (null : ¬ GetsObject store (parse s)) : (execMsgShared parse clock store s).2 = none := by
  rw [GetsObject] at null
  cases found : store ((parse s).key, (parse s).field) with
  | some data =>
    rw [found] at null
    simp only [execMsgShared, found, not_not.mp null]
  | none =>
    rw [found] at null
    simp only [execMsgShared, found, CommandHset.sharedElement, not_not.mp null, Option.map_none]

/-- With a reply, no pointer has become null. The cell has the object of a value, or nothing has
changed. -/
theorem execMsgShared_nonNull {parse : ParseHset} {store : SharedStore} {s : List UInt8} (clock : Clock)
    (nonNull : NonNull store) (gets : GetsObject store (parse s)) :
    NonNull (execMsgShared parse clock store s).1 := by
  rw [nonNull_iff] at nonNull ⊢
  obtain ⟨store', reply, executed, ⟨_, value, _, stored⟩ | ⟨_, same⟩⟩ := execMsgShared_gets clock gets
  · intro cell
    rw [executed, stored]
    by_cases here : cell = ((parse s).key, (parse s).field)
    · rw [here, Function.update_self]
      exact fun null => by cases null
    · rw [Function.update_of_ne here]
      exact nonNull cell
  · intro cell
    rw [executed, same]
    exact nonNull cell

/-- A put into an empty cell. -/
theorem sharedStore_put (db : Buckets) (key field : Str) (v : Element) (absent : db.get key field = none) :
    sharedStore (db.put key field v) = Function.update (sharedStore db) (key, field) (some (share v)) := by
  have read := Buckets.read_update (Option.map share) (db.get_put key field v)
  rw [absent] at read
  exact read

/-- A write through the pointer of a cell's element. -/
theorem sharedStore_modify (db : Buckets) (key field : Str) (f : Element → Element) {v : Element}
    (found : db.get key field = some v) :
    sharedStore (db.modify key field f) = Function.update (sharedStore db) (key, field) (some (share (f v))) := by
  have read := Buckets.read_update (Option.map share) (db.get_modify key field f)
  rw [found] at read
  exact read

/-- On a store whose elements have objects it does what `execMsg` does. The shared store is the
other one with a pointer to each object, and the two insert and set in the same places. -/
theorem execMsgShared_of_execMsg {parse : ParseHset} {clock : Clock} {flag type : UInt16} {db db' : Buckets}
    {s : List UInt8} {reply : CommandReply} (executed : execMsg parse clock flag type db s = some (db', reply)) :
    execMsgShared parse clock (sharedStore db) s = (sharedStore db', some reply) := by
  cases found : db.get (parse s).key (parse s).field with
  | some data =>
    have shared : sharedStore db ((parse s).key, (parse s).field) = some (share data) := by
      rw [sharedStore, found]
      rfl
    simp only [execMsg, found, Option.bind_eq_bind, Option.bind_some] at executed
    simp only [execMsgShared, shared, share]
    cases set : setValue (parse s).value data.ptr with
    | some ptr' =>
      rw [set] at executed
      obtain ⟨rfl, rfl⟩ := Prod.mk.inj (Option.some.inj executed)
      rw [sharedStore_modify _ _ _ _ found]
      rfl
    | none =>
      rw [set] at executed
      obtain ⟨rfl, rfl⟩ := Prod.mk.inj (Option.some.inj executed)
      rw [sharedStore_modify _ _ _ _ found]
      rfl
  | none =>
    have shared : sharedStore db ((parse s).key, (parse s).field) = none := by
      rw [sharedStore, found]
      rfl
    cases value : (parse s).value with
    | none =>
      rw [execMsg_null parse clock flag type db s value found] at executed
      cases executed
    | some v =>
      have stored : ∀ data,
          (db.put (parse s).key (parse s).field data).get (parse s).key (parse s).field = some data := by
        intro data
        rw [Buckets.get_put, if_pos ⟨rfl, rfl⟩, found, Option.none_or]
      simp only [execMsg, found, CommandHset.element, value, Option.map_some, Option.bind_eq_bind, Option.bind_some,
        setValue_some, created_type, ↓reduceIte] at executed
      obtain ⟨rfl, rfl⟩ := Prod.mk.inj (Option.some.inj executed)
      simp only [execMsgShared, shared, CommandHset.sharedElement, value, Option.map_some, setValue_some, created_type,
        ↓reduceIte]
      rw [sharedStore_modify _ _ _ _ (stored _), sharedStore_put _ _ _ _ found]
      rfl

/-- And it dereferences a null pointer exactly when that gives no result. A null pointer is
looked at only behind an empty cell and a message without a value. -/
theorem execMsg_eq_none_iff (parse : ParseHset) (clock : Clock) (flag type : UInt16) (db : Buckets) (s : List UInt8) :
    execMsg parse clock flag type db s = none ↔ ¬ GetsObject (sharedStore db) (parse s) := by
  constructor
  · intro nothing gets
    cases found : db.get (parse s).key (parse s).field with
    | some data =>
      simp only [execMsg, found, Option.bind_eq_bind, Option.bind_some] at nothing
      split at nothing <;> cases nothing
    | none =>
      rw [GetsObject, sharedStore, found] at gets
      obtain ⟨v, value⟩ := Option.ne_none_iff_exists'.mp gets
      obtain ⟨db', reply, executed, _⟩ := execMsg_absent parse clock flag type db s v value found
      cases nothing.symm.trans executed
  · intro null
    cases executed : execMsg parse clock flag type db s with
    | none => rfl
    | some result =>
      have dies := execMsgShared_null clock null
      rw [execMsgShared_of_execMsg executed] at dies
      cases dies

/-- A loop in which every step succeeds is a map. -/
theorem mapM_eq_map {α β : Type*} {f : α → Option β} {g : α → β} (each : ∀ x, f x = some (g x)) (xs : List α) :
    xs.mapM f = some (xs.map g) := by
  induction xs with
  | nil => rfl
  | cons x xs ih =>
    rw [List.mapM_cons, each, ih]
    rfl

/-- `hget` on a store without a null pointer answers, and its reply is the one of
`exec`. -/
theorem execShared_sharedStore (parse : ParseHget) (db : Buckets) (s : List UInt8) :
    CommandHget.execShared parse (sharedStore db) s = some (CommandHget.exec parse db s) := by
  rw [CommandHget.execShared]
  refine congrArg (Option.map _) (mapM_eq_map (fun field => ?_) _)
  cases found : db.get (parse s).key field with
  | none => simp [sharedStore, found]
  | some data => simp [sharedStore, found, share]

namespace Serving

variable {m : Nat}

/-- `exec` replies as it should exactly when `execMsg` has an object to look at. Without one the
process ends behind the insertion of the null pointer. -/
theorem replies_iff (parse : ParseHset) (clock : Clock) (tid : Fin m) (s : Serving m) (p : Pack) :
    Replies parse clock tid s p ↔ GetsObject s.store (parse p.body) := by
  constructor
  · rintro ⟨s', reply, executed, _⟩
    by_contra null
    have dies := execMsgShared_null clock null
    rw [exec] at executed
    split at executed
    · cases executed
    · rename_i store reply' returned
      rw [returned] at dies
      cases dies
  · intro gets
    obtain ⟨store', reply, returned, outcome⟩ := execMsgShared_gets clock gets
    rw [Replies, exec, returned]
    rcases outcome with ⟨code, stored⟩ | ⟨code, same⟩
    · simp only [code, ↓reduceIte]
      exact ⟨_, _, rfl, Or.inl ⟨code, rfl, stored⟩⟩
    · simp only [code, ↓reduceIte]
      exact ⟨_, _, rfl, Or.inr ⟨code, rfl, same⟩⟩

/-- The store that `exec` leaves is that of `execMsg`. -/
theorem exec_store (parse : ParseHset) (clock : Clock) (tid : Fin m) (s : Serving m) (p : Pack) :
    (s.exec parse clock tid p).1.store = (execMsgShared parse clock s.store p.body).1 := by
  rw [exec]
  split
  · rename_i returned
    rw [returned]
  · rename_i returned
    rw [returned]
    split <;> rfl

/-- An event whose message finds an object leaves no null pointer. A loaded store has none to
begin with. -/
theorem step_nonNull (parse : ParseHset) (s s' : Serving m × Bool) (event : StoreEvent m)
    (nonNull : NonNull s.1.store) (gets : event.GetsObject parse s) (stepped : step parse s event = some s') :
    NonNull s'.1.store := by
  rw [step] at stepped
  split at stepped
  · obtain rfl := Option.some.inj stepped
    cases event with
    | hset clock tid p =>
      have kept := execMsgShared_nonNull clock nonNull gets
      rw [← exec_store parse clock tid] at kept
      exact kept
    | execMsg clock body => exact execMsgShared_nonNull clock nonNull gets
    | load file => exact nonNull_sharedStore _
  · cases stepped

/-- The process is still there after such an event. -/
theorem step_lives (parse : ParseHset) (s s' : Serving m × Bool) (event : StoreEvent m)
    (gets : event.GetsObject parse s) (stepped : step parse s event = some s') : s'.2 = true := by
  rw [step] at stepped
  split at stepped
  · obtain rfl := Option.some.inj stepped
    cases event with
    | hset clock tid p =>
      obtain ⟨s', reply, executed, _⟩ := (replies_iff parse clock tid s.1 p).mpr gets
      rw [happens, executed]
      rfl
    | execMsg clock body =>
      obtain ⟨store', reply, executed, _⟩ := execMsgShared_gets clock gets
      rw [happens, executed]
      rfl
    | load file => rfl
  · cases stepped

/-- An `hset` of a client gets its reply exactly when its cell has an element with an object,
or has none and the value of the message has a kind. In every run whose messages are all so,
no state that is reached has a null pointer in its store.

Proof: the four cases of the cell and the value, one after the other; the insertion of a new
element comes before the null pointer of its object is met, and stays in the store. That no
pointer in the store is null is kept by each event whose message gets an object. -/
theorem hset_replies (parse : ParseHset) :
    (∀ (clock : Clock) (tid : Fin m) (s : Serving m) (p : Pack),
      Replies parse clock tid s p ↔ GetsObject s.store (parse p.body)) ∧
    ∀ (s : Serving m) (last : Serving m × Bool) (events : List (StoreEvent m)), NonNull s.store →
      Along (step parse) (fun s event => event.GetsObject parse s) (s, true) events →
      run (step parse) (s, true) events = some last → NonNull last.1.store ∧ last.2 = true := by
  refine ⟨fun clock tid s p => replies_iff parse clock tid s p, fun s last events nonNull gets ran => ?_⟩
  refine run_invariant (fun s => NonNull s.1.store ∧ s.2 = true) ?_ (s, true) last events ⟨nonNull, rfl⟩ gets ran
  exact fun s event s' kept gets stepped =>
    ⟨step_nonNull parse s s' event kept.1 gets stepped, step_lives parse s s' event gets stepped⟩

/-- A server with an empty store. -/
def empty : Serving m := ⟨fun _ => none, Backlog.initializer 1 []⟩

/-- The empty store has no null pointer. -/
theorem empty_nonNull : NonNull (empty : Serving m).store := fun cell data stored => by cases stored

/-- A message with a value on an empty store. -/
theorem hset_replies_keyed : Replies keyedHset ⟨0, 0⟩ (Fin.last 0) (empty : Serving 1) (keyedPack 1 2) ∧
    ∀ last, run (step keyedHset) ((empty : Serving 1), true) [.hset ⟨0, 0⟩ (Fin.last 0) (keyedPack 1 2)] = some last →
      NonNull last.1.store ∧ last.2 = true := by
  have gets : GetsObject (empty : Serving 1).store (keyedHset (keyedPack 1 2).body) := Option.some_ne_none _
  exact ⟨((hset_replies keyedHset).1 _ _ _ _).mpr gets,
    fun last => (hset_replies keyedHset).2 empty last _ empty_nonNull ⟨gets, fun _ _ => trivial⟩⟩

/-- An empty body is read as a message without a value. -/
def unsetHset : ParseHset := fun _ => ⟨[], [], 0, none⟩

/-- An empty body makes a packet. -/
theorem empty_fits : 8 + ([] : List UInt8).length < 2 ^ 32 := by decide

/-- A packet with an empty body. -/
def unsetPack : Pack := ⟨0, clientHset, [], empty_fits⟩

/-- On an empty store it gets no reply. -/
theorem hset_no_reply : ¬ ((∀ (clock : Clock) (tid : Fin 1) (s : Serving 1) (p : Pack), NonNull s.store →
      Replies unsetHset clock tid s p) ∧
    ∀ (clock : Clock) (tid : Fin 1) (s : Serving 1) (p : Pack), NonNull s.store →
      NonNull (s.exec unsetHset clock tid p).1.store) := by
  rintro ⟨replies, _⟩
  obtain ⟨s', reply, executed, _⟩ := replies ⟨0, 0⟩ (Fin.last 0) empty unsetPack empty_nonNull
  have dies : (empty.exec unsetHset ⟨0, 0⟩ (Fin.last 0) unsetPack).2 = none := by decide
  rw [executed] at dies
  cases dies

end Serving

end Naruto.Command
