import Mathlib.Algebra.Ring.Nat
import Naruto.Database.Object
import Mathlib.Data.List.AList
import Mathlib.Logic.Function.Basic

/-!
# The sharded store

`Buckets` spreads keys over 16384 buckets by the checksum of the key; a bucket
maps keys to columns, and columns map fields to elements. A key is only ever
found in its own bucket, which the type records. Seen from outside the store is
a map from cells, pairs of a key and a field, to objects.

The database file is the list of `Features` messages that `dump` writes, one for
each key. Loading it into an empty store gives back the object of every cell,
except for lists and maps without members, which are not written.
-/

namespace Naruto.Database

open Naruto.Utils

/-- `SLOTS_SIZE`. -/
def slotsSize : Nat := 16384

/-- `Buckets::hash`. -/
def hash (key : Str) : Nat := (Crc.crc16 key).toNat % slotsSize

/-- Every key has a slot. -/
theorem hash_lt (key : Str) : hash key < slotsSize := Nat.mod_lt _ (by decide)

/-- A `system_clock::time_point`: nanoseconds since the epoch. -/
abbrev TimePoint := Int

/-- `time_point_cast<milliseconds>(t).time_since_epoch().count()` in a `uint64` field. -/
def toMillis (t : TimePoint) : UInt64 := UInt64.ofInt (t.tdiv 1000000)

/-- `time_point<system_clock, milliseconds>(milliseconds(count))`. -/
def fromMillis (count : UInt64) : TimePoint := count.toInt64.toInt * 1000000

/-- `element`. Its pointer is not null: `execMsg` dereferences what it stores before
it returns, and `parse` stores only what it has created. -/
structure Element where
  encoding : UInt32
  create : TimePoint
  lru : TimePoint
  expire : TimePoint
  ptr : Object
deriving DecidableEq, Repr

/-- `bucket::columns`. -/
abbrev Columns := AList fun _ : Str => Element

/-- `bucket::row`. -/
abbrev Row := AList fun _ : Str => Columns

namespace Row

/-- `bucket::get`. -/
def get (row : Row) (key field : Str) : Option Element := (row.lookup key).bind fun columns => columns.lookup field

/-- `bucket::put`: both levels are filled by `emplace`, which keeps what is there. -/
def put (row : Row) (key field : Str) (v : Element) : Row :=
  match row.lookup key with
  | none => row.insert key (AList.singleton field v)
  | some columns => row.insert key (if field ∈ columns then columns else columns.insert field v)

/-- A write through the pointer that `get` returned. -/
def modify (row : Row) (key field : Str) (f : Element → Element) : Row :=
  match row.lookup key with
  | none => row
  | some columns =>
    match columns.lookup field with
    | none => row
    | some v => row.insert key (columns.insert field (f v))

/-- `bucket::del`. -/
def del (row : Row) (key field : Str) : Row :=
  match row.lookup key with
  | none => row
  | some columns => row.insert key (columns.erase field)

/-- The row with other columns under a key. -/
theorem get_insert (row : Row) (key : Str) (columns : Columns) (key' field' : Str) :
    Row.get (row.insert key columns) key' field' =
      if key' = key then columns.lookup field' else row.get key' field' := by
  by_cases same : key' = key
  · subst same
    rw [if_pos rfl, get, AList.lookup_insert]
    rfl
  · rw [if_neg same, get, AList.lookup_insert_ne same]
    rfl

/-- `put` fills the cell only when it was empty, and no other cell. By cases on the row's entry
of the key and the columns' entry of the field. -/
theorem get_put (row : Row) (key field : Str) (v : Element) (key' field' : Str) :
    (row.put key field v).get key' field' =
      if key' = key ∧ field' = field then (row.get key field).or (some v) else row.get key' field' := by
  rw [put]
  split
  · rename_i absent
    rw [get_insert]
    by_cases sameKey : key' = key
    · subst sameKey
      have nothing : ∀ field, row.get key' field = none := fun field => by rw [get, absent]; rfl
      rw [if_pos rfl, nothing, nothing, Option.none_or]
      by_cases sameField : field' = field
      · subst sameField
        rw [if_pos ⟨rfl, rfl⟩, ← AList.insert_empty, AList.lookup_insert]
      · rw [if_neg fun same => sameField same.2, ← AList.insert_empty, AList.lookup_insert_ne sameField,
          AList.lookup_empty]
    · rw [if_neg sameKey, if_neg fun same => sameKey same.1]
  · rename_i columns found
    rw [get_insert]
    by_cases sameKey : key' = key
    · subst sameKey
      have inside : ∀ field, row.get key' field = columns.lookup field := fun field => by rw [get, found]; rfl
      rw [if_pos rfl, inside, inside]
      by_cases there : field ∈ columns
      · obtain ⟨w, present⟩ := Option.isSome_iff_exists.mp (AList.lookup_isSome.mpr there)
        rw [if_pos there]
        by_cases sameField : field' = field
        · subst sameField
          rw [if_pos ⟨rfl, rfl⟩, present, Option.some_or]
        · rw [if_neg fun same => sameField same.2]
      · rw [if_neg there]
        by_cases sameField : field' = field
        · subst sameField
          rw [if_pos ⟨rfl, rfl⟩, AList.lookup_insert, AList.lookup_eq_none.mpr there, Option.none_or]
        · rw [if_neg fun same => sameField same.2, AList.lookup_insert_ne sameField]
    · rw [if_neg sameKey, if_neg fun same => sameKey same.1]

/-- `modify` changes the element of its cell, when there is one, and no other. By cases on the
row's entry of the key and the columns' entry of the field. -/
theorem get_modify (row : Row) (key field : Str) (f : Element → Element) (key' field' : Str) :
    (row.modify key field f).get key' field' =
      if key' = key ∧ field' = field then (row.get key field).map f else row.get key' field' := by
  have unchanged : row.get key field = none → row.get key' field' =
      if key' = key ∧ field' = field then (row.get key field).map f else row.get key' field' := by
    intro absent
    by_cases same : key' = key ∧ field' = field
    · rw [if_pos same, same.1, same.2, absent]
      rfl
    · rw [if_neg same]
  rw [modify]
  split
  · rename_i absent
    exact unchanged (by rw [get, absent]; rfl)
  · rename_i columns found
    have inside : ∀ field, row.get key field = columns.lookup field := fun field => by rw [get, found]; rfl
    split
    · rename_i absent
      exact unchanged (by rw [inside, absent])
    · rename_i v present
      rw [get_insert]
      by_cases sameKey : key' = key
      · subst sameKey
        rw [if_pos rfl, inside, inside, present]
        by_cases sameField : field' = field
        · subst sameField
          rw [if_pos ⟨rfl, rfl⟩, AList.lookup_insert]
          rfl
        · rw [if_neg fun same => sameField same.2, AList.lookup_insert_ne sameField]
      · rw [if_neg sameKey, if_neg fun same => sameKey same.1]

/-- `put` adds no key but its own. -/
theorem mem_put (row : Row) (key field : Str) (v : Element) (key' : Str) (member : key' ∈ row.put key field v) :
    key' = key ∨ key' ∈ row := by
  unfold put at member
  split at member
  · exact (AList.mem_insert row).mp member
  · exact (AList.mem_insert row).mp member

/-- `modify` adds none either, -/
theorem mem_modify (row : Row) (key field : Str) (f : Element → Element) (key' : Str)
    (member : key' ∈ row.modify key field f) : key' = key ∨ key' ∈ row := by
  unfold modify at member
  split at member
  · exact Or.inr member
  · split at member
    · exact Or.inr member
    · exact (AList.mem_insert row).mp member

/-- and `del` adds none. -/
theorem mem_del (row : Row) (key field : Str) (key' : Str) (member : key' ∈ row.del key field) :
    key' = key ∨ key' ∈ row := by
  unfold del at member
  split at member
  · exact Or.inr member
  · exact (AList.mem_insert row).mp member

end Row

/-- `Buckets`: the rows of the buckets, every key in the bucket of its slot. -/
structure Buckets where
  row : Nat → Row
  placed : ∀ slot key, key ∈ row slot → hash key = slot

namespace Buckets

/-- The store after `flush()`, and the one a server starts with. -/
def empty : Buckets := ⟨fun _ => ∅, fun _ key member => absurd member (AList.notMem_empty key)⟩

/-- A changed row for a key's slot. The other keys of the row must have been in it before, so
that every key still lies in its slot. -/
def setRow (b : Buckets) (key : Str) (row : Row) (keys : ∀ key', key' ∈ row → key' = key ∨ key' ∈ b.row (hash key)) :
    Buckets where
  row := Function.update b.row (hash key) row
  placed := by
    intro slot key' member
    by_cases same : slot = hash key
    · subst same
      rw [Function.update_self] at member
      rcases keys key' member with rfl | there
      · rfl
      · exact b.placed _ key' there
    · rw [Function.update_of_ne same] at member
      exact b.placed slot key' member

/-- `Buckets::get`. -/
def get (b : Buckets) (key field : Str) : Option Element := (b.row (hash key)).get key field

/-- `Buckets::put`. -/
def put (b : Buckets) (key field : Str) (v : Element) : Buckets :=
  b.setRow key ((b.row (hash key)).put key field v) (Row.mem_put _ key field v)

/-- A write through the element that `get` returned. -/
def modify (b : Buckets) (key field : Str) (f : Element → Element) : Buckets :=
  b.setRow key ((b.row (hash key)).modify key field f) (Row.mem_modify _ key field f)

/-- `Buckets::del`. -/
def del (b : Buckets) (key field : Str) : Buckets :=
  b.setRow key ((b.row (hash key)).del key field) (Row.mem_del _ key field)

/-- `Buckets::size`: the number of keys. The source counts them in an `int`; here the count is
not bounded. -/
def size (b : Buckets) : Nat := ((List.range slotsSize).map fun slot => (b.row slot).entries.length).sum

/-- Replacing a row changes the cells of the keys in its slot only. -/
theorem get_setRow (b : Buckets) (key : Str) (row : Row) (keys) (key' field' : Str) :
    (b.setRow key row keys).get key' field' =
      if hash key' = hash key then row.get key' field' else b.get key' field' := by
  by_cases same : hash key' = hash key
  · simp [get, setRow, same]
  · simp [get, setRow, same]

/-- A row that has changed in one of its cells is a store that has. A key of another slot is in
another row, and one of the same slot in other cells of it. -/
theorem get_setRow_cell (b : Buckets) {key field : Str} {row : Row} (keys) {new : Option Element}
    (changed : ∀ key' field', row.get key' field' =
      if key' = key ∧ field' = field then new else (b.row (hash key)).get key' field') (key' field' : Str) :
    (b.setRow key row keys).get key' field' = if key' = key ∧ field' = field then new else b.get key' field' := by
  rw [get_setRow, changed]
  by_cases sameKey : key' = key
  · subst sameKey
    rw [if_pos rfl]
    rfl
  · have other : ¬ (key' = key ∧ field' = field) := fun same => sameKey same.1
    rw [if_neg other, if_neg other]
    by_cases sameSlot : hash key' = hash key
    · rw [if_pos sameSlot, get, sameSlot]
    · rw [if_neg sameSlot]

/-- `put` fills the cell only when it was empty, and no other cell of the store. -/
theorem get_put (b : Buckets) (key field : Str) (v : Element) (key' field' : Str) :
    (b.put key field v).get key' field' =
      if key' = key ∧ field' = field then (b.get key field).or (some v) else b.get key' field' :=
  b.get_setRow_cell _ (Row.get_put _ key field v) key' field'

/-- `modify` changes the element of its cell, and no other cell of the store. -/
theorem get_modify (b : Buckets) (key field : Str) (f : Element → Element) (key' field' : Str) :
    (b.modify key field f).get key' field' =
      if key' = key ∧ field' = field then (b.get key field).map f else b.get key' field' :=
  b.get_setRow_cell _ (Row.get_modify _ key field f) key' field'

/-- An empty store has no elements. -/
@[simp] theorem get_empty (key field : Str) : empty.get key field = none := rfl

end Buckets

/-- A cell of the store: a key and a field. -/
abbrev Cell := Str × Str

/-- The store seen from outside: the object of each cell. -/
def Buckets.cells (b : Buckets) (cell : Cell) : Option Object := (b.get cell.1 cell.2).map Element.ptr

/-- What is read from the cells of a store that has changed in one of them. -/
theorem Buckets.read_update {α : Type*} {b b' : Buckets} {key field : Str} {new : Option Element}
    (read : Option Element → α)
    (changed : ∀ key' field', b'.get key' field' = if key' = key ∧ field' = field then new else b.get key' field') :
    (fun cell : Cell => read (b'.get cell.1 cell.2)) =
      Function.update (fun cell : Cell => read (b.get cell.1 cell.2)) (key, field) (read new) := by
  funext ⟨key', field'⟩
  rw [changed]
  by_cases same : key' = key ∧ field' = field
  · obtain ⟨rfl, rfl⟩ := same
    rw [if_pos ⟨rfl, rfl⟩, Function.update_self]
  · have other : (key', field') ≠ (key, field) := fun equal => same (Prod.mk.inj equal)
    rw [if_neg same, Function.update_of_ne other]

/-- `tensorflow::Features`: a key and its fields. The fields of a map are distinct. -/
structure Features where
  id : Str
  feature : List (Str × Feature)
deriving DecidableEq

/-- The feature `bucket::dump` writes for an element. The expiry is written from the
access time, as in the source. -/
def Element.toFeature (v : Element) : Feature :=
  v.ptr.serialize
    { type := .unknow
      encoding := v.encoding
      create := toMillis v.create
      lru := toMillis v.lru
      expire := toMillis v.lru
      kind := none }

/-- The element `Buckets::parse` makes of a feature; nothing when no field of the
`oneof` is set. -/
def elementOf (feature : Feature) : Option Element :=
  feature.kind.map fun kind =>
    { encoding := feature.encoding
      create := fromMillis feature.create
      lru := fromMillis feature.lru
      expire := fromMillis feature.expire
      ptr := (Object.create kind).deSeralize feature }

/-- The loop body of `bucket::dump`. -/
def Row.features (row : Row) : List Features :=
  row.entries.map fun object => ⟨object.1, object.2.entries.map fun v => (v.1, v.2.toFeature)⟩

namespace Buckets

/-- `Buckets::dump`: the messages written, bucket after bucket. -/
def dump (b : Buckets) : List Features := (List.range slotsSize).flatMap fun slot => (b.row slot).features

/-- `Buckets::parse` for one message of type `REPL_OBJECT`. -/
def parse (b : Buckets) (features : Features) : Buckets :=
  features.feature.foldl (fun b feature =>
    match elementOf feature.2 with
    | none => b
    | some v => b.put features.id feature.1 v) b

/-- Loading a database file into an empty store. -/
def load (file : List Features) : Buckets := file.foldl parse empty

end Buckets

/-- What a message holds for a cell. -/
def Features.find (features : Features) (cell : Cell) : Option Element :=
  if features.id = cell.1 then
    features.feature.findSome? fun feature => if feature.1 = cell.2 then elementOf feature.2 else none
  else none

/-- Parsing a message adds the elements of its cells and keeps those already there. A message
puts the elements of its own key, each into an empty cell or none. -/
theorem Buckets.get_parse (b : Buckets) (features : Features) (key field : Str) :
    (b.parse features).get key field = (b.get key field).or (features.find (key, field)) := by
  obtain ⟨id, feature⟩ := features
  rw [parse, Features.find]
  induction feature generalizing b with
  | nil => simp
  | cons head feature ih =>
    simp only [List.foldl_cons]
    rw [ih]
    cases made : elementOf head.2 with
    | none => simp [made]
    | some v =>
      simp only [get_put]
      by_cases sameKey : id = key
      · subst sameKey
        by_cases sameField : head.1 = field
        · subst sameField
          simp [made]
        · have other : ¬ field = head.1 := fun same => sameField same.symm
          simp [other, sameField]
      · have other : ¬ key = id := fun same => sameKey same.symm
        simp [other, sameKey]

/-- A loaded cell is the first one of the file that holds an element. -/
theorem Buckets.get_loadFrom (b : Buckets) (file : List Features) (key field : Str) :
    (file.foldl parse b).get key field =
      (b.get key field).or (file.findSome? fun features => features.find (key, field)) := by
  induction file generalizing b with
  | nil => simp
  | cons features file ih =>
    rw [List.foldl_cons, ih, get_parse, Option.or_assoc, List.findSome?_cons]
    cases features.find (key, field) <;> rfl

/-- A search through a map for one key is a lookup. By induction on the entries: behind the
entry with the key there is none with it. -/
theorem find_entries {V W : Type} (m : AList fun _ : Str => V) (key : Str) (h : V → Option W) :
    (m.entries.findSome? fun entry => if entry.1 = key then h entry.2 else none) = (m.lookup key).bind h := by
  obtain ⟨entries, distinct⟩ := m
  change _ = (List.dlookup key entries).bind h
  induction entries with
  | nil => rfl
  | cons entry entries ih =>
    obtain ⟨fresh, distinct'⟩ := List.nodupKeys_cons.mp distinct
    have rest := ih distinct'
    obtain ⟨first, v⟩ := entry
    rw [List.findSome?_cons]
    by_cases same : first = key
    · subst same
      have absent : List.dlookup first entries = none := List.dlookup_eq_none.mpr fresh
      rw [absent] at rest
      simp only [↓reduceIte, List.dlookup_cons_eq, Option.bind_some, rest]
      cases h v <;> rfl
    · have other : key ≠ first := fun equal => same equal.symm
      have skipped : List.dlookup key (⟨first, v⟩ :: entries : List ((_ : Str) × V)) = List.dlookup key entries :=
        List.dlookup_cons_ne _ _ other
      simp only [same, ↓reduceIte, rest, skipped]

/-- What the dump of a row holds for a cell. -/
theorem Row.find_features (row : Row) (key field : Str) :
    (row.features.findSome? fun features => features.find (key, field)) =
      (row.get key field).bind fun v => elementOf v.toFeature := by
  have columns : ∀ m : Columns, ((m.entries.map fun v => (v.1, v.2.toFeature)).findSome? fun feature =>
      if feature.1 = field then elementOf feature.2 else none) =
        (m.lookup field).bind fun v => elementOf v.toFeature := by
    intro m
    rw [List.findSome?_map]
    exact find_entries m field fun v => elementOf v.toFeature
  rw [Row.features, List.findSome?_map, get, Option.bind_assoc]
  simp only [Function.comp_def, Features.find, columns]
  exact find_entries row key fun m => (m.lookup field).bind fun v => elementOf v.toFeature

/-- A search through joined lists goes through one list after another. -/
theorem findSome_flatMap {α β γ : Type} (l : List α) (g : α → List β) (f : β → Option γ) :
    (l.flatMap g).findSome? f = l.findSome? fun x => (g x).findSome? f := by
  induction l with
  | nil => rfl
  | cons x l ih =>
    rw [List.flatMap_cons, List.findSome?_append, List.findSome?_cons, ih]
    cases (g x).findSome? f <;> rfl

/-- A search that can only succeed at one member of a list is made there. Whatever it finds, it
has found at that member. -/
theorem findSome_at {α β : Type} (l : List α) (f : α → Option β) (a : α) (member : a ∈ l)
    (only : ∀ x ∈ l, x ≠ a → f x = none) : l.findSome? f = f a := by
  cases found : f a with
  | none =>
    rw [List.findSome?_eq_none_iff]
    intro x inside
    by_cases same : x = a
    · rw [same, found]
    · exact only x inside same
  | some b =>
    cases result : l.findSome? f with
    | none =>
      have missed := List.findSome?_eq_none_iff.mp result a member
      rw [found] at missed
      exact absurd missed (by simp)
    | some c =>
      obtain ⟨x, inside, gives⟩ := List.exists_of_findSome?_eq_some result
      by_cases same : x = a
      · rw [same, found] at gives
        exact congrArg some (Option.some.inj gives).symm
      · rw [only x inside same] at gives
        exact absurd gives (by simp)

/-- The cells of a dump. Only the bucket of the key's slot can hold the key. -/
theorem Buckets.find_dump (b : Buckets) (key field : Str) :
    (b.dump.findSome? fun features => features.find (key, field)) =
      (b.get key field).bind fun v => elementOf v.toFeature := by
  rw [dump, findSome_flatMap, findSome_at _ _ (hash key) (List.mem_range.mpr (hash_lt key)),
    Row.find_features, get]
  intro slot _ other
  rw [Row.find_features]
  have absent : (b.row slot).lookup key = none := by
    rw [AList.lookup_eq_none]
    exact fun member => other (b.placed slot key member).symm
  rw [Row.get, absent]
  rfl

/-- A loaded database file holds what its features give back. -/
theorem Buckets.get_load_dump (b : Buckets) (key field : Str) :
    (load b.dump).get key field = (b.get key field).bind fun v => elementOf v.toFeature := by
  rw [load, get_loadFrom, find_dump, get_empty, Option.none_or]

/-- A store with an object in a cell has a key. -/
theorem Buckets.size_pos (b : Buckets) {cell : Cell} {o : Object} (stored : b.cells cell = some o) : 0 < b.size := by
  obtain ⟨v, found, _⟩ := Option.map_eq_some_iff.mp stored
  obtain ⟨columns, inside, _⟩ := Option.bind_eq_some_iff.mp found
  have entries : 0 < (b.row (hash cell.1)).entries.length := by
    apply List.length_pos_of_mem
    exact AList.mem_lookup_iff.mp inside
  have listed : (b.row (hash cell.1)).entries.length ∈
      (List.range slotsSize).map fun slot => (b.row slot).entries.length :=
    List.mem_map.mpr ⟨hash cell.1, List.mem_range.mpr (hash_lt cell.1), rfl⟩
  exact List.sum_pos_iff_exists_pos_nat.mpr ⟨_, listed, entries⟩

/-- Every object of the store writes a field of its message. -/
def Buckets.Written (b : Buckets) : Prop := ∀ cell o, b.cells cell = some o → o.Written

/-- The database file gives back the objects of all cells. -/
theorem Buckets.cells_load_dump (b : Buckets) (written : b.Written) : (load b.dump).cells = b.cells := by
  funext ⟨key, field⟩
  simp only [cells, get_load_dump]
  cases found : b.get key field with
  | none => rfl
  | some v =>
    have stored : v.ptr.Written := written (key, field) v.ptr (by rw [cells, found]; rfl)
    obtain ⟨kind, set', same⟩ := Object.deSeralize_serialize v.ptr stored
      { type := .unknow, encoding := v.encoding, create := toMillis v.create, lru := toMillis v.lru
        expire := toMillis v.lru, kind := none }
    have kind' : v.toFeature.kind = some kind := set'
    rw [Option.bind_some, elementOf, kind']
    exact congrArg some same

/-- Nothing is loaded from no file. -/
theorem Buckets.load_nil : (load []).cells = empty.cells := rfl

-- A dump has an entry for every bucket; later proofs know it by the theorem above.
attribute [irreducible] Buckets.dump Buckets.load

end Naruto.Database
