import Mathlib.Data.Finset.Card
import Mathlib.Data.List.Nodup
import Mathlib.Data.List.Pairwise
import Naruto.Database.DumpFile
import Naruto.Database.DumpStream
import Naruto.Theory.CellTable

/-!
# What the store holds after any operations

The 16384 buckets with their two levels are one table of cells with its keys: `put` fills
empty cells only, `del` empties a cell and leaves its key, and only `flush` takes keys
away. `size` counts the keys and a dump has one message for each of them, also for those
whose cells are empty by then. A load has only the keys with a field that was written, and
nothing more gets lost when the loaded store is dumped and loaded again.
-/

namespace Naruto.Database

open Naruto.Theory Naruto.Utils

namespace Row

/-- `del` empties its cell, and no other. A key without a row has none to empty. -/
theorem get_del (row : Row) (key field key' field' : Str) :
    (row.del key field).get key' field' = if key' = key ∧ field' = field then none else row.get key' field' := by
  cases found : row.lookup key with
  | none =>
    have absent : row.get key field = none := by simp [get, found]
    by_cases here : key' = key ∧ field' = field
    · simp [del, found, here, absent]
    · simp [del, found, here]
  | some columns =>
    simp only [del, found, get_insert]
    by_cases sameKey : key' = key
    · subst sameKey
      by_cases sameField : field' = field
      · subst sameField
        simp
      · simp [sameField, AList.lookup_erase_ne, get, found]
    · simp [sameKey]

/-- `put` adds its key, whether the cell was empty or not. -/
theorem mem_put_iff (row : Row) (key field : Str) (v : Element) (key' : Str) :
    key' ∈ row.put key field v ↔ key' = key ∨ key' ∈ row := by
  cases found : row.lookup key <;> simp [put, found]

/-- A row whose columns under a key are others has the keys it had. -/
theorem mem_insert_there {row : Row} {key : Str} {columns : Columns} (found : row.lookup key = some columns)
    (columns' : Columns) (key' : Str) : key' ∈ row.insert key columns' ↔ key' ∈ row := by
  have there : key ∈ row := AList.lookup_isSome.mp (by simp [found])
  simp only [AList.mem_insert, or_iff_right_iff_imp]
  rintro rfl
  exact there

/-- `modify` adds no key. -/
theorem mem_modify_iff (row : Row) (key field : Str) (f : Element → Element) (key' : Str) :
    key' ∈ row.modify key field f ↔ key' ∈ row := by
  cases found : row.lookup key with
  | none => simp [modify, found]
  | some columns =>
    cases cell : columns.lookup field with
    | none => simp [modify, found, cell]
    | some v => simpa [modify, found, cell] using mem_insert_there found (columns.insert field (f v)) key'

/-- `del` adds no key and takes none away, also when it erases the last field of one. -/
theorem mem_del_iff (row : Row) (key field key' : Str) : key' ∈ row.del key field ↔ key' ∈ row := by
  cases found : row.lookup key with
  | none => simp [del, found]
  | some columns => simpa [del, found] using mem_insert_there found (columns.erase field) key'

end Row

namespace Buckets

/-- The keys of the store, bucket after bucket. -/
def keyList (b : Buckets) : List Str := (List.range slotsSize).flatMap fun slot => (b.row slot).keys

/-- The keys of a store are those of the rows, each in its own slot. -/
theorem mem_keyList (b : Buckets) (key : Str) : key ∈ b.keyList ↔ key ∈ b.row (hash key) := by
  simp only [keyList, List.mem_flatMap, List.mem_range]
  constructor
  · rintro ⟨slot, _, among⟩
    exact (b.placed slot key among).symm ▸ among
  · exact fun there => ⟨hash key, hash_lt key, there⟩

/-- A key is in one bucket only, and once in it. -/
theorem nodup_keyList (b : Buckets) : b.keyList.Nodup := by
  rw [keyList, List.nodup_flatMap]
  refine ⟨fun slot _ => (b.row slot).keys_nodup, ?_⟩
  refine List.Pairwise.imp (fun {slot slot'} apart key among among' => apart ?_) (List.nodup_range (n := slotsSize))
  exact (b.placed slot key among).symm.trans (b.placed slot' key among')

/-- `size` counts the keys. -/
theorem size_eq (b : Buckets) : b.size = b.keyList.length := by
  simp [size, keyList, List.length_flatMap, AList.keys, List.keys]

/-- A dump has one message for each key. -/
theorem dump_ids (b : Buckets) : b.dump.map Features.id = b.keyList := by
  simp [dump, keyList, List.map_flatMap, Row.features, AList.keys, List.keys, Function.comp_def]

/-- `del` empties its cell, and no other cell of the store. -/
theorem get_del (b : Buckets) (key field key' field' : Str) :
    (b.del key field).get key' field' = if key' = key ∧ field' = field then none else b.get key' field' :=
  get_setRow_cell b _ (Row.get_del (b.row (hash key)) key field) key' field'

/-- The keys when the row of a key's slot has become another. -/
theorem mem_keyList_setRow (b : Buckets) (key : Str) (row : Row) (keys) (key' : Str) :
    key' ∈ (b.setRow key row keys).keyList ↔ if hash key' = hash key then key' ∈ row else key' ∈ b.keyList := by
  by_cases same : hash key' = hash key
  · simp [mem_keyList, setRow, same]
  · simp [mem_keyList, setRow, same]

/-- `put` adds its key to the store. -/
theorem mem_keyList_put (b : Buckets) (key field : Str) (v : Element) (key' : Str) :
    key' ∈ (b.put key field v).keyList ↔ key' = key ∨ key' ∈ b.keyList := by
  rw [put, mem_keyList_setRow, Row.mem_put_iff]
  by_cases same : hash key' = hash key
  · simp [mem_keyList, same]
  · have apart : key' ≠ key := fun here => same (by rw [here])
    simp [same, apart]

/-- `modify` leaves the keys as they are. -/
theorem mem_keyList_modify (b : Buckets) (key field : Str) (f : Element → Element) (key' : Str) :
    key' ∈ (b.modify key field f).keyList ↔ key' ∈ b.keyList := by
  rw [modify, mem_keyList_setRow, Row.mem_modify_iff]
  by_cases same : hash key' = hash key <;> simp [mem_keyList, same]

/-- `del` leaves the keys as they are, also when it empties the last cell of one. -/
theorem mem_keyList_del (b : Buckets) (key field key' : Str) :
    key' ∈ (b.del key field).keyList ↔ key' ∈ b.keyList := by
  rw [del, mem_keyList_setRow, Row.mem_del_iff]
  by_cases same : hash key' = hash key <;> simp [mem_keyList, same]

/-- An empty store has no keys. -/
@[simp] theorem not_mem_keyList_empty (key : Str) : key ∉ empty.keyList := by
  simp [mem_keyList, empty]

/-- The operations of the store. -/
abbrev Op := CellTable.Op Str Str Element

/-- One operation: `put`, a write through the element that `get` returned, `del`, `flush`. -/
def apply (b : Buckets) : Op → Buckets
  | .put key field v => b.put key field v
  | .modify key field f => b.modify key field f
  | .del key field => b.del key field
  | .clear => empty

/-- The store has the cells and the keys of a table. -/
structure Holds (b : Buckets) (t : CellTable Str Str Element) : Prop where
  cell : ∀ key field, b.get key field = t.cell key field
  keys : ∀ key, key ∈ b.keyList ↔ key ∈ t.keys

/-- The empty store is the empty table. -/
theorem holds_empty : empty.Holds CellTable.empty := ⟨fun _ _ => rfl, fun key => by simp [CellTable.empty]⟩

/-- An operation does to the store what it does to the table. One lemma on cells and one on keys
for each operation. -/
theorem Holds.step {b : Buckets} {t : CellTable Str Str Element} (holds : b.Holds t) (op : Op) :
    (b.apply op).Holds (t.step op) := by
  obtain ⟨cell, keys⟩ := holds
  cases op with
  | put key field v =>
    exact ⟨fun key' field' => by simp [apply, get_put, cell],
      fun key' => by simp [apply, mem_keyList_put, keys]⟩
  | modify key field f =>
    exact ⟨fun key' field' => by simp [apply, get_modify, cell],
      fun key' => by simp [apply, mem_keyList_modify, keys]⟩
  | del key field =>
    exact ⟨fun key' field' => by simp [apply, get_del, cell],
      fun key' => by simp [apply, mem_keyList_del, keys]⟩
  | clear => exact ⟨fun _ _ => by simp [apply], fun key' => by simp [apply]⟩

/-- The same for any operations. -/
theorem Holds.run {b : Buckets} {t : CellTable Str Str Element} (holds : b.Holds t) (ops : List Op) :
    (ops.foldl apply b).Holds (t.run ops) := by
  induction ops generalizing b t with
  | nil => exact holds
  | cons op ops ih => exact ih (holds.step op)

/-- `size` is the number of the keys. -/
theorem Holds.size {b : Buckets} {t : CellTable Str Str Element} (holds : b.Holds t) : b.size = t.keys.card := by
  have same : b.keyList.toFinset = t.keys := by
    ext key
    simpa using holds.keys key
  rw [size_eq, ← same, List.toFinset_card_of_nodup b.nodup_keyList]

/-- After any operations on an empty store its cells are those of the table, `size` is the
number of the table's keys, which are those with a put behind the last flush, and a dump
writes each of them once.

Proof: each operation on the buckets is the one of the table, cell by cell and key by key,
since a key has one bucket and all others are left alone. The keys of the table are those put
behind the last clearing, which is an induction on the operations from behind. -/
theorem store_of_run (ops : List Op) :
    (∀ key field, (ops.foldl apply empty).get key field = (CellTable.empty.run ops).cell key field) ∧
      (ops.foldl apply empty).size = (CellTable.empty.run ops).keys.card ∧
      ((ops.foldl apply empty).dump.map Features.id).Nodup ∧
      ∀ key, key ∈ (ops.foldl apply empty).dump.map Features.id ↔ CellTable.Puts key ops := by
  have holds := holds_empty.run ops
  rw [dump_ids]
  refine ⟨holds.cell, holds.size, nodup_keyList _, fun key => ?_⟩
  rw [holds.keys, CellTable.mem_keys_run]

end Buckets

/-! ### Loading a dump -/

/-- A time that was read from milliseconds is read from them again. -/
theorem fromMillis_again (count : UInt64) : fromMillis (toMillis (fromMillis count)) = fromMillis count := by
  have low := Int64.le_toInt count.toInt64
  have high := Int64.toInt_lt count.toInt64
  rw [toMillis, fromMillis, fromMillis, Int.mul_tdiv_cancel _ (by decide), toInt_ofInt _ low high]

/-- Filling a map that has entries leaves it with entries. -/
theorem Object.emplace_ne_nil (front back : List (Str × Str)) (nonempty : front ≠ []) :
    back.foldl (fun data entry => if entry.1 ∈ data.map Prod.fst then data else data ++ [entry]) front ≠ [] := by
  induction back generalizing front with
  | nil => exact nonempty
  | cons entry back ih =>
    apply ih
    dsimp only
    split <;> simp [nonempty]

/-- An object that was read from what an object has written writes a field again. A list or a
map that has written one has an entry, and so has what is read from it. -/
theorem Object.written_again (o : Object) (feature : Feature) (unset : feature.kind = none) {kind : Kind}
    (set : (o.serialize feature).kind = some kind) : ((create kind).deSeralize (o.serialize feature)).Written := by
  cases o with
  | string data | int64 data | float data =>
    obtain rfl := Option.some.inj set
    trivial
  | int64List data | floatList data | stringList data =>
    by_cases empty : data = []
    · simp [serialize, empty, unset] at set
    · simp only [serialize, empty, if_false, Option.some.injEq] at set
      subst set
      simp [serialize, empty, create, deSeralize, type, Written]
  | map data =>
    by_cases empty : data = []
    · simp [serialize, empty, unset] at set
    · simp only [serialize, empty, if_false, Option.some.injEq] at set
      subst set
      obtain ⟨entry, rest, rfl⟩ := List.exists_cons_of_ne_nil empty
      have filled := emplace_ne_nil [entry] rest (by simp)
      have distinct := emplace_nodup [] (entry :: rest) List.nodup_nil
      simpa [serialize, create, deSeralize, type, Written] using And.intro filled distinct

/-- The header fields of the feature of an element. -/
theorem toFeature_headers (v : Element) :
    v.toFeature.encoding = v.encoding ∧ v.toFeature.create = toMillis v.create ∧
      v.toFeature.lru = toMillis v.lru ∧ v.toFeature.expire = toMillis v.lru := by
  cases found : v.ptr with
  | string data | int64 data | float data => simp [Element.toFeature, found, Object.serialize]
  | int64List data | floatList data | stringList data | map data =>
    by_cases empty : data = [] <;> simp [Element.toFeature, found, Object.serialize, empty]

/-- What is read from the feature of an element whose object writes a field. -/
theorem elementOf_toFeature (v : Element) (written : v.ptr.Written) :
    elementOf v.toFeature =
      some ⟨v.encoding, fromMillis (toMillis v.create), fromMillis (toMillis v.lru), fromMillis (toMillis v.lru),
        v.ptr⟩ := by
  obtain ⟨encoding, create, lru, expire⟩ := toFeature_headers v
  obtain ⟨kind, set, same⟩ := Object.deSeralize_serialize v.ptr written
    ⟨.unknow, v.encoding, toMillis v.create, toMillis v.lru, toMillis v.lru, none⟩
  have kind' : v.toFeature.kind = some kind := set
  have same' : (Object.create kind).deSeralize v.toFeature = v.ptr := same
  simp [elementOf, kind', encoding, create, lru, expire, same']

/-- An element that was read is read again as it is. -/
theorem elementOf_again {v v' : Element} (read : elementOf v.toFeature = some v') :
    elementOf v'.toFeature = some v' := by
  obtain ⟨kind, set, rfl⟩ := Option.map_eq_some_iff.mp read
  obtain ⟨encoding, create, lru, expire⟩ := toFeature_headers v
  have written : ((Object.create kind).deSeralize v.toFeature).Written := Object.written_again v.ptr _ rfl set
  rw [elementOf_toFeature _ written]
  simp [encoding, create, lru, expire, fromMillis_again]

namespace Buckets

/-- Every key has a cell that holds something. -/
def Occupied (b : Buckets) : Prop := ∀ key, key ∈ b.keyList → ∃ field, b.get key field ≠ none

/-- A cell that holds something has its key. -/
theorem mem_of_get (b : Buckets) {key field : Str} {v : Element} (stored : b.get key field = some v) :
    key ∈ b.keyList := by
  obtain ⟨columns, found, _⟩ := Option.bind_eq_some_iff.mp stored
  rw [mem_keyList]
  exact AList.lookup_isSome.mp (by simp [found])

/-- A put leaves something in its cell. -/
theorem Occupied.put {b : Buckets} (occupied : b.Occupied) (key field : Str) (v : Element) :
    (b.put key field v).Occupied := by
  intro key' among
  by_cases same : key' = key
  · refine ⟨field, ?_⟩
    cases found : b.get key field <;> simp [get_put, same, found]
  · obtain ⟨field', filled⟩ := occupied key' (((mem_keyList_put b key field v key').mp among).resolve_left same)
    exact ⟨field', by simpa [get_put, same] using filled⟩

/-- A message is parsed into puts. -/
theorem Occupied.parse {b : Buckets} (occupied : b.Occupied) (features : Features) : (b.parse features).Occupied := by
  rw [Buckets.parse]
  generalize features.feature = entries
  induction entries generalizing b with
  | nil => exact occupied
  | cons entry entries ih =>
    cases read : elementOf entry.2 with
    | none => simpa [read] using ih occupied
    | some v => simpa [read] using ih (occupied.put features.id entry.1 v)

/-- A load leaves no key without cells. -/
theorem occupied_load (file : List Features) : (load file).Occupied := by
  have start : empty.Occupied := fun key among => absurd among (not_mem_keyList_empty key)
  rw [load]
  generalize empty = b at start ⊢
  induction file generalizing b with
  | nil => exact start
  | cons features file ih => exact ih _ (start.parse features)

/-- The keys of a store that was dumped and loaded: those with a field that was written. -/
theorem mem_keyList_reload (b : Buckets) (key : Str) :
    key ∈ (load b.dump).keyList ↔ ∃ field v, b.get key field = some v ∧ elementOf v.toFeature ≠ none := by
  constructor
  · intro among
    obtain ⟨field, filled⟩ := occupied_load b.dump key among
    rw [get_load_dump] at filled
    obtain ⟨v', read⟩ := Option.ne_none_iff_exists'.mp filled
    obtain ⟨v, stored, read⟩ := Option.bind_eq_some_iff.mp read
    exact ⟨field, v, stored, by simp [read]⟩
  · rintro ⟨field, v, stored, read⟩
    obtain ⟨v', read⟩ := Option.ne_none_iff_exists'.mp read
    exact mem_of_get (load b.dump) (v := v') (by rw [get_load_dump, stored, Option.bind_some, read])

/-- `size` counts every key once. -/
theorem size_eq_card (b : Buckets) : b.size = b.keyList.toFinset.card := by
  rw [size_eq, List.toFinset_card_of_nodup b.nodup_keyList]

/-- Two stores with the same cells and no key without them have the same size. They have the
same keys: each has a cell, which the other has as well. -/
theorem Occupied.size_eq {b b' : Buckets} (occupied : b.Occupied) (occupied' : b'.Occupied)
    (same : ∀ key field, b.get key field = b'.get key field) : b.size = b'.size := by
  have keys : b.keyList.toFinset = b'.keyList.toFinset := by
    ext key
    simp only [List.mem_toFinset]
    constructor
    · intro among
      obtain ⟨field, filled⟩ := occupied key among
      obtain ⟨v, stored⟩ := Option.ne_none_iff_exists'.mp filled
      exact mem_of_get b' ((same key field).symm.trans stored)
    · intro among
      obtain ⟨field, filled⟩ := occupied' key among
      obtain ⟨v, stored⟩ := Option.ne_none_iff_exists'.mp filled
      exact mem_of_get b ((same key field).trans stored)
  rw [size_eq_card, size_eq_card, keys]

/-- A store that is loaded from its dump has no more keys than before, and as many exactly
when every key has a field that is written. Dumped and loaded once more it has the same keys
and the same elements.

Proof: a loaded key had a written field before, so the keys are a subset, and as many only
when they are all. An element that was read back is written as the same feature as before,
with the expiry that the first dump gave it, so the second load makes the same element. -/
theorem reload_again (b : Buckets) :
    (load b.dump).size ≤ b.size ∧
      ((load b.dump).size = b.size ↔
        ∀ key ∈ b.dump.map Features.id, ∃ field v, b.get key field = some v ∧ elementOf v.toFeature ≠ none) ∧
      (load (load b.dump).dump).size = (load b.dump).size ∧
      ∀ key field, (load (load b.dump).dump).get key field = (load b.dump).get key field := by
  have fewer : (load b.dump).keyList.toFinset ⊆ b.keyList.toFinset := by
    intro key among
    obtain ⟨field, v, stored, _⟩ := (mem_keyList_reload b key).mp (List.mem_toFinset.mp among)
    exact List.mem_toFinset.mpr (mem_of_get b stored)
  have again : ∀ key field, (load (load b.dump).dump).get key field = (load b.dump).get key field := by
    intro key field
    rw [get_load_dump, get_load_dump, Option.bind_assoc]
    refine Option.bind_congr fun v _ => ?_
    cases read : elementOf v.toFeature with
    | none => rfl
    | some v' => exact elementOf_again read
  refine ⟨?_, ?_, Occupied.size_eq (occupied_load _) (occupied_load _) again, again⟩
  · rw [size_eq_card, size_eq_card]
    exact Finset.card_le_card fewer
  · rw [size_eq_card, size_eq_card, dump_ids]
    constructor
    · intro same key among
      have all := Finset.eq_of_subset_of_card_le fewer (Nat.le_of_eq same.symm)
      have there : key ∈ (load b.dump).keyList.toFinset := by
        rw [all]
        exact List.mem_toFinset.mpr among
      exact (mem_keyList_reload b key).mp (List.mem_toFinset.mp there)
    · intro every
      refine congrArg Finset.card (Finset.Subset.antisymm fewer fun key among => ?_)
      exact List.mem_toFinset.mpr ((mem_keyList_reload b key).mpr (every key (List.mem_toFinset.mp among)))

end Buckets

end Naruto.Database
