import Mathlib.Algebra.Ring.Int.Defs
import Naruto.Database.Buckets

/-!
# The database file

A dump writes one message for each key, and a load puts an element back for every
feature whose `oneof` is set. Two things get lost on the way. A list or a map without
members sets no field, so its cell is dropped. And the expiry is written from the
access time. What is kept otherwise are the object, the encoding, and the times cut
to milliseconds.
-/

namespace Naruto.Database

open Naruto.Utils

namespace Object

/-- Filling a map keeps its keys distinct. By induction on the entries: one with a key that is
there already changes nothing. -/
theorem emplace_nodup (front back : List (Str × Str)) (distinct : (front.map Prod.fst).Nodup) :
    ((back.foldl (fun data entry => if entry.1 ∈ data.map Prod.fst then data else data ++ [entry]) front).map
      Prod.fst).Nodup := by
  induction back generalizing front with
  | nil => exact distinct
  | cons entry back ih =>
    apply ih
    dsimp only
    by_cases there : entry.1 ∈ front.map Prod.fst
    · rw [if_pos there]
      exact distinct
    · rw [if_neg there, List.map_append]
      refine List.nodup_append.mpr ⟨distinct, List.nodup_singleton _, fun key member last same => ?_⟩
      rintro rfl
      exact there (List.mem_singleton.mp same ▸ member)

/-- An object is read back as it was written exactly when it writes a field. By cases on the
object: a number and a string set their field, a list and a map only with a member. -/
theorem deSeralize_serialize_iff (o : Object) (feature : Feature) (unset : feature.kind = none) :
    (∃ kind, (o.serialize feature).kind = some kind ∧ (create kind).deSeralize (o.serialize feature) = o) ↔
      o.Written := by
  constructor
  · rintro ⟨kind, set, same⟩
    cases o with
    | string data => trivial
    | int64 data => trivial
    | float data => trivial
    | int64List data =>
      rintro rfl
      cases unset.symm.trans set
    | floatList data =>
      rintro rfl
      cases unset.symm.trans set
    | stringList data =>
      rintro rfl
      cases unset.symm.trans set
    | map data =>
      have something : data ≠ [] := by
        rintro rfl
        cases unset.symm.trans set
      refine ⟨something, ?_⟩
      simp only [serialize, something, ↓reduceIte, Option.some.injEq] at set
      subst set
      simp only [serialize, something, ↓reduceIte, create, deSeralize, type, ne_eq, not_true_eq_false,
        Object.map.injEq] at same
      rw [← same]
      exact emplace_nodup [] data List.nodup_nil
  · exact fun written => deSeralize_serialize o written feature

end Object

/-- For an element of a dumped store: the loaded store has the same object in its cell exactly
when the object writes a field, which every number and string does, and every list and map
with a member.

Proof: dump and load act on each cell by itself, so the loaded cell is the element's feature
read back. The kind of a feature is the field that is set in it, and an object without members
sets none. -/
theorem Buckets.load_dump_iff (b : Buckets) (key field : Str) (v : Element) (stored : b.get key field = some v) :
    (∃ v', (load b.dump).get key field = some v' ∧ v'.ptr = v.ptr) ↔ v.ptr.Written := by
  rw [get_load_dump, stored, Option.bind_some, ← Object.deSeralize_serialize_iff v.ptr
    { type := .unknow, encoding := v.encoding, create := toMillis v.create, lru := toMillis v.lru
      expire := toMillis v.lru, kind := none } rfl]
  constructor
  · rintro ⟨v', made, same⟩
    obtain ⟨kind, set, rfl⟩ := Option.map_eq_some_iff.mp made
    exact ⟨kind, set, same⟩
  · rintro ⟨kind, set, same⟩
    exact ⟨_, Option.map_eq_some_iff.mpr ⟨kind, set, rfl⟩, same⟩

/-- A stored number is kept. -/
theorem Buckets.load_dump_zero :
    (∃ v', (load (empty.put [1] [2] ⟨0, 0, 0, 0, .int64 0⟩).dump).get [1] [2] = some v' ∧ v'.ptr = .int64 0) ↔
      (Object.int64 0).Written :=
  load_dump_iff (empty.put [1] [2] ⟨0, 0, 0, 0, .int64 0⟩) [1] [2] ⟨0, 0, 0, 0, .int64 0⟩ (by rw [get_put]; rfl)

/-- A stored list without members is dropped. -/
theorem Buckets.load_dump_empty_list : ¬ ∀ (b : Buckets) (key field : Str) (v : Element), b.get key field = some v →
    ∃ v', (load b.dump).get key field = some v' ∧ v'.ptr = v.ptr := by
  intro always
  obtain ⟨v', loaded, _⟩ := always (empty.put [1] [2] ⟨0, 0, 0, 0, .int64List []⟩) [1] [2]
    ⟨0, 0, 0, 0, .int64List []⟩ (by rw [get_put]; rfl)
  rw [get_load_dump, get_put, if_pos ⟨rfl, rfl⟩] at loaded
  cases loaded

/-- A time as the number of nanoseconds that a `time_point` can hold. -/
def InRange (t : TimePoint) : Prop := -2 ^ 63 ≤ t ∧ t < 2 ^ 63

/-- Whether a time is in range can be decided. -/
instance (t : TimePoint) : Decidable (InRange t) := inferInstanceAs (Decidable (_ ∧ _))

/-- A time cut to milliseconds. -/
def truncated (t : TimePoint) : TimePoint := t.tdiv 1000000 * 1000000

/-- A number written to and read from a `uint64` field. -/
theorem toInt_ofInt (n : Int) (low : -2 ^ 63 ≤ n) (high : n < 2 ^ 63) : (UInt64.ofInt n).toInt64.toInt = n := by
  have word : (UInt64.ofInt n).toBitVec.toNat = (n % 2 ^ 64).toNat := by
    simp [UInt64.ofInt]
    omega
  have signed : (UInt64.ofInt n).toInt64.toInt = (UInt64.ofInt n).toBitVec.toInt := rfl
  rw [signed, BitVec.toInt_eq_toNat_bmod, word, Int.bmod_def]
  omega

/-- A time that is written and read is cut to milliseconds. -/
theorem fromMillis_toMillis (t : TimePoint) (range : InRange t) : fromMillis (toMillis t) = truncated t := by
  have shorter : ∀ n : Int, -2 ^ 63 ≤ n → n < 2 ^ 63 → -2 ^ 63 ≤ n.tdiv 1000000 ∧ n.tdiv 1000000 < 2 ^ 63 := by
    intro n low high
    have size : (n.tdiv 1000000).natAbs = n.natAbs / 1000000 := Int.natAbs_tdiv n 1000000
    omega
  obtain ⟨low, high⟩ := shorter t range.1 range.2
  have count : (toMillis t).toInt64.toInt = t.tdiv 1000000 := toInt_ofInt _ low high
  rw [fromMillis, count]
  rfl

/-- The header fields of an element: encoding, creation, last access and expiry. -/
def Element.headers (v : Element) : UInt32 × TimePoint × TimePoint × TimePoint := (v.encoding, v.create, v.lru, v.expire)

/-- The store loaded from a dump has the same cells, each with its encoding and its
times cut to milliseconds. -/
def Buckets.HeadersKept (b : Buckets) : Prop :=
  ∀ key field, ((load b.dump).get key field).map Element.headers =
    (b.get key field).map fun v => (v.encoding, truncated v.create, truncated v.lru, truncated v.expire)

/-- The header fields of a loaded element: the expiry is the access time. They are written the
same way for every kind of object, in milliseconds, and `parse` reads them back. -/
theorem elementOf_headers (v : Element) (written : v.ptr.Written) (create : InRange v.create) (lru : InRange v.lru) :
    (elementOf v.toFeature).map Element.headers =
      some (v.encoding, truncated v.create, truncated v.lru, truncated v.lru) := by
  obtain ⟨kind, set, _⟩ := Object.deSeralize_serialize v.ptr written
    { type := .unknow, encoding := v.encoding, create := toMillis v.create, lru := toMillis v.lru
      expire := toMillis v.lru, kind := none }
  have kind' : v.toFeature.kind = some kind := set
  have fields : v.toFeature.encoding = v.encoding ∧ v.toFeature.create = toMillis v.create ∧
      v.toFeature.lru = toMillis v.lru ∧ v.toFeature.expire = toMillis v.lru := by
    rw [Element.toFeature]
    cases v.ptr with
    | string data => exact ⟨rfl, rfl, rfl, rfl⟩
    | int64 data => exact ⟨rfl, rfl, rfl, rfl⟩
    | float data => exact ⟨rfl, rfl, rfl, rfl⟩
    | int64List data => cases data <;> exact ⟨rfl, rfl, rfl, rfl⟩
    | floatList data => cases data <;> exact ⟨rfl, rfl, rfl, rfl⟩
    | stringList data => cases data <;> exact ⟨rfl, rfl, rfl, rfl⟩
    | map data => cases data <;> exact ⟨rfl, rfl, rfl, rfl⟩
  obtain ⟨encoding, created, accessed, expires⟩ := fields
  simp only [elementOf, kind', Option.map_some, Element.headers, encoding, created, accessed, expires,
    fromMillis_toMillis v.create create, fromMillis_toMillis v.lru lru]

/-- A store of numbers, strings, and lists and maps with members, whose times are counts of 64
bits: its header fields are kept exactly when every expiry is, to the millisecond, the access
time.

Proof: a dumped and loaded element has its encoding, and creation and access time cut to
milliseconds. Its expiry is the access time cut to milliseconds, since `bucket::dump` writes
`lru` there; so the expiry is kept exactly where the two agree. -/
theorem Buckets.headersKept_iff (b : Buckets) (written : b.Written)
    (times : ∀ key field v, b.get key field = some v → InRange v.create ∧ InRange v.lru) :
    b.HeadersKept ↔ ∀ key field v, b.get key field = some v → truncated v.expire = truncated v.lru := by
  have loaded : ∀ key field v, b.get key field = some v → ((load b.dump).get key field).map Element.headers =
      some (v.encoding, truncated v.create, truncated v.lru, truncated v.lru) := by
    intro key field v stored
    have object : v.ptr.Written := written (key, field) v.ptr (by rw [cells, stored]; rfl)
    obtain ⟨create, lru⟩ := times key field v stored
    rw [get_load_dump, stored]
    exact elementOf_headers v object create lru
  constructor
  · intro kept key field v stored
    have same := kept key field
    rw [loaded key field v stored, stored, Option.map_some, Option.some.injEq] at same
    simp only [Prod.mk.injEq, true_and] at same
    exact same.symm
  · intro expires key field
    cases stored : b.get key field with
    | none => rw [get_load_dump, stored]; rfl
    | some v => rw [loaded key field v stored, Option.map_some, expires key field v stored]

/-- A store with one element. -/
def Buckets.single (v : Element) : Buckets := empty.put [1] [2] v

/-- Its only element. -/
theorem Buckets.get_single {v v' : Element} {key field : Str} (stored : (single v).get key field = some v') : v' = v := by
  rw [single, get_put, get_empty, get_empty, Option.none_or] at stored
  by_cases here : key = [1] ∧ field = [2]
  · rw [if_pos here] at stored
    exact (Option.some.inj stored).symm
  · rw [if_neg here] at stored
    cases stored

/-- It writes its field when its object does. -/
theorem Buckets.single_written {v : Element} (object : v.ptr.Written) : (single v).Written := by
  intro cell o stored
  obtain ⟨v', found, rfl⟩ := Option.map_eq_some_iff.mp stored
  rw [get_single found]
  exact object

/-- An element that expires with its last access. -/
theorem Buckets.headersKept_single : (single ⟨0, 5, 7000000, 7000001, .int64 3⟩).HeadersKept ↔
    ∀ key field v, (single ⟨0, 5, 7000000, 7000001, .int64 3⟩).get key field = some v →
      truncated v.expire = truncated v.lru :=
  headersKept_iff _ (single_written trivial) fun key field v stored => by
    rw [get_single stored]
    decide

/-- An element that expires ten seconds after it was created loses its expiry. -/
theorem Buckets.expiry_lost : ¬ ∀ b : Buckets, b.Written →
    (∀ key field v, b.get key field = some v → InRange v.create ∧ InRange v.lru) → b.HeadersKept := by
  intro always
  have kept := always (single ⟨0, 0, 0, 10000000000, .int64 3⟩) (single_written trivial) (by
    intro key field v stored
    rw [get_single stored]
    decide) [1] [2]
  rw [get_load_dump, single, get_put, if_pos ⟨rfl, rfl⟩] at kept
  exact absurd kept (by decide)

end Naruto.Database
