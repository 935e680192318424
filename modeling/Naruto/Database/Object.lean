import Naruto.Utils.Crc

/-!
# Stored objects

An object is what an element of the store points to: a string, a number, a list
or a map. It knows its type and writes itself into, and reads itself from, the
`Feature` message of the database file. A list or a map touches its field of the
message only for its members, so an empty one leaves the `oneof` unset.
-/

namespace Naruto.Database

open Naruto.Utils

/-- `tensorflow::Type`. -/
inductive FeatureType
  | unknow
  | int
  | intList
  | float
  | floatList
  | bytes
  | bytesList
  | map
deriving DecidableEq, Repr

/-- The name of an enumeration value. -/
def FeatureType.name : FeatureType → String
  | .unknow => "UNKNOW"
  | .int => "INT"
  | .intList => "INT_LIST"
  | .float => "FLOAT"
  | .floatList => "FLOAT_LIST"
  | .bytes => "BYTES"
  | .bytesList => "BYTES_LIST"
  | .map => "MAP"

/-- The classes derived from `object` with their data. A float is its 32 bits. Lists and maps
hold byte strings. -/
inductive Object
  | string (data : Str)
  | int64 (data : Int64)
  | float (data : UInt32)
  | int64List (data : List Int64)
  | floatList (data : List UInt32)
  | stringList (data : List Str)
  | map (data : List (Str × Str))
deriving DecidableEq, Repr

/-- The `oneof kind` of a `Feature`. -/
inductive Kind
  | bytesValue (value : Str)
  | floatValue (value : UInt32)
  | int64Value (value : Int64)
  | bytesList (value : List Str)
  | floatList (value : List UInt32)
  | int64List (value : List Int64)
  | bytesMap (value : List (Str × Str))
deriving DecidableEq, Repr

/-- `tensorflow::Feature`. -/
structure Feature where
  type : FeatureType
  encoding : UInt32
  create : UInt64
  lru : UInt64
  expire : UInt64
  kind : Option Kind
deriving DecidableEq, Repr

namespace Object

/-- `type()`. -/
def type : Object → FeatureType
  | .string _ => .bytes
  | .int64 _ => .int
  | .float _ => .float
  | .int64List _ => .intList
  | .floatList _ => .floatList
  | .stringList _ => .bytesList
  | .map _ => .map

/-- `typeName()`. -/
def typeName (o : Object) : String := o.type.name

/-- `serialize(feature)`: the type, and the value through its `mutable` field. A list or a map
without members leaves its field unset. -/
def serialize (o : Object) (feature : Feature) : Feature :=
  let feature := { feature with type := o.type }
  match o with
  | .string data => { feature with kind := some (.bytesValue data) }
  | .int64 data => { feature with kind := some (.int64Value data) }
  | .float data => { feature with kind := some (.floatValue data) }
  | .int64List data => if data = [] then feature else { feature with kind := some (.int64List data) }
  | .floatList data => if data = [] then feature else { feature with kind := some (.floatList data) }
  | .stringList data => if data = [] then feature else { feature with kind := some (.bytesList data) }
  | .map data => if data = [] then feature else { feature with kind := some (.bytesMap data) }

/-- The object `Buckets::parse` creates for the field that is set. -/
def create : Kind → Object
  | .int64Value _ => .int64 0
  | .int64List _ => .int64List []
  | .floatValue _ => .float 0
  | .floatList _ => .floatList []
  | .bytesValue _ => .string []
  | .bytesList _ => .stringList []
  | .bytesMap _ => .map []

/-- `deSeralize(feature)`: nothing happens when the type field names another class.
A map is filled by `emplace`, so the first entry of a key stays. -/
def deSeralize (o : Object) (feature : Feature) : Object :=
  if feature.type ≠ o.type then o
  else match o, feature.kind with
    | .string _, some (.bytesValue value) => .string value
    | .string _, _ => .string []
    | .int64 _, some (.int64Value value) => .int64 value
    | .int64 _, _ => .int64 0
    | .float _, some (.floatValue value) => .float value
    | .float _, _ => .float 0
    | .int64List data, some (.int64List value) => .int64List (data ++ value)
    | .floatList data, some (.floatList value) => .floatList (data ++ value)
    | .stringList data, some (.bytesList value) => .stringList (data ++ value)
    | .map data, some (.bytesMap value) => .map (value.foldl (fun data entry =>
        if entry.1 ∈ data.map Prod.fst then data else data ++ [entry]) data)
    | o, _ => o

/-- The object writes a field of the `oneof`: it is not an empty list or map. The
keys of a map are distinct. -/
def Written : Object → Prop
  | .string _ => True
  | .int64 _ => True
  | .float _ => True
  | .int64List data => data ≠ []
  | .floatList data => data ≠ []
  | .stringList data => data ≠ []
  | .map data => data ≠ [] ∧ (data.map Prod.fst).Nodup

/-- Filling an empty map with entries of distinct keys gives these entries. The
induction keeps the entries already there apart from those to come. -/
theorem emplace_all (front back : List (Str × Str)) (distinct : ((front ++ back).map Prod.fst).Nodup) :
    back.foldl (fun data entry => if entry.1 ∈ data.map Prod.fst then data else data ++ [entry]) front =
      front ++ back := by
  induction back generalizing front with
  | nil => rw [List.append_nil]; rfl
  | cons entry back ih =>
    have fresh : ¬ entry.1 ∈ front.map Prod.fst := by
      rw [List.map_append, List.map_cons] at distinct
      intro member
      exact List.nodup_append.mp distinct |>.2.2 _ member _ List.mem_cons_self rfl
    have regroup : front ++ entry :: back = front ++ [entry] ++ back := by
      rw [List.append_assoc, List.singleton_append]
    rw [List.foldl_cons, if_neg fresh, ih (front ++ [entry]) (by rw [← regroup]; exact distinct), regroup]

/-- What an object writes into an empty message is read back as the same object. A list or a map
that is empty writes no field, so it must not be. -/
theorem deSeralize_serialize (o : Object) (written : o.Written) (feature : Feature) :
    ∃ kind, (o.serialize feature).kind = some kind ∧
      (create kind).deSeralize (o.serialize feature) = o := by
  cases o with
  | string data => exact ⟨_, rfl, rfl⟩
  | int64 data => exact ⟨_, rfl, rfl⟩
  | float data => exact ⟨_, rfl, rfl⟩
  | int64List data => exact ⟨.int64List data, by simp [serialize, show data ≠ [] from written],
      by simp [serialize, show data ≠ [] from written, create, deSeralize, type]⟩
  | floatList data => exact ⟨.floatList data, by simp [serialize, show data ≠ [] from written],
      by simp [serialize, show data ≠ [] from written, create, deSeralize, type]⟩
  | stringList data => exact ⟨.bytesList data, by simp [serialize, show data ≠ [] from written],
      by simp [serialize, show data ≠ [] from written, create, deSeralize, type]⟩
  | map data =>
    have filled := emplace_all [] data written.2
    rw [List.nil_append] at filled
    refine ⟨.bytesMap data, by simp [serialize, written.1], ?_⟩
    simp only [serialize, written.1, ↓reduceIte, create, deSeralize, type, ne_eq, not_true_eq_false]
    rw [filled]

end Object

end Naruto.Database
