import Cdfs.Basis.Json

/-! # File records and their stored form

The record a file is described by (`file/MetaFile.h`) and its JSON form. The two
field lists of the serialisation macros are kept as written: a shard is stored
without its path, so reading a stored record back gives the record with the shard
paths cleared (`Cdfs.MetaFile.fromJson_toJson`).
-/

namespace Cdfs

open Basis

/-- Life-cycle state of a file. -/
inductive FileStatus where
  | normal
  | deleted
  | corrupted
  | syncing
  | locked
  deriving DecidableEq, Repr, Inhabited

/-- The enumerator's number, the form in which it is stored. -/
def FileStatus.toInt : FileStatus → Int
  | .normal => 0
  | .deleted => 1
  | .corrupted => 2
  | .syncing => 3
  | .locked => 4

/-- The enumerator with a number. The records read back were written from
enumerators, so no other number is met. -/
def FileStatus.ofInt? (number : Int) : Option FileStatus :=
  if number = 0 then some .normal
  else if number = 1 then some .deleted
  else if number = 2 then some .corrupted
  else if number = 3 then some .syncing
  else if number = 4 then some .locked
  else none

theorem FileStatus.ofInt?_toInt (status : FileStatus) :
    FileStatus.ofInt? status.toInt = some status := by
  cases status <;> rfl

/-- One shard of a file. -/
structure FileShard where
  index : UInt32
  shardId : Bytes
  size : UInt64
  md5 : Bytes
  path : Bytes
  deriving DecidableEq, Repr, Inhabited

/-- The record of one file. -/
structure MetaFile where
  md5 : Bytes
  path : Bytes
  name : Bytes
  domain : Bytes := []
  scene : Bytes
  src : Bytes := []
  size : Int64
  mtime : Int64
  status : FileStatus := .normal
  isSharded : Bool := false
  shardStdSize : UInt64 := 0
  shardCount : UInt32 := 0
  shards : List FileShard := []
  uploadedCount : Int32 := 0
  uploadedChunks : List UInt32 := []
  peers : List Bytes := []
  deriving DecidableEq, Repr, Inhabited

section Decode

/-- A JSON string. -/
def getString : Json → Option Bytes
  | .str value => some value
  | _ => none

/-- A JSON integer. -/
def getInteger : Json → Option Int
  | .num value => some value
  | _ => none

/-- A JSON number in a 32-bit field, where a Boolean also counts as a number. -/
def getArithmetic : Json → Option Int
  | .num value => some value
  | .bool value => some (if value then 1 else 0)
  | _ => none

/-- A JSON Boolean. -/
def getBool : Json → Option Bool
  | .bool value => some value
  | _ => none

/-- A JSON array, item by item. -/
def getArray {α : Type} (item : Json → Option α) : Json → Option (List α)
  | .arr items => items.mapM item
  | _ => none

end Decode

/-- The stored fields of a shard; the path is not among them. -/
def FileShard.members (shard : FileShard) : List (Bytes × Json) :=
  [(bytes "index", .num shard.index.toNat),
   (bytes "shard_id", .str shard.shardId),
   (bytes "size", .num shard.size.toNat),
   (bytes "md5", .str shard.md5)]

/-- `to_json` of a shard. -/
def FileShard.toJson (shard : FileShard) : Json := .object shard.members

/-- `from_json` of a shard; the path keeps its default. -/
def FileShard.fromJson (json : Json) : Option FileShard := do
  let index ← (json.at? (bytes "index")).bind getArithmetic
  let shardId ← (json.at? (bytes "shard_id")).bind getString
  let size ← (json.at? (bytes "size")).bind getInteger
  let md5 ← (json.at? (bytes "md5")).bind getString
  return ⟨UInt32.ofInt index, shardId, UInt64.ofInt size, md5, []⟩

/-- The stored fields of a record. -/
def MetaFile.members (record : MetaFile) : List (Bytes × Json) :=
  [(bytes "md5", .str record.md5),
   (bytes "path", .str record.path),
   (bytes "name", .str record.name),
   (bytes "domain", .str record.domain),
   (bytes "scene", .str record.scene),
   (bytes "src", .str record.src),
   (bytes "size", .num record.size.toInt),
   (bytes "mtime", .num record.mtime.toInt),
   (bytes "status", .num record.status.toInt),
   (bytes "is_sharded", .bool record.isSharded),
   (bytes "shard_std_size", .num record.shardStdSize.toNat),
   (bytes "shard_count", .num record.shardCount.toNat),
   (bytes "shards", .arr (record.shards.map FileShard.toJson)),
   (bytes "uploaded_count", .num record.uploadedCount.toInt),
   (bytes "uploaded_chunks", .arr (record.uploadedChunks.map fun index => .num index.toNat)),
   (bytes "peers", .arr (record.peers.map .str))]

/-- `to_json` of a record. -/
def MetaFile.toJson (record : MetaFile) : Json := .object record.members

/-- `from_json` of a record. -/
def MetaFile.fromJson (json : Json) : Option MetaFile := do
  let md5 ← (json.at? (bytes "md5")).bind getString
  let path ← (json.at? (bytes "path")).bind getString
  let name ← (json.at? (bytes "name")).bind getString
  let domain ← (json.at? (bytes "domain")).bind getString
  let scene ← (json.at? (bytes "scene")).bind getString
  let src ← (json.at? (bytes "src")).bind getString
  let size ← (json.at? (bytes "size")).bind getInteger
  let mtime ← (json.at? (bytes "mtime")).bind getInteger
  let status ← ((json.at? (bytes "status")).bind getInteger).bind FileStatus.ofInt?
  let isSharded ← (json.at? (bytes "is_sharded")).bind getBool
  let shardStdSize ← (json.at? (bytes "shard_std_size")).bind getInteger
  let shardCount ← (json.at? (bytes "shard_count")).bind getArithmetic
  let shards ← (json.at? (bytes "shards")).bind (getArray FileShard.fromJson)
  let uploadedCount ← (json.at? (bytes "uploaded_count")).bind getArithmetic
  let uploadedChunks ← (json.at? (bytes "uploaded_chunks")).bind (getArray getArithmetic)
  let peers ← (json.at? (bytes "peers")).bind (getArray getString)
  return { md5, path, name, domain, scene, src, size := Int64.ofInt size,
           mtime := Int64.ofInt mtime, status, isSharded,
           shardStdSize := UInt64.ofInt shardStdSize, shardCount := UInt32.ofInt shardCount, shards,
           uploadedCount := Int32.ofInt uploadedCount,
           uploadedChunks := uploadedChunks.map UInt32.ofInt, peers }

/-- The strings of a record that are stored. -/
def MetaFile.strings (record : MetaFile) : List Bytes :=
  [record.md5, record.path, record.name, record.domain, record.scene, record.src] ++
    record.shards.flatMap (fun shard => [shard.shardId, shard.md5]) ++ record.peers

/-- Every stored string of the record is UTF-8. -/
def MetaFile.IsUtf8 (record : MetaFile) : Prop :=
  ∀ text ∈ record.strings, validUtf8 text = true

instance (record : MetaFile) : Decidable record.IsUtf8 :=
  inferInstanceAs (Decidable (∀ text ∈ record.strings, validUtf8 text = true))

/-- The record as it reads back after being stored: the shard paths are gone. -/
def MetaFile.asStored (record : MetaFile) : MetaFile :=
  { record with shards := record.shards.map fun shard => { shard with path := [] } }

/-- A list is read back when each of its items is. -/
theorem mapM_map_some {α β : Type} {encode : α → Json} {decode : Json → Option β} {read : α → β}
    (items : List α) (inverse : ∀ item ∈ items, decode (encode item) = some (read item)) :
    (items.map encode).mapM decode = some (items.map read) := by
  induction items with
  | nil => rfl
  | cons item rest ih =>
      rw [List.map_cons, List.mapM_cons, inverse item (List.mem_cons_self ..),
        ih fun other member => inverse other (List.mem_cons_of_mem _ member)]
      rfl

/-- The names under which a shard's fields are stored. -/
def FileShard.memberNames : List Bytes :=
  [bytes "index", bytes "shard_id", bytes "size", bytes "md5"]

/-- The names under which a record's fields are stored. -/
def MetaFile.memberNames : List Bytes :=
  [bytes "md5", bytes "path", bytes "name", bytes "domain", bytes "scene", bytes "src",
   bytes "size", bytes "mtime", bytes "status", bytes "is_sharded", bytes "shard_std_size",
   bytes "shard_count", bytes "shards", bytes "uploaded_count", bytes "uploaded_chunks",
   bytes "peers"]

/-- The members printed of a shard are those of the macro. -/
theorem FileShard.members_names (shard : FileShard) :
    shard.members.map Prod.fst = FileShard.memberNames := rfl

/-- The members printed of a record are those of the macro. -/
theorem MetaFile.members_names (record : MetaFile) :
    record.members.map Prod.fst = MetaFile.memberNames := rfl

/-- Each member of a shard is found by its name. -/
theorem FileShard.at?_toJson {shard : FileShard} {name : Bytes} {value : Json}
    (member : (name, value) ∈ shard.members) : shard.toJson.at? name = some value := by
  refine Json.at?_object_of_mem ?_ member
  rw [shard.members_names]
  decide +kernel

/-- Each member of a record is found by its name. -/
theorem MetaFile.at?_toJson {record : MetaFile} {name : Bytes} {value : Json}
    (member : (name, value) ∈ record.members) : record.toJson.at? name = some value := by
  refine Json.at?_object_of_mem ?_ member
  rw [record.members_names]
  decide +kernel

/-- A shard reads back without its path, which is not printed. -/
theorem FileShard.fromJson_toJson (shard : FileShard) :
    FileShard.fromJson shard.toJson = some { shard with path := [] } := by
  have index : shard.toJson.at? (bytes "index") = some (.num shard.index.toNat) :=
    at?_toJson (by simp [members])
  have shardId : shard.toJson.at? (bytes "shard_id") = some (.str shard.shardId) :=
    at?_toJson (by simp [members])
  have size : shard.toJson.at? (bytes "size") = some (.num shard.size.toNat) :=
    at?_toJson (by simp [members])
  have md5 : shard.toJson.at? (bytes "md5") = some (.str shard.md5) :=
    at?_toJson (by simp [members])
  simp only [FileShard.fromJson, index, shardId, size, md5, Option.bind_some, getArithmetic,
    getString, getInteger, Option.bind_eq_bind, Option.pure_def, uint32_ofInt_toNat,
    uint64_ofInt_toNat]

/-- Reading the JSON form of a record gives the record as stored. -/
theorem MetaFile.fromJson_toJson (record : MetaFile) :
    MetaFile.fromJson record.toJson = some record.asStored := by
  have shards : (record.shards.map FileShard.toJson).mapM FileShard.fromJson =
      some (record.shards.map fun shard => { shard with path := [] }) :=
    mapM_map_some record.shards fun shard _ => shard.fromJson_toJson
  have chunks : (record.uploadedChunks.map fun index => Json.num index.toNat).mapM getArithmetic =
      some (record.uploadedChunks.map fun index => (index.toNat : Int)) :=
    mapM_map_some record.uploadedChunks fun _ _ => rfl
  have peers : (record.peers.map Json.str).mapM getString = some (record.peers.map id) :=
    mapM_map_some record.peers fun _ _ => rfl
  have indices : (record.uploadedChunks.map fun index => (index.toNat : Int)).map UInt32.ofInt =
      record.uploadedChunks := by
    rw [List.map_map]
    exact (List.map_congr_left fun index _ => uint32_ofInt_toNat index).trans (List.map_id _)
  have field (index : Nat) {name : Bytes} {value : Json}
      (position : record.members[index]? = some (name, value)) :
      record.toJson.at? name = some value := at?_toJson (List.mem_of_getElem? position)
  simp only [MetaFile.fromJson,
    field 0 rfl, field 1 rfl, field 2 rfl, field 3 rfl, field 4 rfl, field 5 rfl, field 6 rfl,
    field 7 rfl, field 8 rfl, field 9 rfl, field 10 rfl, field 11 rfl, field 12 rfl, field 13 rfl,
    field 14 rfl, field 15 rfl, Option.bind_some, getArithmetic, getString, getInteger, getBool,
    getArray, Option.bind_eq_bind, Option.pure_def, FileStatus.ofInt?_toInt, shards, chunks, peers,
    indices, List.map_id, Int64.ofInt_toInt, Int32.ofInt_toInt, uint64_ofInt_toNat,
    uint32_ofInt_toNat, MetaFile.asStored]

/-- A shard of UTF-8 strings is printed as UTF-8. -/
theorem FileShard.isUtf8_toJson {shard : FileShard} (shardId : validUtf8 shard.shardId = true)
    (md5 : validUtf8 shard.md5 = true) : shard.toJson.isUtf8 = true := by
  have names : ∀ name ∈ memberNames, validUtf8 name = true := by decide +kernel
  have values : ∀ value ∈ shard.members.map Prod.snd, value.isUtf8 = true := by
    simp only [members, List.map_cons, List.map_nil, List.forall_mem_cons, Json.isUtf8, shardId, md5,
      List.not_mem_nil, IsEmpty.forall_iff, implies_true, and_self]
  exact Json.isUtf8_object fun member inside => ⟨names _ (List.mem_map_of_mem (f := Prod.fst) inside),
    values _ (List.mem_map_of_mem inside)⟩

/-- The members of a shard are distinct and in order. -/
theorem FileShard.canonical_toJson (shard : FileShard) : shard.toJson.canonical = true := by
  have index := shard.index.toNat_lt
  have size := shard.size.toNat_lt
  apply Json.canonical_object
  simp only [members, List.forall_mem_cons, Json.canonical, decide_eq_true_eq, List.not_mem_nil,
    IsEmpty.forall_iff, implies_true, and_true, true_and]
  omega

/-- A record of UTF-8 strings has a UTF-8 JSON form. -/
theorem MetaFile.isUtf8_toJson {record : MetaFile} (valid : record.IsUtf8) :
    record.toJson.isUtf8 = true := by
  simp only [MetaFile.IsUtf8, MetaFile.strings, List.forall_mem_append, List.forall_mem_cons,
    List.mem_flatMap, List.not_mem_nil, IsEmpty.forall_iff, implies_true, and_true] at valid
  obtain ⟨⟨texts, shardTexts⟩, peerTexts⟩ := valid
  have names : ∀ name ∈ memberNames, validUtf8 name = true := by decide +kernel
  have shards : Json.isUtf8Items (record.shards.map FileShard.toJson) = true := by
    rw [Json.isUtf8Items_eq, List.all_map, List.all_eq_true]
    intro shard member
    rw [Function.comp_apply]
    exact shard.isUtf8_toJson (shardTexts _ ⟨shard, member, by simp⟩)
      (shardTexts _ ⟨shard, member, by simp⟩)
  have chunks : Json.isUtf8Items (record.uploadedChunks.map fun index => Json.num index.toNat) =
      true := by
    rw [Json.isUtf8Items_eq, List.all_map, List.all_eq_true]
    exact fun _ _ => rfl
  have peers : Json.isUtf8Items (record.peers.map Json.str) = true := by
    rw [Json.isUtf8Items_eq, List.all_map, List.all_eq_true]
    exact fun peer member => peerTexts peer member
  have values : ∀ value ∈ record.members.map Prod.snd, value.isUtf8 = true := by
    simp only [members, List.map_cons, List.map_nil, List.forall_mem_cons, Json.isUtf8, shards,
      chunks, peers, texts, List.not_mem_nil, IsEmpty.forall_iff, implies_true, and_self]
  exact Json.isUtf8_object fun member inside => ⟨names _ (List.mem_map_of_mem (f := Prod.fst) inside),
    values _ (List.mem_map_of_mem inside)⟩

/-- Every record has a canonical JSON form. -/
theorem MetaFile.canonical_toJson (record : MetaFile) : record.toJson.canonical = true := by
  have shards : Json.canonicalItems (record.shards.map FileShard.toJson) = true := by
    rw [Json.canonicalItems_eq, List.all_map, List.all_eq_true]
    intro shard _
    rw [Function.comp_apply]
    exact shard.canonical_toJson
  have chunks : Json.canonicalItems (record.uploadedChunks.map fun index =>
      Json.num index.toNat) = true := by
    rw [Json.canonicalItems_eq, List.all_map, List.all_eq_true]
    intro index _
    have bound := index.toNat_lt
    rw [Function.comp_apply]
    exact Json.canonical_num (by omega) (by omega)
  have peers : Json.canonicalItems (record.peers.map Json.str) = true := by
    rw [Json.canonicalItems_eq, List.all_map, List.all_eq_true]
    exact fun _ _ => rfl
  have sizeBounds := And.intro record.size.le_toInt record.size.toInt_lt
  have mtimeBounds := And.intro record.mtime.le_toInt record.mtime.toInt_lt
  have countBounds := And.intro record.uploadedCount.le_toInt record.uploadedCount.toInt_lt
  have standard := record.shardStdSize.toNat_lt
  have count := record.shardCount.toNat_lt
  have status : 0 ≤ record.status.toInt ∧ record.status.toInt ≤ 4 := by
    cases record.status <;> decide
  apply Json.canonical_object
  simp only [members, List.forall_mem_cons, Json.canonical, decide_eq_true_eq, shards, chunks, peers,
    List.not_mem_nil, IsEmpty.forall_iff, implies_true, and_true, true_and]
  omega

end Cdfs
