import Cdfs.Basis.JsonText
import Cdfs.Meta.MetadataStore

/-! # The catalog of stored records

What the metadata store is for: a finite map from MD5 to file record. The catalog
of a database (`Cdfs.catalog`) reads the entries whose key is a hexadecimal MD5.
`Cdfs.Catalog.step` gives the effect of every call on it, and
`Cdfs.MetadataStore.catalog_step` says the store refines this, as long as every
such entry holds a readable record under its own MD5 (`Cdfs.Readable`), which the
calls keep.
-/

namespace Cdfs

open Basis

section Keys

/-- The key families start with letters that are not hexadecimal digits. -/
theorem ne_cons_of_hex {md5 key : Bytes} (hex : ∀ byte ∈ md5, isHexDigit byte = true)
    (first : UInt8) (letter : isHexDigit first = false) : md5 ≠ first :: key := by
  rintro rfl
  exact Bool.false_ne_true (letter.symm.trans (hex first (List.mem_cons_self ..)))

theorem IsHexMd5.ne_cons {md5 key : Bytes} (hex : IsHexMd5 md5) (first : UInt8)
    (letter : isHexDigit first = false) : md5 ≠ first :: key := ne_cons_of_hex hex.2 first letter

/-- The keys of paths are no MD5s. -/
theorem IsHexMd5.ne_pathKey {md5 : Bytes} (hex : IsHexMd5 md5) (path : Bytes) :
    md5 ≠ pathKey path := hex.ne_cons 80 (by decide)

theorem IsHexMd5.ne_sceneKey {md5 : Bytes} (hex : IsHexMd5 md5) (scene : Bytes) (mtime : Int64)
    (other : Bytes) : md5 ≠ sceneKey scene mtime other := hex.ne_cons 83 (by decide)

theorem IsHexMd5.ne_shardKey {md5 : Bytes} (hex : IsHexMd5 md5) (fileMd5 : Bytes)
    (shardIndex : UInt32) : md5 ≠ shardKey fileMd5 shardIndex :=
  hex.ne_cons 83 (by decide)

/-- Different paths have different keys. -/
theorem pathKey_injective {first second : Bytes} (same : pathKey first = pathKey second) :
    first = second := List.append_cancel_left same

theorem pathKey_ne_sceneKey (path scene : Bytes) (mtime : Int64) (md5 : Bytes) :
    pathKey path ≠ sceneKey scene mtime md5 :=
  fun same => (by decide : (80 : UInt8) ≠ 83) (List.cons.inj same).1

theorem pathKey_ne_shardKey (path fileMd5 : Bytes) (shardIndex : UInt32) :
    pathKey path ≠ shardKey fileMd5 shardIndex :=
  fun same => (by decide : (80 : UInt8) ≠ 83) (List.cons.inj same).1

/-- A scene key ends with the MD5, so it determines the MD5 whatever the scene
contains. -/
theorem sceneKey_md5 {scene other : Bytes} {mtime otherTime : Int64} {md5 otherMd5 : Bytes}
    (hex : IsHexMd5 md5) (otherHex : IsHexMd5 otherMd5)
    (same : sceneKey scene mtime md5 = sceneKey other otherTime otherMd5) : md5 = otherMd5 := by
  unfold sceneKey at same
  simp only [← List.append_assoc] at same
  exact List.append_inj_right' same (hex.1.trans otherHex.1.symm)

end Keys

variable (codec : JsonCodec)

/-- A record of UTF-8 strings reads back without the paths of its shards. -/
theorem deserialize_serialize {record : MetaFile} (valid : record.IsUtf8) :
    deserialize codec (serialize codec record) = some record.asStored := by
  obtain ⟨text, printed, parsed⟩ := codec.exists_dump (record.isUtf8_toJson valid)
    record.canonical_toJson
  rw [deserialize, serialize, printed, Option.getD_some, parsed, Option.bind_some,
    record.fromJson_toJson]

/-- Storing changes nothing but the paths of shards. -/
theorem asStored_eq_iff (record : MetaFile) :
    record.asStored = record ↔ ∀ shard ∈ record.shards, shard.path = [] := by
  constructor
  · intro same shard member
    have shards : record.shards.map (fun shard => { shard with path := [] }) = record.shards :=
      congrArg MetaFile.shards same
    rw [← shards] at member
    obtain ⟨source, _, rfl⟩ := List.mem_map.mp member
    rfl
  · intro empty
    have shards : record.shards.map (fun shard => { shard with path := [] }) = record.shards := by
      refine (List.map_congr_left fun shard member => ?_).trans (List.map_id _)
      rw [← empty shard member]
      rfl
    rw [MetaFile.asStored, shards]

/-- A stored record reads back as it was if and only if its shards have no paths. -/
theorem deserialize_serialize_eq_iff {record : MetaFile} (valid : record.IsUtf8) :
    deserialize codec (serialize codec record) = some record ↔
      ∀ shard ∈ record.shards, shard.path = [] := by
  rw [deserialize_serialize codec valid, Option.some.injEq, asStored_eq_iff]

/-- A record with one shard. -/
def withShard (path : Bytes) : MetaFile :=
  { sampleMeta with
    shards := [{ index := 0, shardId := bytes "file_0", size := 1024, md5 := sampleMeta.md5, path }] }

/-- A record with a shard that has no path comes back with the shard. -/
theorem deserialize_serialize_withShard :
    deserialize compactCodec (serialize compactCodec (withShard [])) = some (withShard []) :=
  (deserialize_serialize_eq_iff compactCodec (by decide +kernel)).mpr (by decide)

/-- A record with one shard stored under a path of its own. -/
def shardedMeta : MetaFile := withShard (bytes "/data/shards/file_0")

/-- The path of the shard is lost. -/
theorem deserialize_serialize_shardedMeta :
    shardedMeta.IsUtf8 ∧ (∀ shard ∈ shardedMeta.shards, validUtf8 shard.path = true) ∧
      deserialize compactCodec (serialize compactCodec shardedMeta) ≠ some shardedMeta := by
  have valid : shardedMeta.IsUtf8 := by decide +kernel
  refine ⟨valid, by decide +kernel, ?_⟩
  rw [deserialize_serialize compactCodec valid]
  decide +kernel

/-- The catalog: stored records by MD5. -/
abbrev Catalog := OrderedMap Bytes MetaFile

namespace Catalog

/-- Add a record unless its MD5 is taken. -/
def insertNew (catalog : Catalog) (record : MetaFile) : Catalog :=
  if catalog.contains record.md5 then catalog else catalog.put record.md5 record

/-- Change the state of a record that is there. -/
def setStatus (catalog : Catalog) (md5 : Bytes) (status : FileStatus) : Catalog :=
  match catalog.get md5 with
  | none => catalog
  | some record => catalog.put md5 { record with status }

/-- The effect of a call on the catalog. -/
def step (catalog : Catalog) : MetaOp → Catalog
  | .saveMeta record ok => if ok then catalog.insertNew record.asStored else catalog
  | .updateStatus md5 status ok => if ok then catalog.setStatus md5 status else catalog
  | .updateMeta record deleteOk saveOk =>
      let remaining : Catalog := if deleteOk then catalog.erase record.md5 else catalog
      if saveOk then remaining.insertNew record.asStored else remaining
  | .deleteMeta md5 ok => if ok then catalog.erase md5 else catalog
  | _ => catalog

end Catalog

/-- The record a call brings into the store satisfies a predicate. -/
def MetaOp.Brings (predicate : MetaFile → Prop) : MetaOp → Prop
  | .saveMeta record _ => predicate record
  | .updateMeta record _ _ => predicate record
  | _ => True

instance (predicate : MetaFile → Prop) [DecidablePred predicate] (op : MetaOp) :
    Decidable (op.Brings predicate) :=
  match op with
  | .saveMeta record _ => inferInstanceAs (Decidable (predicate record))
  | .updateMeta record _ _ => inferInstanceAs (Decidable (predicate record))
  | .updateStatus .. => .isTrue trivial
  | .saveMetaShard .. => .isTrue trivial
  | .deleteMeta .. => .isTrue trivial
  | .repairStat => .isTrue trivial
  | .reopen => .isTrue trivial

/-- A predicate that does not look at the state of a file and holds of each record
brought in holds of all records of the catalog. -/
theorem Catalog.forall_step {predicate : MetaFile → Prop} {catalog : Catalog} {op : MetaOp}
    (status : ∀ record status, predicate record → predicate { record with status })
    (stored : ∀ record, predicate record → predicate record.asStored)
    (all : ∀ md5 record, catalog.get md5 = some record → predicate record)
    (brings : op.Brings predicate) (md5 : Bytes) (record : MetaFile)
    (present : (catalog.step op).get md5 = some record) : predicate record := by
  have inserted (other : Catalog) (added : MetaFile) (holds : predicate added)
      (others : ∀ md5 record, other.get md5 = some record → predicate record) :
      ∀ md5 record, (other.insertNew added.asStored).get md5 = some record →
        predicate record := by
    intro md5 record present
    unfold insertNew at present
    split at present
    · exact others md5 record present
    · rw [OrderedMap.get_put] at present
      split at present
      · cases present
        exact stored added holds
      · exact others md5 record present
  have erased (key : Bytes) : ∀ md5 record, (catalog.erase key).get md5 = some record →
      predicate record := by
    intro md5 record present
    rw [OrderedMap.get_erase] at present
    split at present
    · cases present
    · exact all md5 record present
  cases op with
  | saveMeta added ok =>
      simp only [step] at present
      split at present
      · exact inserted catalog added brings all md5 record present
      · exact all md5 record present
  | updateStatus key state ok =>
      simp only [step] at present
      split at present
      · unfold setStatus at present
        split at present
        · exact all md5 record present
        · rename_i old found
          rw [OrderedMap.get_put] at present
          split at present
          · cases present
            exact status old state (all key old found)
          · exact all md5 record present
      · exact all md5 record present
  | updateMeta added deleteOk saveOk =>
      simp only [step] at present
      have remaining : ∀ md5 record, (if deleteOk then catalog.erase added.md5
          else catalog : Catalog).get md5 = some record → predicate record := by
        cases deleteOk with
        | true => exact erased added.md5
        | false => exact all
      cases saveOk with
      | true => exact inserted _ added brings remaining md5 record present
      | false => exact remaining md5 record present
  | deleteMeta key ok =>
      simp only [step] at present
      cases ok with
      | true => exact erased key md5 record present
      | false => exact all md5 record present
  | saveMetaShard => exact all md5 record present
  | repairStat => exact all md5 record present
  | reopen => exact all md5 record present

/-- The catalog of a database: the readable entries under hexadecimal MD5s. -/
def catalog (db : LevelDB) : Catalog :=
  db.filterMap fun key text => if IsHexMd5 key then deserialize codec text else none

/-- A database value is the stored form of a record. -/
structure StoredAs (text : Bytes) (record : MetaFile) : Prop where
  valid : record.IsUtf8
  stored : record.asStored = record
  printed : text = serialize codec record

/-- Every entry under a hexadecimal MD5 is the stored form of a record with that
MD5. -/
def Readable (db : LevelDB) : Prop :=
  ∀ md5 text, IsHexMd5 md5 → db.get md5 = some text →
    ∃ record, StoredAs codec text record ∧ record.md5 = md5

variable {codec}

/-- What has been stored once reads back the same ever after. -/
theorem MetaFile.asStored_asStored (record : MetaFile) :
    record.asStored.asStored = record.asStored := by
  simp only [MetaFile.asStored, List.map_map]
  rfl

/-- The strings that are printed stay the same. -/
theorem MetaFile.strings_asStored (record : MetaFile) :
    record.asStored.strings = record.strings := by
  simp only [MetaFile.strings, MetaFile.asStored, List.flatMap_map]

/-- The paths of shards are not printed. -/
theorem serialize_asStored (record : MetaFile) :
    serialize codec record.asStored = serialize codec record := by
  have shards : record.asStored.shards.map FileShard.toJson = record.shards.map FileShard.toJson := by
    simp only [MetaFile.asStored, List.map_map]
    rfl
  unfold serialize MetaFile.toJson MetaFile.members
  rw [shards]
  rfl

/-- What a save writes is the stored form of its record. -/
theorem StoredAs.of_isUtf8 {record : MetaFile} (valid : record.IsUtf8) :
    StoredAs codec (serialize codec record) record.asStored where
  valid := fun text member => valid text (record.strings_asStored ▸ member)
  stored := record.asStored_asStored
  printed := (serialize_asStored record).symm

/-- A stored form reads back. -/
theorem StoredAs.deserialize_eq {text : Bytes} {record : MetaFile}
    (stored : StoredAs codec text record) : deserialize codec text = some record := by
  rw [stored.printed, deserialize_serialize codec stored.valid, stored.stored]

/-- With another status it is a stored form again. -/
theorem StoredAs.setStatus {text : Bytes} {record : MetaFile} (stored : StoredAs codec text record)
    (status : FileStatus) :
    StoredAs codec (serialize codec { record with status }) { record with status } where
  valid := stored.valid
  stored := by
    rw [show ({ record with status } : MetaFile).asStored =
      { record.asStored with status } from rfl, stored.stored]
  printed := rfl

/-- The catalog reads the entries under hexadecimal MD5s, and no others. -/
theorem catalog_get (db : LevelDB) (key : Bytes) :
    (catalog codec db).get key =
      if IsHexMd5 key then (db.get key).bind (deserialize codec) else none := by
  rw [catalog, OrderedMap.get_filterMap]
  by_cases hex : IsHexMd5 key
  · simp only [hex, ↓reduceIte]
  · simp only [hex, ↓reduceIte, Option.bind_fun_none]

/-- The records of a catalog are stored under hexadecimal MD5s. -/
theorem isHexMd5_of_catalog_get {db : LevelDB} {key : Bytes} {record : MetaFile}
    (stored : (catalog codec db).get key = some record) : IsHexMd5 key := by
  rw [catalog_get] at stored
  by_contra other
  rw [if_neg other] at stored
  cases stored

/-- In a readable database the catalog holds the record of every entry. -/
theorem Readable.catalog_get_eq_some {db : LevelDB} (readable : Readable codec db) {key : Bytes}
    {record : MetaFile} (hex : IsHexMd5 key) :
    (catalog codec db).get key = some record ↔
      ∃ text, db.get key = some text ∧ StoredAs codec text record ∧ record.md5 = key := by
  rw [catalog_get, if_pos hex, Option.bind_eq_some_iff]
  constructor
  · rintro ⟨text, present, parsed⟩
    obtain ⟨other, stored, named⟩ := readable key text hex present
    rw [stored.deserialize_eq, Option.some.injEq] at parsed
    subst parsed
    exact ⟨text, present, stored, named⟩
  · rintro ⟨text, present, stored, _⟩
    exact ⟨text, present, stored.deserialize_eq⟩

/-- In a readable database only a missing entry is missing in the catalog. -/
theorem Readable.catalog_get_eq_none {db : LevelDB} (readable : Readable codec db) {key : Bytes}
    (hex : IsHexMd5 key) : (catalog codec db).get key = none ↔ db.get key = none := by
  rw [catalog_get, if_pos hex]
  cases present : db.get key with
  | none => simp
  | some text =>
      obtain ⟨record, stored, _⟩ := readable key text hex present
      simp [stored.deserialize_eq]

/-- The catalog of a readable database has the same MD5s. -/
theorem Readable.catalog_contains {db : LevelDB} (readable : Readable codec db) {key : Bytes}
    (hex : IsHexMd5 key) : (catalog codec db).contains key = db.contains key := by
  unfold OrderedMap.contains
  have none := readable.catalog_get_eq_none hex
  cases found : (catalog codec db).get key <;> cases present : db.get key <;> simp_all

section Writes

variable {db : LevelDB}

/-- The database after the batch of a new record. -/
theorem get_saveBatch (record : MetaFile) (key : Bytes) :
    (db.write (MetadataStore.saveBatch codec record) true).get key =
      if sceneKey record.scene record.mtime record.md5 = key then some record.md5
      else if pathKey record.path = key then some record.md5
      else if record.md5 = key then some (serialize codec record) else db.get key := by
  simp only [LevelDB.write, MetadataStore.saveBatch, ↓reduceIte, List.foldl_cons, List.foldl_nil,
    BatchEntry.apply, OrderedMap.get_put]

/-- The database after the batch that deletes a record. -/
theorem get_deleteBatch (md5 : Bytes) (record : MetaFile) (key : Bytes) :
    (db.write (MetadataStore.deleteBatch md5 record) true).get key =
      if sceneKey record.scene record.mtime md5 = key then none
      else if pathKey record.path = key then none
      else if md5 = key then none else db.get key := by
  simp only [LevelDB.write, MetadataStore.deleteBatch, ↓reduceIte, List.foldl_cons, List.foldl_nil,
    BatchEntry.apply, OrderedMap.get_erase]

/-- Under MD5s a saved batch writes the record only. -/
theorem get_saveBatch_of_isHexMd5 (record : MetaFile) {key : Bytes} (hex : IsHexMd5 key) :
    (db.write (MetadataStore.saveBatch codec record) true).get key =
      if record.md5 = key then some (serialize codec record) else db.get key := by
  rw [get_saveBatch, if_neg (Ne.symm (hex.ne_sceneKey _ _ _)),
    if_neg (Ne.symm (hex.ne_pathKey _))]

/-- Reading a path after the batch of a record. -/
theorem get_saveBatch_path {record : MetaFile} (hex : IsHexMd5 record.md5) (path : Bytes) :
    (db.write (MetadataStore.saveBatch codec record) true).get (pathKey path) =
      if record.path = path then some record.md5 else db.get (pathKey path) := by
  rw [get_saveBatch, if_neg (pathKey_ne_sceneKey _ _ _ _).symm]
  by_cases same : record.path = path
  · rw [if_pos same, if_pos (congrArg pathKey same)]
  · rw [if_neg same, if_neg fun keys => same (pathKey_injective keys), if_neg (hex.ne_pathKey path)]

/-- Reading a path after the batch that deletes a record. -/
theorem get_deleteBatch_path {md5 : Bytes} (hex : IsHexMd5 md5) (record : MetaFile)
    (path : Bytes) :
    (db.write (MetadataStore.deleteBatch md5 record) true).get (pathKey path) =
      if record.path = path then none else db.get (pathKey path) := by
  rw [get_deleteBatch, if_neg (pathKey_ne_sceneKey _ _ _ _).symm]
  by_cases same : record.path = path
  · rw [if_pos same, if_pos (congrArg pathKey same)]
  · rw [if_neg same, if_neg fun keys => same (pathKey_injective keys), if_neg (hex.ne_pathKey path)]

namespace MetadataStore

variable {store : MetadataStore} {record : MetaFile}

/-- A record whose MD5 is taken is not saved. -/
theorem saveMeta_of_get {text : Bytes} (stored : store.db.get record.md5 = some text)
    (written : Bool) : (store.saveMeta codec record written).2 = store := by
  have present : store.db.contains record.md5 = true := by
    rw [OrderedMap.contains, stored]
    rfl
  rw [saveMeta, present, if_pos rfl]

/-- A new record is saved when its batch is written. -/
theorem saveMeta_of_fresh (fresh : store.db.get record.md5 = none) (ok : Bool) :
    (store.saveMeta codec record ok).1 = ok ∧
      (ok = true → (store.saveMeta codec record ok).2.db =
        store.db.write (saveBatch codec record) true) := by
  unfold saveMeta commitMeta
  rw [OrderedMap.contains, fresh]
  cases ok with
  | false => exact ⟨rfl, fun impossible => (Bool.false_ne_true impossible).elim⟩
  | true => exact ⟨rfl, fun _ => rfl⟩

/-- `save_meta` leaves the database as it is, or writes the batch of a new record. -/
theorem db_saveMeta (store : MetadataStore) (record : MetaFile) (ok : Bool) :
    (store.saveMeta codec record ok).2.db = store.db ∨ store.db.get record.md5 = none ∧
      (store.saveMeta codec record ok).2.db = store.db.write (saveBatch codec record) true := by
  cases stored : store.db.get record.md5 with
  | some text => exact .inl (by rw [saveMeta_of_get stored])
  | none =>
      cases ok with
      | true => exact .inr ⟨rfl, (saveMeta_of_fresh stored true).2 rfl⟩
      | false =>
          left
          unfold saveMeta commitMeta
          rw [OrderedMap.contains, stored]
          rfl

end MetadataStore

/-- Under MD5s a deleting batch removes the record only. -/
theorem get_deleteBatch_of_isHexMd5 (md5 : Bytes) (record : MetaFile) {key : Bytes}
    (hex : IsHexMd5 key) :
    (db.write (MetadataStore.deleteBatch md5 record) true).get key =
      if md5 = key then none else db.get key := by
  rw [get_deleteBatch, if_neg (Ne.symm (hex.ne_sceneKey _ _ _)),
    if_neg (Ne.symm (hex.ne_pathKey _))]

/-- Saving a well-formed record leaves the database readable. -/
theorem Readable.saveBatch (readable : Readable codec db) {record : MetaFile}
    (wellFormed : record.WellFormed) :
    Readable codec (db.write (MetadataStore.saveBatch codec record) true) := by
  intro md5 text hex present
  rw [get_saveBatch_of_isHexMd5 record hex] at present
  split at present
  · rename_i same
    cases present
    exact ⟨record.asStored, .of_isUtf8 wellFormed.2, same⟩
  · exact readable md5 text hex present

/-- Deleting leaves the database readable. -/
theorem Readable.deleteBatch (readable : Readable codec db) (md5 : Bytes) (record : MetaFile) :
    Readable codec (db.write (MetadataStore.deleteBatch md5 record) true) := by
  intro other text hex present
  rw [get_deleteBatch_of_isHexMd5 md5 record hex] at present
  split at present
  · cases present
  · exact readable other text hex present

/-- An entry under an MD5 has to be the stored form of a record with that MD5; other keys
are free. -/
theorem Readable.put (readable : Readable codec db) {key text : Bytes}
    (stored : IsHexMd5 key → ∃ record, StoredAs codec text record ∧ record.md5 = key) :
    Readable codec (db.put key text) := by
  intro md5 found hex present
  rw [OrderedMap.get_put] at present
  split at present
  · rename_i same
    subst same
    cases present
    exact stored hex
  · exact readable md5 found hex present

/-- A saved batch puts the record into the catalog. -/
theorem catalog_saveBatch {record : MetaFile} (wellFormed : record.WellFormed) :
    catalog codec (db.write (MetadataStore.saveBatch codec record) true) =
      (catalog codec db).put record.md5 record.asStored := by
  apply OrderedMap.ext_get
  intro key
  rw [OrderedMap.get_put, catalog_get, catalog_get]
  by_cases hex : IsHexMd5 key
  · rw [if_pos hex, if_pos hex, get_saveBatch_of_isHexMd5 record hex]
    split
    · rw [Option.bind_some, deserialize_serialize codec wellFormed.2]
    · rfl
  · rw [if_neg hex, if_neg hex, if_neg fun same : record.md5 = key => hex (same ▸ wellFormed.1)]

/-- A deleting batch takes the record out of the catalog. -/
theorem catalog_deleteBatch (md5 : Bytes) (record : MetaFile) :
    catalog codec (db.write (MetadataStore.deleteBatch md5 record) true) =
      (catalog codec db).erase md5 := by
  apply OrderedMap.ext_get
  intro key
  rw [OrderedMap.get_erase, catalog_get, catalog_get]
  by_cases hex : IsHexMd5 key
  · rw [if_pos hex, if_pos hex, get_deleteBatch_of_isHexMd5 md5 record hex]
    split <;> rfl
  · simp only [hex, ↓reduceIte, ite_self]

/-- An entry under an MD5 puts a record into the catalog. -/
theorem catalog_put_record {key text : Bytes} {record : MetaFile} (hex : IsHexMd5 key)
    (stored : StoredAs codec text record) :
    catalog codec (db.put key text) = (catalog codec db).put key record := by
  apply OrderedMap.ext_get
  intro other
  rw [OrderedMap.get_put, catalog_get, catalog_get, OrderedMap.get_put]
  by_cases same : key = other
  · subst same
    rw [if_pos hex, if_pos rfl, if_pos rfl, Option.bind_some, stored.deserialize_eq]
  · rw [if_neg same, if_neg same]

/-- An entry under another key leaves the catalog as it is. -/
theorem catalog_put_other {key text : Bytes} (other : ¬ IsHexMd5 key) :
    catalog codec (db.put key text) = catalog codec db := by
  apply OrderedMap.ext_get
  intro found
  rw [catalog_get, catalog_get, OrderedMap.get_put]
  by_cases hex : IsHexMd5 found
  · rw [if_neg fun same : key = found => other (same ▸ hex)]
  · rw [if_neg hex, if_neg hex]

end Writes

namespace MetadataStore

variable {store : MetadataStore}

/-- `delete_meta` keeps the database readable, whether it is written or not. -/
theorem readable_deleteMeta (readable : Readable codec store.db) (md5 : Bytes) (ok : Bool) :
    Readable codec (store.deleteMeta codec md5 ok).2.db := by
  unfold deleteMeta
  split
  · exact readable
  · split
    · exact readable.deleteBatch md5 _
    · exact readable

/-- `save_meta` keeps the database readable, whether it is written or not. -/
theorem readable_saveMeta (readable : Readable codec store.db) {record : MetaFile}
    (wellFormed : record.WellFormed) (ok : Bool) :
    Readable codec (store.saveMeta codec record ok).2.db := by
  unfold saveMeta commitMeta
  split
  · exact readable
  · split
    · exact readable.saveBatch wellFormed
    · exact readable

/-- One call keeps every record readable. -/
theorem readable_step (readable : Readable codec store.db) {op : MetaOp}
    (wellFormed : op.WellFormed) : Readable codec (store.step codec op).db := by
  cases op with
  | saveMeta record ok => exact readable_saveMeta readable wellFormed ok
  | updateStatus md5 status ok =>
      simp only [step, updateStatus]
      split
      · exact readable
      · rename_i text present
        obtain ⟨record, stored, named⟩ := readable md5 text wellFormed present
        simp only [stored.deserialize_eq]
        cases ok with
        | false => exact readable
        | true => exact readable.put fun _ => ⟨_, stored.setStatus status, named⟩
  | updateMeta record deleteOk saveOk =>
      exact readable_saveMeta (readable_deleteMeta readable record.md5 deleteOk) wellFormed saveOk
  | deleteMeta md5 ok => exact readable_deleteMeta readable md5 ok
  | saveMetaShard shardIndex fileMd5 shardMd5 ok =>
      cases ok with
      | false => exact readable
      | true => exact readable.put fun hex => (hex.ne_shardKey fileMd5 shardIndex rfl).elim
  | repairStat => exact readable
  | reopen => exact readable

/-- `delete_meta` on the catalog. -/
theorem catalog_deleteMeta {md5 : Bytes} (hex : IsHexMd5 md5)
    (ok : Bool) :
    catalog codec (store.deleteMeta codec md5 ok).2.db =
      if ok then (catalog codec store.db).erase md5 else catalog codec store.db := by
  have found : (store.db.get md5).bind (deserialize codec) = (catalog codec store.db).get md5 := by
    rw [catalog_get, if_pos hex]
  unfold deleteMeta
  rw [found]
  cases present : (catalog codec store.db).get md5 with
  | none =>
      rw [OrderedMap.erase_of_get_none present, ite_self]
  | some record =>
      cases ok with
      | false => rfl
      | true => exact catalog_deleteBatch md5 record

/-- `save_meta` on the catalog: a record that is there already stays. -/
theorem catalog_saveMeta (readable : Readable codec store.db) {record : MetaFile}
    (wellFormed : record.WellFormed) (ok : Bool) :
    catalog codec (store.saveMeta codec record ok).2.db =
      if ok then Catalog.insertNew (catalog codec store.db) record.asStored
      else catalog codec store.db := by
  have taken : (catalog codec store.db).contains record.asStored.md5 =
      store.db.contains record.md5 := readable.catalog_contains wellFormed.1
  unfold saveMeta Catalog.insertNew
  rw [taken]
  cases store.db.contains record.md5 with
  | true => simp only [↓reduceIte, ite_self]
  | false =>
      cases ok with
      | false => rfl
      | true => exact catalog_saveBatch wellFormed

/-- The store refines the catalog: one call has the catalog's effect. -/
theorem catalog_step (readable : Readable codec store.db) {op : MetaOp}
    (wellFormed : op.WellFormed) :
    catalog codec (store.step codec op).db = Catalog.step (catalog codec store.db) op := by
  cases op with
  | saveMeta record ok => exact catalog_saveMeta readable wellFormed ok
  | updateStatus md5 status ok =>
      have hex : IsHexMd5 md5 := wellFormed
      simp only [step, updateStatus, Catalog.step, Catalog.setStatus]
      cases present : store.db.get md5 with
      | none =>
          rw [(readable.catalog_get_eq_none hex).mpr present]
          simp only [ite_self]
      | some text =>
          obtain ⟨record, stored, named⟩ := readable md5 text hex present
          rw [(readable.catalog_get_eq_some hex).mpr ⟨text, present, stored, named⟩]
          simp only [stored.deserialize_eq]
          cases ok with
          | false => rfl
          | true => exact catalog_put_record hex (stored.setStatus status)
  | updateMeta record deleteOk saveOk =>
      have kept := readable_deleteMeta readable record.md5 deleteOk
      have saved := catalog_saveMeta kept wellFormed saveOk
      rw [catalog_deleteMeta wellFormed.1 deleteOk] at saved
      exact saved
  | deleteMeta md5 ok => exact catalog_deleteMeta wellFormed ok
  | saveMetaShard shardIndex fileMd5 shardMd5 ok =>
      cases ok with
      | false => rfl
      | true => exact catalog_put_other fun hex => hex.ne_shardKey fileMd5 shardIndex rfl
  | repairStat => rfl
  | reopen => rfl

/-- A run of calls has the effect of its calls on the catalog. -/
theorem catalog_run (readable : Readable codec store.db) {ops : List MetaOp}
    (wellFormed : ∀ op ∈ ops, op.WellFormed) :
    catalog codec (run (step codec) store ops).db =
      ops.foldl Catalog.step (catalog codec store.db) := by
  induction ops generalizing store with
  | nil => rfl
  | cons op ops ih =>
      have first := wellFormed op (List.mem_cons_self ..)
      have rest := ih (readable_step readable first) fun other member =>
        wellFormed other (List.mem_cons_of_mem _ member)
      rw [catalog_step readable first] at rest
      exact rest

/-- **What a call can write.** A predicate of the database is kept by every call when it
is kept by the batch of a new record, by the batch that deletes a stored record, by a
stored record rewritten in another state, and by the marker the call writes. -/
theorem invariant_step {predicate : LevelDB → Prop} {op : MetaOp}
    (saved : ∀ db record, Readable codec db → predicate db → record.WellFormed →
      (catalog codec db).get record.md5 = none → predicate (db.write (saveBatch codec record) true))
    (deleted : ∀ db md5 record, predicate db → (catalog codec db).get md5 = some record →
      predicate (db.write (deleteBatch md5 record) true))
    (updated : ∀ db md5 record status, predicate db → (catalog codec db).get md5 = some record →
      record.md5 = md5 → StoredAs codec (serialize codec { record with status })
        { record with status } → predicate (db.put md5 (serialize codec { record with status })))
    (marked : ∀ shardIndex fileMd5 shardMd5, op = .saveMetaShard shardIndex fileMd5 shardMd5 true →
      predicate (store.db.put (shardKey fileMd5 shardIndex)
        (if shardMd5.isEmpty then bytes "1" else shardMd5)))
    (readable : Readable codec store.db) (wellFormed : op.WellFormed)
    (holds : predicate store.db) : predicate (store.step codec op).db := by
  have save {store : MetadataStore} (readable : Readable codec store.db)
      (holds : predicate store.db) {record : MetaFile} (wellFormed : record.WellFormed)
      (ok : Bool) : predicate (store.saveMeta codec record ok).2.db := by
    unfold saveMeta commitMeta
    split
    · exact holds
    · rename_i absent
      have fresh : (catalog codec store.db).get record.md5 = none := by
        rw [readable.catalog_get_eq_none wellFormed.1]
        simpa only [OrderedMap.contains, Option.isSome_iff_ne_none, ne_eq, not_not] using absent
      split
      · exact saved store.db record readable holds wellFormed fresh
      · exact holds
  have delete {md5 : Bytes} (hex : IsHexMd5 md5) (ok : Bool) :
      predicate (store.deleteMeta codec md5 ok).2.db := by
    unfold deleteMeta
    split
    · exact holds
    · rename_i record found
      split
      · exact deleted store.db md5 record holds (by rw [catalog_get, if_pos hex, found])
      · exact holds
  cases op with
  | saveMeta record ok => exact save readable holds wellFormed ok
  | updateStatus md5 status ok =>
      have hex : IsHexMd5 md5 := wellFormed
      simp only [step, updateStatus]
      split
      · exact holds
      · rename_i text present
        obtain ⟨record, stored, named⟩ := readable md5 text hex present
        simp only [stored.deserialize_eq]
        cases ok with
        | false => exact holds
        | true =>
            exact updated store.db md5 record status holds ((readable.catalog_get_eq_some hex).mpr
              ⟨text, present, stored, named⟩) named (stored.setStatus status)
  | updateMeta record deleteOk saveOk =>
      exact save (readable_deleteMeta readable record.md5 deleteOk) (delete wellFormed.1 deleteOk)
        wellFormed saveOk
  | deleteMeta md5 ok => exact delete wellFormed ok
  | saveMetaShard shardIndex fileMd5 shardMd5 ok =>
      cases ok with
      | false => exact holds
      | true => exact marked shardIndex fileMd5 shardMd5 rfl
  | repairStat => exact holds
  | reopen => exact holds

end MetadataStore

theorem readable_empty : Readable codec OrderedMap.empty := by
  intro md5 text _ present
  cases present

end Cdfs
