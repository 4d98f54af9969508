import Cdfs.Basis.Run
import Cdfs.Meta.MetaFile

/-! # The metadata store

The store of `file/MetadataStore.cpp`: one ordered key-value database holding
records under their MD5, an index entry per path, an index entry per scene and
modification time, and markers of received shards, together with the in-memory
statistics. Each function that writes takes the outcome of its database write as
an argument; a failed write leaves the database as it was.
-/

namespace Cdfs

open Basis

/-- An ordered byte-string database. -/
abbrev LevelDB := OrderedMap Bytes Bytes

/-- One entry of a write batch. -/
inductive BatchEntry where
  | put (key value : Bytes)
  | delete (key : Bytes)
  deriving DecidableEq, Repr

/-- Apply one entry of a batch. -/
def BatchEntry.apply (db : LevelDB) : BatchEntry → LevelDB
  | .put key value => db.put key value
  | .delete key => db.erase key

/-- `DB::Write`: all entries of the batch in order, or none of them. -/
def LevelDB.write (db : LevelDB) (batch : List BatchEntry) (ok : Bool) : LevelDB :=
  if ok then batch.foldl BatchEntry.apply db else db

/-- The cached statistics. -/
structure SystemStat where
  fileCount : UInt64 := 0
  totalSize : UInt64 := 0
  deriving DecidableEq, Repr, Inhabited

/-- Settings of the store that the request handlers read. -/
structure MetaConfig where
  peerId : Bytes := bytes "node_01"
  domain : Bytes := bytes "http://192.168.88.131:8080"
  enableTrimFilename : Bool := true

/-- The open store: database and cached statistics. -/
structure MetadataStore where
  db : LevelDB
  cachedStat : SystemStat := {}

/-- A key is taken for an MD5 by its length alone. -/
def isMd5 (key : Bytes) : Bool := key.length == 32

/-- Key of the path index. -/
def pathKey (path : Bytes) : Bytes := bytes "PATH:" ++ path

/-- Key of the scene index. -/
def sceneKey (scene : Bytes) (mtime : Int64) (md5 : Bytes) : Bytes :=
  bytes "SCENE:" ++ (scene ++ (bytes ":" ++ (decimalInt mtime.toInt ++ (bytes ":" ++ md5))))

/-- Key of a received shard. -/
def shardKey (fileMd5 : Bytes) (shardIndex : UInt32) : Bytes :=
  bytes "Shard:" ++ (fileMd5 ++ (bytes ":" ++ decimal shardIndex.toNat))

variable (codec : JsonCodec)

/-- `serialize`: the JSON text of a record, empty when printing throws. -/
def serialize (record : MetaFile) : Bytes := (codec.dump record.toJson).getD []

/-- `deserialize`: none when parsing or a field access throws. -/
def deserialize (text : Bytes) : Option MetaFile := (codec.parse text).bind MetaFile.fromJson

namespace MetadataStore

/-- A store opened on a database: the statistics start at zero. -/
def opened (db : LevelDB) : MetadataStore := { db }

/-- The three entries written for a new record. -/
def saveBatch (record : MetaFile) : List BatchEntry :=
  [.put record.md5 (serialize codec record),
   .put (pathKey record.path) record.md5,
   .put (sceneKey record.scene record.mtime record.md5) record.md5]

/-- The part of `save_meta` under the write lock: the batch and, when it was
written, the counters. -/
def commitMeta (store : MetadataStore) (record : MetaFile) (ok : Bool) : Bool × MetadataStore :=
  if ok then
    (true, { db := store.db.write (saveBatch codec record) true
             cachedStat :=
               { fileCount := store.cachedStat.fileCount + 1
                 totalSize := store.cachedStat.totalSize + record.size.toUInt64 } })
  else (false, store)

/-- `save_meta`: a record whose MD5 is already stored is taken as saved. -/
def saveMeta (store : MetadataStore) (record : MetaFile) (ok : Bool) : Bool × MetadataStore :=
  if store.db.contains record.md5 then (true, store) else store.commitMeta codec record ok

/-- `get_meta`: a key of another length than an MD5 goes through the path index. -/
def getMeta (store : MetadataStore) (key : Bytes) : Option MetaFile :=
  let target := if isMd5 key then some key else store.db.get (pathKey key)
  (target.bind store.db.get).bind (deserialize codec)

/-- `exists`. -/
def exists_ (store : MetadataStore) (key : Bytes) : Bool := (store.getMeta codec key).isSome

/-- `save_meta_shard`. -/
def saveMetaShard (store : MetadataStore) (shardIndex : UInt32) (fileMd5 shardMd5 : Bytes)
    (ok : Bool) : Bool × MetadataStore :=
  let value := if shardMd5.isEmpty then bytes "1" else shardMd5
  (ok, { store with db := store.db.write [.put (shardKey fileMd5 shardIndex) value] ok })

/-- `update_status`; none when reading the stored record throws. -/
def updateStatus (store : MetadataStore) (md5 : Bytes) (status : FileStatus) (ok : Bool) :
    Option Bool × MetadataStore :=
  match store.db.get md5 with
  | none => (some false, store)
  | some text =>
      match deserialize codec text with
      | none => (none, store)
      | some record =>
          (some ok, { store with
            db := store.db.write [.put md5 (serialize codec { record with status })] ok })

/-- The three entries deleted with a record; the keys are rebuilt from the stored
record. -/
def deleteBatch (md5 : Bytes) (record : MetaFile) : List BatchEntry :=
  [.delete md5, .delete (pathKey record.path), .delete (sceneKey record.scene record.mtime md5)]

/-- `delete_meta`. -/
def deleteMeta (store : MetadataStore) (md5 : Bytes) (ok : Bool) : Bool × MetadataStore :=
  match (store.db.get md5).bind (deserialize codec) with
  | none => (false, store)
  | some record =>
      if ok then
        (true, { db := store.db.write (deleteBatch md5 record) true
                 cachedStat :=
                   { fileCount := store.cachedStat.fileCount - 1
                     totalSize := store.cachedStat.totalSize - record.size.toUInt64 } })
      else (false, store)

/-- `update_meta`: a delete whose result is ignored, then a save. -/
def updateMeta (store : MetadataStore) (record : MetaFile) (deleteOk saveOk : Bool) :
    Bool × MetadataStore :=
  (store.deleteMeta codec record.md5 deleteOk).2.saveMeta codec record saveOk

/-- `get_stat`. -/
def getStat (store : MetadataStore) : SystemStat := store.cachedStat

/-- What `repair_stat` adds for one database entry: records in normal state whose
key has the length of an MD5. -/
def repairEntry (stat : SystemStat) (entry : Bytes × Bytes) : SystemStat :=
  match (if isMd5 entry.1 then deserialize codec entry.2 else none) with
  | none => stat
  | some record =>
      if record.status = .normal then
        { fileCount := stat.fileCount + 1, totalSize := stat.totalSize + record.size.toUInt64 }
      else stat

/-- `repair_stat`: recount from a full scan. -/
def repairStat (store : MetadataStore) : MetadataStore :=
  { store with cachedStat := store.db.entries.foldl (repairEntry codec) {} }

/-- Close the store and open it again on the same database. -/
def reopen (store : MetadataStore) : MetadataStore := opened store.db

end MetadataStore

/-- A call on the metadata store with the outcomes of its database writes. -/
inductive MetaOp where
  | saveMeta (record : MetaFile) (ok : Bool)
  | updateStatus (md5 : Bytes) (status : FileStatus) (ok : Bool)
  | updateMeta (record : MetaFile) (deleteOk saveOk : Bool)
  | deleteMeta (md5 : Bytes) (ok : Bool)
  | saveMetaShard (shardIndex : UInt32) (fileMd5 shardMd5 : Bytes) (ok : Bool)
  | repairStat
  | reopen

/-- The store after a call. -/
def MetadataStore.step (store : MetadataStore) : MetaOp → MetadataStore
  | .saveMeta record ok => (store.saveMeta codec record ok).2
  | .updateStatus md5 status ok => (store.updateStatus codec md5 status ok).2
  | .updateMeta record deleteOk saveOk => (store.updateMeta codec record deleteOk saveOk).2
  | .deleteMeta md5 ok => (store.deleteMeta codec md5 ok).2
  | .saveMetaShard shardIndex fileMd5 shardMd5 ok =>
      (store.saveMetaShard shardIndex fileMd5 shardMd5 ok).2
  | .repairStat => store.repairStat codec
  | .reopen => store.reopen

/-- A key of 32 hexadecimal digits. -/
def IsHexMd5 (key : Bytes) : Prop := key.length = 32 ∧ ∀ byte ∈ key, isHexDigit byte = true

instance (key : Bytes) : Decidable (IsHexMd5 key) :=
  inferInstanceAs (Decidable (key.length = 32 ∧ ∀ byte ∈ key, isHexDigit byte = true))

/-- A record as callers give it: a hexadecimal MD5 and UTF-8 strings. -/
def MetaFile.WellFormed (record : MetaFile) : Prop := IsHexMd5 record.md5 ∧ record.IsUtf8

instance (record : MetaFile) : Decidable record.WellFormed :=
  inferInstanceAs (Decidable (IsHexMd5 record.md5 ∧ record.IsUtf8))

/-- The MD5s and records of a call are well formed. -/
def MetaOp.WellFormed : MetaOp → Prop
  | .saveMeta record _ => record.WellFormed
  | .updateStatus md5 _ _ => IsHexMd5 md5
  | .updateMeta record _ _ => record.WellFormed
  | .deleteMeta md5 _ => IsHexMd5 md5
  | _ => True

instance (op : MetaOp) : Decidable op.WellFormed :=
  match op with
  | .saveMeta record _ => inferInstanceAs (Decidable record.WellFormed)
  | .updateStatus md5 _ _ => inferInstanceAs (Decidable (IsHexMd5 md5))
  | .updateMeta record _ _ => inferInstanceAs (Decidable record.WellFormed)
  | .deleteMeta md5 _ => inferInstanceAs (Decidable (IsHexMd5 md5))
  | .saveMetaShard _ _ _ _ | .repairStat | .reopen => .isTrue trivial

/-- The record of the store's own tests. -/
def sampleMeta : MetaFile where
  md5 := bytes "1234567890abcdef1234567890abcdef"
  path := bytes "/group1/test.txt"
  name := []
  scene := bytes "default"
  size := 1024
  mtime := 1680000000

theorem wellFormed_sampleMeta : sampleMeta.WellFormed := by decide +kernel

end Cdfs
