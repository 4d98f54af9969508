import Cdfs.Meta.Catalog
import Cdfs.Basis.JsonText
import Cdfs.Basis.SecondaryIndex

/-! # The path and scene indexes are exact

In every state reached by calls on the store, each record has its entry in the
path index and in the scene index, and the two indexes hold nothing else
(`Cdfs.MetadataStore.indexExact_of_reachable`). Records are saved under paths that
no other stored record uses; otherwise the path index cannot name both.
Both are indexes of the catalog (`Cdfs.pathIndex`, `Cdfs.sceneIndex`), and each write
changes them as the rules of `Basis.IndexKeys` ask.
-/

namespace Cdfs

open Basis

variable (codec : JsonCodec)

/-- The scene index of a database is exactly that of its records. -/
structure SceneExact (db : LevelDB) : Prop where
  /-- Every entry under an MD5 is a readable record carrying that MD5. -/
  readable : Readable codec db
  /-- Every record has its scene entry. -/
  scene_of_record : ∀ md5 record, (catalog codec db).get md5 = some record →
    db.get (sceneKey record.scene record.mtime md5) = some md5
  /-- Every scene entry is the one of a record. -/
  record_of_scene : ∀ key md5, bytes "SCENE:" <+: key → db.get key = some md5 →
    ∃ record, (catalog codec db).get md5 = some record ∧
      key = sceneKey record.scene record.mtime md5

/-- The indexes of a database are exactly those of its records. -/
structure IndexExact (db : LevelDB) : Prop extends SceneExact codec db where
  /-- Every record has its path entry. -/
  path_of_record : ∀ md5 record, (catalog codec db).get md5 = some record →
    db.get (pathKey record.path) = some md5
  /-- Every path entry is the one of a record. -/
  record_of_path : ∀ key md5, bytes "PATH:" <+: key → db.get key = some md5 →
    ∃ record, (catalog codec db).get md5 = some record ∧ key = pathKey record.path

/-- No other stored record uses the path of a record. -/
def PathFree (catalog : Catalog) (record : MetaFile) : Prop :=
  ∀ md5 other, catalog.get md5 = some other → md5 ≠ record.md5 → other.path ≠ record.path

/-- If saving the record writes it, its path is free. -/
def SavePermitted (store : MetadataStore) (record : MetaFile) : Prop :=
  store.db.get record.md5 = none → PathFree (catalog codec store.db) record

/-- The calls under which the indexes are kept: well-formed arguments, and no
record saved under the path of another. -/
def IndexOp (store : MetadataStore) (op : MetaOp) : Prop :=
  op.WellFormed ∧ match op with
    | .saveMeta record _ => SavePermitted codec store record
    | .updateMeta record deleteOk _ =>
        SavePermitted codec (store.deleteMeta codec record.md5 deleteOk).2 record
    | _ => True

variable {codec} {db : LevelDB}

/-- The empty database has an exact scene index. -/
theorem sceneExact_empty : SceneExact codec OrderedMap.empty where
  readable := readable_empty
  scene_of_record := fun _ _ stored => nomatch stored
  record_of_scene := fun _ _ _ present => nomatch present

/-- The empty database has exact indices. -/
theorem indexExact_empty : IndexExact codec OrderedMap.empty where
  toSceneExact := sceneExact_empty
  path_of_record := fun _ _ stored => nomatch stored
  record_of_path := fun _ _ _ present => nomatch present

/-- The keys of the path index. -/
def pathIndex : IndexKeys Bytes MetaFile Bytes where
  keyOf := fun _ record => pathKey record.path
  isKey := fun key => bytes "PATH:" <+: key
  isKey_keyOf := fun _ _ => List.prefix_append _ _

/-- The keys of the scene index. -/
def sceneIndex : IndexKeys Bytes MetaFile Bytes where
  keyOf := fun md5 record => sceneKey record.scene record.mtime md5
  isKey := fun key => bytes "SCENE:" <+: key
  isKey_keyOf := fun _ _ => List.prefix_append _ _

/-- Every record is listed under its scene. -/
theorem SceneExact.listed (indexed : SceneExact codec db) :
    sceneIndex.Listed (catalog codec db) db.get := indexed.scene_of_record

/-- Every entry of a scene belongs to a record. -/
theorem SceneExact.owned (indexed : SceneExact codec db) :
    sceneIndex.Owned (catalog codec db) db.get := indexed.record_of_scene

/-- Every record is listed under its path. -/
theorem IndexExact.listed (indexed : IndexExact codec db) :
    pathIndex.Listed (catalog codec db) db.get := indexed.path_of_record

/-- Every entry of a path belongs to a record. -/
theorem IndexExact.owned (indexed : IndexExact codec db) :
    pathIndex.Owned (catalog codec db) db.get := indexed.record_of_path

/-- A key of the scene index starts with its first letter. -/
theorem exists_cons_of_sceneIndex {key : Bytes} (isKey : sceneIndex.isKey key) :
    ∃ rest, key = 83 :: 67 :: rest := by
  obtain ⟨rest, rfl⟩ := isKey
  exact ⟨_, rfl⟩

/-- A key of the scene index is none of a path. -/
theorem ne_pathKey_of_sceneIndex {key : Bytes} (isKey : sceneIndex.isKey key) (path : Bytes) :
    pathKey path ≠ key := by
  obtain ⟨rest, rfl⟩ := exists_cons_of_sceneIndex isKey
  exact fun same => (by decide : (80 : UInt8) ≠ 83) (List.cons.inj same).1

/-- The batch of a record writes its entry in the scene index. -/
theorem sceneIndex_saveBatch {record : MetaFile} (hex : IsHexMd5 record.md5) :
    sceneIndex.SetAt db.get (db.write (MetadataStore.saveBatch codec record) true).get
      (sceneIndex.keyOf record.md5 record.asStored) (some record.md5) where
  self := by
    rw [get_saveBatch]
    exact if_pos rfl
  others := fun key isKey different => by
    obtain ⟨rest, named⟩ := exists_cons_of_sceneIndex isKey
    have record_ne : record.md5 ≠ key := named ▸ hex.ne_cons 83 (by decide)
    rw [get_saveBatch, if_neg (ne_pathKey_of_sceneIndex isKey _), if_neg record_ne]
    exact if_neg (Ne.symm different)

/-- The batch of a record writes its entry in the path index. -/
theorem pathIndex_saveBatch {record : MetaFile} (hex : IsHexMd5 record.md5) :
    pathIndex.SetAt db.get (db.write (MetadataStore.saveBatch codec record) true).get
      (pathIndex.keyOf record.md5 record.asStored) (some record.md5) where
  self := (get_saveBatch_path hex _).trans (if_pos rfl)
  others := by
    rintro key ⟨path, rfl⟩ different
    exact (get_saveBatch_path hex path).trans
      (if_neg fun same : record.path = path => different (congrArg pathKey same.symm))

/-- The batch that deletes a record removes its entry from the scene index. -/
theorem sceneIndex_deleteBatch {md5 : Bytes} (hex : IsHexMd5 md5) (record : MetaFile) :
    sceneIndex.SetAt db.get (db.write (MetadataStore.deleteBatch md5 record) true).get
      (sceneIndex.keyOf md5 record) none where
  self := by
    rw [get_deleteBatch]
    exact if_pos rfl
  others := fun key isKey different => by
    obtain ⟨rest, named⟩ := exists_cons_of_sceneIndex isKey
    have record_ne : md5 ≠ key := named ▸ hex.ne_cons 83 (by decide)
    rw [get_deleteBatch, if_neg (ne_pathKey_of_sceneIndex isKey _), if_neg record_ne]
    exact if_neg (Ne.symm different)

/-- The batch that deletes a record removes its entry from the path index. -/
theorem pathIndex_deleteBatch {md5 : Bytes} (hex : IsHexMd5 md5) (record : MetaFile) :
    pathIndex.SetAt db.get (db.write (MetadataStore.deleteBatch md5 record) true).get
      (pathIndex.keyOf md5 record) none where
  self := (get_deleteBatch_path hex record _).trans (if_pos rfl)
  others := by
    rintro key ⟨path, rfl⟩ different
    exact (get_deleteBatch_path hex record path).trans
      (if_neg fun same : record.path = path => different (congrArg pathKey same.symm))

/-- Rewriting a record leaves the scene index as it is. -/
theorem sceneIndex_putRecord {md5 : Bytes} (hex : IsHexMd5 md5) (text : Bytes) :
    sceneIndex.Same db.get (db.put md5 text).get := by
  intro key isKey
  obtain ⟨rest, rfl⟩ := exists_cons_of_sceneIndex isKey
  exact OrderedMap.get_put_of_ne _ _ (hex.ne_cons 83 (by decide))

/-- Rewriting a record leaves the path index as it is. -/
theorem pathIndex_putRecord {md5 : Bytes} (hex : IsHexMd5 md5) (text : Bytes) :
    pathIndex.Same db.get (db.put md5 text).get := by
  rintro key ⟨path, rfl⟩
  exact OrderedMap.get_put_of_ne _ _ (hex.ne_pathKey path)

/-- A shard marker leaves the scene index as it is. -/
theorem sceneIndex_putShard (fileMd5 : Bytes) (shardIndex : UInt32) (value : Bytes) :
    sceneIndex.Same db.get (db.put (shardKey fileMd5 shardIndex) value).get := by
  intro key isKey
  obtain ⟨rest, rfl⟩ := exists_cons_of_sceneIndex isKey
  exact OrderedMap.get_put_of_ne _ _ fun same => (by decide : (104 : UInt8) ≠ 67)
    (List.cons.inj (List.cons.inj same).2).1

/-- A shard marker leaves the path index as it is. -/
theorem pathIndex_putShard (fileMd5 : Bytes) (shardIndex : UInt32) (value : Bytes) :
    pathIndex.Same db.get (db.put (shardKey fileMd5 shardIndex) value).get := by
  rintro key ⟨path, rfl⟩
  exact OrderedMap.get_put_of_ne _ _ (pathKey_ne_shardKey path fileMd5 shardIndex).symm

/-- Writing a new record keeps the scene index exact, whatever its path: a scene key
ends with the MD5 of its record, so no two records share one. -/
theorem SceneExact.saveBatch (indexed : SceneExact codec db) {record : MetaFile}
    (wellFormed : record.WellFormed) (fresh : db.get record.md5 = none) :
    SceneExact codec (db.write (MetadataStore.saveBatch codec record) true) := by
  have hex := wellFormed.1
  have absent := (indexed.readable.catalog_get_eq_none hex).mpr fresh
  refine ⟨indexed.readable.saveBatch wellFormed, ?_, ?_⟩
  · rw [catalog_saveBatch wellFormed]
    exact indexed.listed.put (sceneIndex_saveBatch hex) fun md5 _ stored different same =>
      different (sceneKey_md5 (isHexMd5_of_catalog_get stored) hex same)
  · rw [catalog_saveBatch wellFormed]
    exact indexed.owned.put (sceneIndex_saveBatch hex) absent

/-- Writing a new record under a free path keeps the indexes exact. -/
theorem IndexExact.saveBatch (indexed : IndexExact codec db) {record : MetaFile}
    (wellFormed : record.WellFormed) (fresh : db.get record.md5 = none)
    (free : PathFree (catalog codec db) record) :
    IndexExact codec (db.write (MetadataStore.saveBatch codec record) true) := by
  have hex := wellFormed.1
  have absent := (indexed.readable.catalog_get_eq_none hex).mpr fresh
  refine ⟨indexed.toSceneExact.saveBatch wellFormed fresh, ?_, ?_⟩
  · rw [catalog_saveBatch wellFormed]
    exact indexed.listed.put (pathIndex_saveBatch hex) fun md5 other stored different same =>
      free md5 other stored different (pathKey_injective same)
  · rw [catalog_saveBatch wellFormed]
    exact indexed.owned.put (pathIndex_saveBatch hex) absent

/-- Deleting a stored record removes exactly its scene entry. -/
theorem SceneExact.deleteBatch (indexed : SceneExact codec db) {md5 : Bytes} {record : MetaFile}
    (present : (catalog codec db).get md5 = some record) :
    SceneExact codec (db.write (MetadataStore.deleteBatch md5 record) true) := by
  have hex := isHexMd5_of_catalog_get present
  refine ⟨indexed.readable.deleteBatch md5 record, ?_, ?_⟩
  · rw [catalog_deleteBatch]
    exact indexed.listed.erase present (sceneIndex_deleteBatch hex record)
  · rw [catalog_deleteBatch]
    exact indexed.owned.erase present (sceneIndex_deleteBatch hex record)

/-- Deleting a stored record removes exactly its index entries. -/
theorem IndexExact.deleteBatch (indexed : IndexExact codec db) {md5 : Bytes} {record : MetaFile}
    (present : (catalog codec db).get md5 = some record) :
    IndexExact codec (db.write (MetadataStore.deleteBatch md5 record) true) := by
  have hex := isHexMd5_of_catalog_get present
  refine ⟨indexed.toSceneExact.deleteBatch present, ?_, ?_⟩
  · rw [catalog_deleteBatch]
    exact indexed.listed.erase present (pathIndex_deleteBatch hex record)
  · rw [catalog_deleteBatch]
    exact indexed.owned.erase present (pathIndex_deleteBatch hex record)

/-- Rewriting a stored record with the same scene and time keeps the scene index
exact. -/
theorem SceneExact.putRecord (indexed : SceneExact codec db) {md5 text : Bytes}
    {record changed : MetaFile} (present : (catalog codec db).get md5 = some record)
    (stored : StoredAs codec text changed) (named : changed.md5 = md5)
    (scene : changed.scene = record.scene) (mtime : changed.mtime = record.mtime) :
    SceneExact codec (db.put md5 text) := by
  have hex := isHexMd5_of_catalog_get present
  have keyed : sceneIndex.keyOf md5 changed = sceneIndex.keyOf md5 record :=
    congrArg₂ (fun scene mtime => sceneKey scene mtime md5) scene mtime
  refine ⟨indexed.readable.put fun _ => ⟨changed, stored, named⟩, ?_, ?_⟩
  · rw [catalog_put_record hex stored]
    exact indexed.listed.rewrite present keyed (sceneIndex_putRecord hex text)
  · rw [catalog_put_record hex stored]
    exact indexed.owned.rewrite present keyed (sceneIndex_putRecord hex text)

/-- Rewriting a stored record with the same path, scene and time keeps the
indexes exact. -/
theorem IndexExact.putRecord (indexed : IndexExact codec db) {md5 text : Bytes}
    {record changed : MetaFile} (present : (catalog codec db).get md5 = some record)
    (stored : StoredAs codec text changed) (named : changed.md5 = md5)
    (path : changed.path = record.path) (scene : changed.scene = record.scene)
    (mtime : changed.mtime = record.mtime) : IndexExact codec (db.put md5 text) := by
  have hex := isHexMd5_of_catalog_get present
  have keyed : pathIndex.keyOf md5 changed = pathIndex.keyOf md5 record := congrArg pathKey path
  refine ⟨indexed.toSceneExact.putRecord present stored named scene mtime, ?_, ?_⟩
  · rw [catalog_put_record hex stored]
    exact indexed.listed.rewrite present keyed (pathIndex_putRecord hex text)
  · rw [catalog_put_record hex stored]
    exact indexed.owned.rewrite present keyed (pathIndex_putRecord hex text)

theorem not_isHexMd5_shardKey (fileMd5 : Bytes) (shardIndex : UInt32) :
    ¬ IsHexMd5 (shardKey fileMd5 shardIndex) :=
  fun hex => hex.ne_shardKey fileMd5 shardIndex rfl

/-- A shard marker does not matter to the scene index. -/
theorem SceneExact.putShard (indexed : SceneExact codec db) (fileMd5 : Bytes) (shardIndex : UInt32)
    (value : Bytes) : SceneExact codec (db.put (shardKey fileMd5 shardIndex) value) := by
  have foreign := not_isHexMd5_shardKey fileMd5 shardIndex
  refine ⟨indexed.readable.put fun hex => (foreign hex).elim, ?_, ?_⟩
  · rw [catalog_put_other foreign]
    exact indexed.listed.congr (sceneIndex_putShard fileMd5 shardIndex value)
  · rw [catalog_put_other foreign]
    exact indexed.owned.congr (sceneIndex_putShard fileMd5 shardIndex value)

/-- A key outside the record and index families does not matter. -/
theorem IndexExact.putShard (indexed : IndexExact codec db) (fileMd5 : Bytes) (shardIndex : UInt32)
    (value : Bytes) : IndexExact codec (db.put (shardKey fileMd5 shardIndex) value) := by
  have foreign := not_isHexMd5_shardKey fileMd5 shardIndex
  refine ⟨indexed.toSceneExact.putShard fileMd5 shardIndex value, ?_, ?_⟩
  · rw [catalog_put_other foreign]
    exact indexed.listed.congr (pathIndex_putShard fileMd5 shardIndex value)
  · rw [catalog_put_other foreign]
    exact indexed.owned.congr (pathIndex_putShard fileMd5 shardIndex value)

namespace MetadataStore

variable {store : MetadataStore}

/-- `save_meta` keeps the scene index exact. -/
theorem sceneExact_saveMeta (indexed : SceneExact codec store.db) {record : MetaFile}
    (wellFormed : record.WellFormed) (ok : Bool) :
    SceneExact codec (store.saveMeta codec record ok).2.db := by
  unfold saveMeta commitMeta
  split
  · exact indexed
  · rename_i absent
    split
    · exact indexed.saveBatch wellFormed
        (by simpa only [OrderedMap.contains, Option.isSome_iff_ne_none, ne_eq, not_not] using absent)
    · exact indexed

/-- One call keeps the scene index exact, also when a record is saved under the path
of another. -/
theorem sceneExact_step (indexed : SceneExact codec store.db) {op : MetaOp}
    (wellFormed : op.WellFormed) : SceneExact codec (store.step codec op).db := by
  refine invariant_step ?_ ?_ ?_ ?_ indexed.readable wellFormed indexed
  · intro db record readable indexed wellFormed fresh
    exact indexed.saveBatch wellFormed ((readable.catalog_get_eq_none wellFormed.1).mp fresh)
  · exact fun _ _ _ indexed present => indexed.deleteBatch present
  · exact fun _ _ _ _ indexed present named stored =>
      indexed.putRecord present stored named rfl rfl
  · exact fun shardIndex fileMd5 _ _ => indexed.putShard fileMd5 shardIndex _

/-- `delete_meta` keeps the indices exact. -/
theorem indexExact_deleteMeta (indexed : IndexExact codec store.db) {md5 : Bytes}
    (hex : IsHexMd5 md5) (ok : Bool) : IndexExact codec (store.deleteMeta codec md5 ok).2.db := by
  unfold deleteMeta
  split
  · exact indexed
  · rename_i record found
    split
    · exact indexed.deleteBatch (by rw [catalog_get, if_pos hex, found])
    · exact indexed

/-- `save_meta` keeps the indices exact, unless another record has the path. -/
theorem indexExact_saveMeta (indexed : IndexExact codec store.db) {record : MetaFile}
    (wellFormed : record.WellFormed) (permitted : SavePermitted codec store record) (ok : Bool) :
    IndexExact codec (store.saveMeta codec record ok).2.db := by
  unfold saveMeta commitMeta
  split
  · exact indexed
  · rename_i absent
    have fresh : store.db.get record.md5 = none := by
      simpa only [OrderedMap.contains, Option.isSome_iff_ne_none, ne_eq, not_not] using absent
    split
    · exact indexed.saveBatch wellFormed fresh (permitted fresh)
    · exact indexed

/-- One permitted call keeps the indexes exact. -/
theorem indexExact_step (indexed : IndexExact codec store.db) {op : MetaOp}
    (permitted : IndexOp codec store op) : IndexExact codec (store.step codec op).db := by
  obtain ⟨wellFormed, permitted⟩ := permitted
  cases op with
  | saveMeta record ok => exact indexExact_saveMeta indexed wellFormed permitted ok
  | updateStatus md5 status ok =>
      have hex : IsHexMd5 md5 := wellFormed
      simp only [step, updateStatus]
      split
      · exact indexed
      · rename_i text present
        obtain ⟨record, stored, named⟩ := indexed.readable md5 text hex present
        simp only [stored.deserialize_eq]
        cases ok with
        | false => exact indexed
        | true =>
            exact indexed.putRecord
              ((indexed.readable.catalog_get_eq_some hex).mpr ⟨text, present, stored, named⟩)
              (stored.setStatus status) named rfl rfl rfl
  | updateMeta record deleteOk saveOk =>
      exact indexExact_saveMeta (indexExact_deleteMeta indexed wellFormed.1 deleteOk) wellFormed
        permitted saveOk
  | deleteMeta md5 ok => exact indexExact_deleteMeta indexed wellFormed ok
  | saveMetaShard shardIndex fileMd5 shardMd5 ok =>
      cases ok with
      | false => exact indexed
      | true => exact indexed.putShard fileMd5 shardIndex _
  | repairStat => exact indexed
  | reopen => exact indexed

/-- **The indexes are exact in every reachable state.** Whatever the sequence of
calls and whichever of their writes fail, every record is under its own MD5 with
its path and scene entries, and the index families hold no other entry. -/
theorem indexExact_of_reachable
    (reached : Reachable (step codec) (IndexOp codec) (opened OrderedMap.empty) store) :
    IndexExact codec store.db :=
  reached.invariant (fun store => IndexExact codec store.db) indexExact_empty
    fun _ _ indexed permitted => indexExact_step indexed permitted

/-- A run that saves a record, changes its state and notes a shard: the record,
its two index entries and the marker are there, and the indexes are exact. -/
theorem indexExact_of_sampleRun :
    let store := run (step compactCodec) (opened OrderedMap.empty)
      [.saveMeta sampleMeta true, .updateStatus sampleMeta.md5 .deleted true,
       .saveMetaShard 5 sampleMeta.md5 [] true]
    store.db.entries.length = 4 ∧ IndexExact compactCodec store.db := by
  refine ⟨by decide +kernel, indexExact_of_reachable (Reachable.start.run ⟨⟨wellFormed_sampleMeta, ?_⟩,
    ⟨wellFormed_sampleMeta.1, trivial⟩, ⟨trivial, trivial⟩, trivial⟩)⟩
  intro _ md5 other stored
  cases stored

end MetadataStore

end Cdfs
