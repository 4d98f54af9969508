import Mathlib.Data.UInt
import Cdfs.Meta.IndexInvariant

/-! # Deleting a record undoes saving it

`save_meta` writes three keys that were not there; status updates rewrite the
first of them; `delete_meta` rebuilds the three keys from the record it reads back.
Whatever happened to the state of the file in between, the database and the
statistics are afterwards what they were before
(`Cdfs.MetadataStore.deleteMeta_saveMeta`).
-/

namespace Cdfs

open Basis

variable (codec : JsonCodec)

/-- Calls of `update_status` for one file, each with its new state and the outcome of
its write. -/
def MetadataStore.updateStatuses (store : MetadataStore) (md5 : Bytes)
    (updates : List (FileStatus × Bool)) : MetadataStore :=
  updates.foldl (fun store update => (store.updateStatus codec md5 update.1 update.2).2) store

/-- A database with the three keys of a record added, the record itself in some stored
form. -/
def LevelDB.holding (db : LevelDB) (record : MetaFile) (text : Bytes) : LevelDB :=
  db.write [.put record.md5 text, .put (pathKey record.path) record.md5,
    .put (sceneKey record.scene record.mtime record.md5) record.md5] true

/-- Two records that differ at most in the state of the file. -/
structure MetaFile.SameFile (record other : MetaFile) : Prop where
  md5 : other.md5 = record.md5
  path : other.path = record.path
  scene : other.scene = record.scene
  size : other.size = record.size
  mtime : other.mtime = record.mtime

variable {codec} {db : LevelDB}

theorem LevelDB.get_holding (db : LevelDB) (record : MetaFile) (text key : Bytes) :
    (db.holding record text).get key =
      if sceneKey record.scene record.mtime record.md5 = key then some record.md5
      else if pathKey record.path = key then some record.md5
      else if record.md5 = key then some text else db.get key := by
  simp only [holding, LevelDB.write, ↓reduceIte, List.foldl_cons, List.foldl_nil,
    BatchEntry.apply, OrderedMap.get_put]

/-- The record itself is found in its latest form. -/
theorem LevelDB.get_holding_md5 (db : LevelDB) {record : MetaFile} (hex : IsHexMd5 record.md5)
    (text : Bytes) : (db.holding record text).get record.md5 = some text := by
  rw [get_holding, if_neg (Ne.symm (hex.ne_sceneKey _ _ _)), if_neg (Ne.symm (hex.ne_pathKey _)),
    if_pos rfl]

/-- Rewriting the record replaces the form it is held in. -/
theorem LevelDB.put_holding (db : LevelDB) {record : MetaFile} (hex : IsHexMd5 record.md5)
    (text changed : Bytes) :
    (db.holding record text).put record.md5 changed = db.holding record changed := by
  apply OrderedMap.ext_get
  intro key
  rw [OrderedMap.get_put, get_holding, get_holding]
  by_cases same : record.md5 = key
  · subst same
    simp only [Ne.symm (hex.ne_sceneKey _ _ _), Ne.symm (hex.ne_pathKey _), ↓reduceIte]
  · simp only [same, ↓reduceIte]

/-- Deleting the record leaves the database without the three keys, as it was when
none of them was there. -/
theorem LevelDB.delete_holding {record other : MetaFile} (same : record.SameFile other)
    (md5 : db.get record.md5 = none) (path : db.get (pathKey record.path) = none)
    (scene : db.get (sceneKey record.scene record.mtime record.md5) = none) (text : Bytes) :
    (db.holding record text).write (MetadataStore.deleteBatch record.md5 other) true = db := by
  apply OrderedMap.ext_get
  intro key
  rw [get_deleteBatch, get_holding, same.path, same.scene, same.mtime]
  split
  · rename_i here
    rw [← here, scene]
  · split
    · rename_i here
      rw [← here, path]
    · split
      · rename_i here
        rw [← here, md5]
      · rfl

/-- The keys of a record whose MD5 and path are not in use are free. -/
theorem IndexExact.keys_free (indexed : IndexExact codec db) {record : MetaFile}
    (hex : IsHexMd5 record.md5) (md5Free : (catalog codec db).get record.md5 = none)
    (pathFree : ∀ md5 other, (catalog codec db).get md5 = some other → other.path ≠ record.path) :
    db.get record.md5 = none ∧ db.get (pathKey record.path) = none ∧
      db.get (sceneKey record.scene record.mtime record.md5) = none := by
  refine ⟨(indexed.readable.catalog_get_eq_none hex).mp md5Free, ?_, ?_⟩
  · exact indexed.owned.eq_none (List.prefix_append _ _) fun md5 other stored same =>
      pathFree md5 other stored (pathKey_injective same)
  · refine indexed.toSceneExact.owned.eq_none (List.prefix_append _ _) fun md5 other stored same => ?_
    rw [sceneKey_md5 (isHexMd5_of_catalog_get stored) hex same, md5Free] at stored
    cases stored

namespace MetadataStore

variable {store : MetadataStore}

/-- Status updates of a held record keep it held, as the same file. -/
theorem updateStatuses_holding {record held : MetaFile} (hex : IsHexMd5 record.md5) {text : Bytes}
    (stored : StoredAs codec text held) (same : record.SameFile held) (stat : SystemStat)
    (updates : List (FileStatus × Bool)) :
    ∃ lastText last, StoredAs codec lastText last ∧ record.SameFile last ∧
      updateStatuses codec ⟨db.holding record text, stat⟩ record.md5 updates =
        ⟨db.holding record lastText, stat⟩ := by
  induction updates generalizing text held with
  | nil => exact ⟨text, held, stored, same, rfl⟩
  | cons update updates ih =>
      have found := db.get_holding_md5 hex text
      have next : (updateStatus codec ⟨db.holding record text, stat⟩ record.md5 update.1
          update.2).2 = if update.2 then
            ⟨db.holding record (serialize codec { held with status := update.1 }), stat⟩
          else ⟨db.holding record text, stat⟩ := by
        unfold updateStatus
        rw [found]
        simp only [stored.deserialize_eq]
        cases update.2 with
        | false => rfl
        | true =>
            simp only [↓reduceIte]
            exact congrArg (fun db => MetadataStore.mk db stat) (db.put_holding hex text _)
      unfold updateStatuses at ih ⊢
      rw [List.foldl_cons, next]
      cases update.2 with
      | false => exact ih stored same
      | true => exact ih (stored.setStatus update.1) ⟨same.1, same.2, same.3, same.4, same.5⟩

/-- **Delete undoes save.** Over a database whose indexes are exact, saving a record
with an unused MD5 and path, changing the state of the file any number of times and
deleting the record leaves the database and the statistics as they were. -/
theorem deleteMeta_saveMeta (indexed : IndexExact codec store.db) {record : MetaFile}
    (wellFormed : record.WellFormed) (md5Free : (catalog codec store.db).get record.md5 = none)
    (pathFree : ∀ md5 other, (catalog codec store.db).get md5 = some other →
      other.path ≠ record.path)
    (saveOk deleteOk : Bool) (updates : List (FileStatus × Bool)) :
    let saved := store.saveMeta codec record saveOk
    let deleted := (saved.2.updateStatuses codec record.md5 updates).deleteMeta codec record.md5
      deleteOk
    saved.1 = true → deleted.1 = true → deleted.2 = store := by
  intro saved deleted saveSucceeds deleteSucceeds
  have hex := wellFormed.1
  obtain ⟨md5, path, scene⟩ := indexed.keys_free hex md5Free pathFree
  have fresh : store.db.contains record.md5 = false := by rw [OrderedMap.contains, md5]; rfl
  have ok : saveOk = true := by
    cases saveOk with
    | true => rfl
    | false =>
        simp only [saved, saveMeta, fresh, commitMeta] at saveSucceeds
        cases saveSucceeds
  subst ok
  -- the store after the save, with the record in its first form
  have after : saved.2 = ⟨store.db.holding record (serialize codec record),
      { fileCount := store.cachedStat.fileCount + 1
        totalSize := store.cachedStat.totalSize + record.size.toUInt64 }⟩ := by
    simp only [saved, saveMeta, fresh, commitMeta]
    rfl
  have first : StoredAs codec (serialize codec record) record.asStored :=
    StoredAs.of_isUtf8 wellFormed.2
  obtain ⟨text, held, stored, same, updated⟩ := updateStatuses_holding hex first
    ⟨rfl, rfl, rfl, rfl, rfl⟩ saved.2.cachedStat updates
  have beforeDelete : saved.2.updateStatuses codec record.md5 updates =
      ⟨store.db.holding record text, saved.2.cachedStat⟩ := by
    rw [← updated, after]
  have read : ((store.db.holding record text).get record.md5).bind (deserialize codec) =
      some held := by
    rw [store.db.get_holding_md5 hex, Option.bind_some, stored.deserialize_eq]
  cases deleteOk with
  | false =>
      simp only [deleted, beforeDelete, deleteMeta, read] at deleteSucceeds
      cases deleteSucceeds
  | true =>
      simp only [deleted, beforeDelete, deleteMeta, read, ↓reduceIte, same.size,
        LevelDB.delete_holding same md5 path scene]
      simp only [after, add_sub_cancel_right]

/-- The sample record saved on an empty store, deleted and locked, and then removed:
nothing is left. -/
theorem deleteMeta_saveMeta_sampleMeta :
    let saved := (opened OrderedMap.empty).saveMeta compactCodec sampleMeta true
    ((saved.2.updateStatuses compactCodec sampleMeta.md5
      [(.deleted, true), (.locked, false)]).deleteMeta compactCodec sampleMeta.md5 true).2 =
        opened OrderedMap.empty := by
  refine deleteMeta_saveMeta indexExact_empty wellFormed_sampleMeta rfl ?_ true true
    [(.deleted, true), (.locked, false)] (by decide +kernel) (by decide +kernel)
  intro md5 other stored
  cases stored

end MetadataStore

end Cdfs
