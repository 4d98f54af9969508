import Mathlib.Data.UInt
import Cdfs.Meta.UpdateMeta

/-! # The order of saves

The batches of two records with different MD5s and paths have no key in common, and a
record whose MD5 is stored is not written, so saves of such records can be made in any
order (`Cdfs.MetadataStore.run_saveMeta_perm`).
-/

namespace Cdfs

open Basis

/-! ## Batches without a common key -/

/-- The key a batch entry is about. -/
def BatchEntry.key : BatchEntry → Bytes
  | .put key _ => key
  | .delete key => key

/-- What a batch entry leaves under its key. -/
def BatchEntry.value : BatchEntry → Option Bytes
  | .put _ value => some value
  | .delete _ => none

theorem BatchEntry.get_apply (db : LevelDB) (entry : BatchEntry) (key : Bytes) :
    (entry.apply db).get key = if entry.key = key then entry.value else db.get key := by
  cases entry with
  | put written value => exact OrderedMap.get_put db written key value
  | delete erased => exact OrderedMap.get_erase db erased key

/-- Entries about different keys can be applied in either order. -/
theorem BatchEntry.apply_comm {first second : BatchEntry} (different : first.key ≠ second.key)
    (db : LevelDB) : second.apply (first.apply db) = first.apply (second.apply db) := by
  apply OrderedMap.ext_get
  intro key
  simp only [get_apply]
  by_cases here : first.key = key
  · rw [if_neg fun there : second.key = key => different (here.trans there.symm), if_pos here,
      if_pos here]
  · rw [if_neg here, if_neg here]

/-- An entry about none of the keys of a batch can be applied before or after it. -/
theorem BatchEntry.apply_foldl {entry : BatchEntry} {batch : List BatchEntry}
    (apart : ∀ other ∈ batch, entry.key ≠ other.key) (db : LevelDB) :
    batch.foldl apply (entry.apply db) = entry.apply (batch.foldl apply db) := by
  induction batch generalizing db with
  | nil => rfl
  | cons other batch ih =>
      rw [List.foldl_cons, apply_comm (apart other (List.mem_cons_self ..)),
        ih fun later member => apart later (List.mem_cons_of_mem _ member), List.foldl_cons]

/-- Batches without a common key can be written in either order. -/
theorem LevelDB.write_comm {first second : List BatchEntry}
    (apart : ∀ one ∈ first, ∀ other ∈ second, one.key ≠ other.key) (db : LevelDB) :
    LevelDB.write (db.write first true) second true =
      LevelDB.write (db.write second true) first true := by
  simp only [LevelDB.write, ↓reduceIte]
  induction first generalizing db with
  | nil => rfl
  | cons entry first ih =>
      rw [List.foldl_cons, List.foldl_cons,
        ← BatchEntry.apply_foldl (apart entry (List.mem_cons_self ..)) db,
        ih (fun one member => apart one (List.mem_cons_of_mem _ member))]

/-! ## Saves -/

/-- Two records that do not share a key. -/
structure MetaFile.Apart (first second : MetaFile) : Prop where
  hex : IsHexMd5 first.md5
  otherHex : IsHexMd5 second.md5
  md5 : first.md5 ≠ second.md5
  path : first.path ≠ second.path

theorem MetaFile.Apart.symm {first second : MetaFile} (apart : first.Apart second) :
    second.Apart first :=
  ⟨apart.otherHex, apart.hex, apart.md5.symm, apart.path.symm⟩

namespace MetadataStore

variable {codec : JsonCodec} {store : MetadataStore}

/-- The batches of such records have no key in common. -/
theorem saveBatch_apart {first second : MetaFile} (apart : first.Apart second) :
    ∀ one ∈ saveBatch codec first, ∀ other ∈ saveBatch codec second, one.key ≠ other.key := by
  have scenes : sceneKey first.scene first.mtime first.md5 ≠
      sceneKey second.scene second.mtime second.md5 :=
    fun same => apart.md5 (sceneKey_md5 apart.hex apart.otherHex same)
  simp only [saveBatch, List.forall_mem_cons, List.not_mem_nil, IsEmpty.forall_iff, implies_true,
    and_true, BatchEntry.key]
  refine ⟨⟨apart.md5, apart.hex.ne_pathKey _, apart.hex.ne_sceneKey _ _ _⟩,
    ⟨Ne.symm (apart.otherHex.ne_pathKey _), fun same => apart.path (pathKey_injective same),
      pathKey_ne_sceneKey _ _ _ _⟩,
    ⟨Ne.symm (apart.otherHex.ne_sceneKey _ _ _), Ne.symm (pathKey_ne_sceneKey _ _ _ _), scenes⟩⟩

/-- Saving one record does not store the MD5 of the other. -/
theorem contains_saveMeta {first second : MetaFile} (apart : first.Apart second) :
    (store.saveMeta codec first true).2.db.contains second.md5 =
      store.db.contains second.md5 := by
  unfold saveMeta commitMeta
  split
  · rfl
  · simp only [OrderedMap.contains, ↓reduceIte]
    rw [get_saveBatch_of_isHexMd5 _ apart.otherHex, if_neg apart.md5]

/-- The store after a save whose write succeeds. -/
theorem saveMeta_written (store : MetadataStore) (record : MetaFile) :
    (store.saveMeta codec record true).2 =
      if store.db.contains record.md5 then store
      else { db := store.db.write (saveBatch codec record) true
             cachedStat :=
               { fileCount := store.cachedStat.fileCount + 1
                 totalSize := store.cachedStat.totalSize + record.size.toUInt64 } } := by
  unfold saveMeta commitMeta
  split <;> rfl

/-- Two such records can be saved in either order. -/
theorem saveMeta_comm {first second : MetaFile} (apart : first.Apart second) :
    ((store.saveMeta codec first true).2.saveMeta codec second true).2 =
      ((store.saveMeta codec second true).2.saveMeta codec first true).2 := by
  rw [saveMeta_written (store.saveMeta codec first true).2, contains_saveMeta apart,
    saveMeta_written (store.saveMeta codec second true).2, contains_saveMeta apart.symm,
    saveMeta_written store first, saveMeta_written store second]
  cases store.db.contains first.md5 with
  | true => simp only [↓reduceIte]
  | false =>
      cases store.db.contains second.md5 with
      | true => simp only [Bool.false_eq_true, ↓reduceIte]
      | false =>
          simp only [Bool.false_eq_true, ↓reduceIte]
          rw [LevelDB.write_comm (saveBatch_apart apart), add_right_comm store.cachedStat.totalSize]

/-- **The order of independent saves does not matter.** Whatever the store holds, saving
records with different MD5s and different paths, each with a write that succeeds, leads
to the same database and the same statistics in every order. -/
theorem run_saveMeta_perm (store : MetadataStore) {records reordered : List MetaFile}
    (wellFormed : ∀ record ∈ records, record.WellFormed)
    (md5s : (records.map MetaFile.md5).Nodup) (paths : (records.map MetaFile.path).Nodup)
    (same : records.Perm reordered) :
    run (step codec) store (records.map fun record => .saveMeta record true) =
      run (step codec) store (reordered.map fun record => .saveMeta record true) := by
  unfold run
  rw [List.foldl_map, List.foldl_map]
  refine same.foldl_eq' (fun first inside second also store => ?_) store
  by_cases equal : first = second
  · rw [equal]
  · exact saveMeta_comm
      { hex := (wellFormed first inside).1
        otherHex := (wellFormed second also).1
        md5 := fun shared => equal (List.inj_on_of_nodup_map md5s inside also shared)
        path := fun shared => equal (List.inj_on_of_nodup_map paths inside also shared) }

/-- Two records in both orders, over a store that holds the first of them already. -/
theorem run_saveMeta_perm_sampleRun :
    run (step compactCodec) sampleStore [.saveMeta sampleMeta true, .saveMeta apartMeta true] =
      run (step compactCodec) sampleStore [.saveMeta apartMeta true, .saveMeta sampleMeta true] := by
  have swapped : [sampleMeta, apartMeta].Perm [apartMeta, sampleMeta] := .swap _ _ _
  obtain ⟨wellFormed, md5s, paths⟩ : (∀ record ∈ [sampleMeta, apartMeta], record.WellFormed) ∧
      ([sampleMeta, apartMeta].map MetaFile.md5).Nodup ∧
      ([sampleMeta, apartMeta].map MetaFile.path).Nodup := by
    decide +kernel
  simpa only [List.map_cons, List.map_nil] using
    run_saveMeta_perm sampleStore wellFormed md5s paths swapped

end MetadataStore

end Cdfs
