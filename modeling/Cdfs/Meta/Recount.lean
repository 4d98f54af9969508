import Cdfs.Meta.Foreign
import Cdfs.Meta.Statistics

/-! # The recount

`repair_stat` scans the database and takes every key of 32 bytes for that of a record.
Index entries and shard markers of that length do not read as records, so the statistics
are afterwards those of the records in normal state
(`Cdfs.MetadataStore.recountExact_of_reachable`).
-/

namespace Cdfs

open Basis

/-- The records in normal state. -/
def Catalog.normals (catalog : Catalog) : Catalog :=
  catalog.filterMap fun _ record => if record.status = .normal then some record else none

namespace Measure

variable {measure : Measure} {codec : JsonCodec}

/-- The scan adds up the weights of the normal records among the entries read as
records. -/
theorem read_foldl_repairEntry {entries : List (Bytes × Bytes)}
    (foreign : ∀ entry ∈ entries, ¬ IsHexMd5 entry.1 → deserialize codec entry.2 = none)
    (stat : SystemStat) :
    measure.read (entries.foldl (MetadataStore.repairEntry codec) stat) = measure.read stat +
      (((entries.filterMap fun entry =>
        (if IsHexMd5 entry.1 then deserialize codec entry.2 else none).map (entry.1, ·)).filterMap
          fun entry => (if entry.2.status = .normal then some entry.2 else none).map
            (entry.1, ·)).map fun entry => measure.weight entry.2).sum := by
  induction entries generalizing stat with
  | nil => exact (add_zero (measure.read stat)).symm
  | cons entry rest ih =>
      have same : (if isMd5 entry.1 then deserialize codec entry.2 else none) =
          if IsHexMd5 entry.1 then deserialize codec entry.2 else none := by
        by_cases hex : IsHexMd5 entry.1
        · have length : isMd5 entry.1 = true := beq_iff_eq.mpr hex.1
          rw [if_pos hex, if_pos length]
        · rw [if_neg hex, foreign entry (List.mem_cons_self ..) hex, ite_self]
      rw [List.foldl_cons, ih fun other member => foreign other (List.mem_cons_of_mem _ member),
        MetadataStore.repairEntry, same, List.filterMap_cons]
      cases (if IsHexMd5 entry.1 then deserialize codec entry.2 else none) with
      | none => rfl
      | some record =>
          by_cases normal : record.status = .normal
          · simp only [Option.map_some, List.filterMap_cons, normal, ↓reduceIte, List.map_cons,
              List.sum_cons, measure.read_add, add_assoc]
          · simp only [Option.map_some, List.filterMap_cons, normal, ↓reduceIte, Option.map_none]

/-- After a recount a counter is the weight of the normal records. -/
theorem read_repairStat {store : MetadataStore}
    (foreign : Unreadable codec (fun _ => False) store.db) :
    measure.read (store.repairStat codec).getStat =
      measure.full (catalog codec store.db).normals := by
  have scanned := @read_foldl_repairEntry measure codec store.db.entries
    (fun entry member other => foreign entry.1 entry.2 other id
      (OrderedMap.mem_entries_iff.mp member)) {}
  rw [measure.read_zero, zero_add] at scanned
  exact scanned

end Measure

/-- The statistics are those of the records in normal state. -/
structure RecountExact (codec : JsonCodec) (store : MetadataStore) : Prop where
  /-- The file count is their number, as a 64-bit number. -/
  fileCount : store.getStat.fileCount = UInt64.ofNat (catalog codec store.db).normals.size
  /-- The total size is the sum of their sizes modulo 2^64. -/
  totalSize : (store.getStat.totalSize.toNat : Int) =
    (catalog codec store.db).normals.sizeSum % 2 ^ 64

/-- The calls with well-formed arguments whose shard MD5s are MD5s or empty. -/
def MetaOp.MarksMd5s (op : MetaOp) : Prop :=
  op.WellFormed ∧ ∀ shardIndex fileMd5 shardMd5 ok,
    op = .saveMetaShard shardIndex fileMd5 shardMd5 ok → shardMd5 = [] ∨ IsHexMd5 shardMd5

namespace MetadataStore

variable {codec : JsonCodec} {store : MetadataStore}

/-- In a reachable state nothing but the records reads as a record. -/
theorem unreadable_of_marksMd5s
    (reached : Reachable (step codec) (fun _ op => op.MarksMd5s) (opened OrderedMap.empty) store) :
    Readable codec store.db ∧ Unreadable codec (fun _ => False) store.db := by
  refine reached.invariant (fun store => Readable codec store.db ∧
    Unreadable codec (fun _ => False) store.db) ⟨readable_empty, Unreadable.empty⟩ ?_
  rintro store op ⟨readable, foreign⟩ ⟨wellFormed, marks⟩
  refine ⟨readable_step readable wellFormed, foreign.step readable wellFormed ?_⟩
  cases op with
  | saveMetaShard shardIndex fileMd5 shardMd5 ok =>
      right
      rcases marks shardIndex fileMd5 shardMd5 ok rfl with rfl | hex
      · exact deserialize_one
      · have given : shardMd5.isEmpty = false := by
          rw [List.isEmpty_eq_false_iff, ← List.length_pos_iff, hex.1]
          decide
        rw [given]
        exact hex.deserialize_eq_none
  | _ => trivial

/-- **A recount is exact in every reachable state**, whatever the paths, scenes and shard
ids and whichever keys have the length of an MD5. The file count is the number of normal
records itself while there are fewer than 2^64. -/
theorem recountExact_of_reachable
    (reached : Reachable (step codec) (fun _ op => op.MarksMd5s) (opened OrderedMap.empty) store) :
    RecountExact codec (store.repairStat codec) ∧
      ((catalog codec store.db).normals.size < 2 ^ 64 →
        (store.repairStat codec).getStat.fileCount.toNat =
          (catalog codec store.db).normals.size) := by
  obtain ⟨_, foreign⟩ := unreadable_of_marksMd5s reached
  have count : (store.repairStat codec).getStat.fileCount =
      UInt64.ofNat (catalog codec store.db).normals.size :=
    (@Measure.read_repairStat fileCountMeasure _ _ foreign).trans (Measure.full_fileCountMeasure _)
  have size : (store.repairStat codec).getStat.totalSize =
      UInt64.ofInt (catalog codec store.db).normals.sizeSum :=
    (@Measure.read_repairStat totalSizeMeasure _ _ foreign).trans (Measure.full_totalSizeMeasure _)
  refine ⟨⟨count, ?_⟩, fun small => ?_⟩
  · rw [size, toNat_uint64_ofInt]
    rfl
  · rw [count, UInt64.toNat_ofNat', Nat.mod_eq_of_lt small]

/-- A record whose path key has the length of an MD5. -/
def pathLengthMeta : MetaFile :=
  { sampleMeta with
    md5 := bytes "fedcba0987654321fedcba0987654321", path := bytes "/group1/pictures/holiday.jp" }

/-- Two records, one of them deleted, and a marker: the recount finds one file. -/
theorem recountExact_sampleRun :
    let ops : List MetaOp := [.saveMeta sampleMeta true, .saveMeta pathLengthMeta true,
      .updateStatus sampleMeta.md5 .deleted true,
      .saveMetaShard 100 (bytes "0123456789abcdef012345") [] true]
    let store := run (step compactCodec) (opened OrderedMap.empty) ops
    (catalog compactCodec store.db).normals.size = 1 ∧
      isMd5 (pathKey pathLengthMeta.path) = true ∧
      isMd5 (shardKey (bytes "0123456789abcdef012345") 100) = true ∧
      RecountExact compactCodec (store.repairStat compactCodec) := by
  intro ops store
  have permitted : Permitted (step compactCodec) (fun _ op => op.MarksMd5s)
      (opened OrderedMap.empty) ops :=
    ⟨⟨wellFormed_sampleMeta, fun _ _ _ _ same => by cases same⟩,
      ⟨by decide +kernel, fun _ _ _ _ same => by cases same⟩,
      ⟨wellFormed_sampleMeta.1, fun _ _ _ _ same => by cases same⟩,
      ⟨trivial, fun _ _ _ _ same => by cases same; exact .inl rfl⟩, trivial⟩
  have records : catalog compactCodec store.db = ops.foldl Catalog.step OrderedMap.empty :=
    catalog_run readable_empty (by decide +kernel)
  refine ⟨?_, by decide +kernel, by decide +kernel,
    (recountExact_of_reachable (Reachable.start.run permitted)).1⟩
  rw [records]
  decide +kernel

end MetadataStore

end Cdfs
