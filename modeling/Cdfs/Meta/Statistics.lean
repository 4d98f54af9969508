import Mathlib.Data.UInt
import Cdfs.Basis.JsonText
import Cdfs.Meta.Catalog

/-! # The cached statistics

The store keeps the number of files and their total size by increments. Both are
instances of `Cdfs.Measure`: a counter of the cached statistics together with the
weight of a record in it. `Cdfs.Measure.shortfall_step` says that no call other
than a recount or a reopening changes by how much the counter falls short of the
full count, so on a store opened empty the statistics are exact
(`Cdfs.MetadataStore.statExact_of_reachable`).
-/

namespace Cdfs

open Basis

/-- The number of records. -/
def Catalog.size (catalog : Catalog) : Nat := catalog.entries.length

/-- The sum of the sizes of the records. -/
def Catalog.sizeSum (catalog : Catalog) : Int :=
  OrderedMap.total (fun _ record => record.size.toInt) catalog

/-- A counter of the cached statistics and the weight of a record in it. -/
structure Measure where
  read : SystemStat → UInt64
  weight : MetaFile → UInt64
  read_zero : read {} = 0
  read_add : ∀ stat record, read
    { fileCount := stat.fileCount + 1, totalSize := stat.totalSize + record.size.toUInt64 } =
      read stat + weight record
  read_sub : ∀ stat record, read
    { fileCount := stat.fileCount - 1, totalSize := stat.totalSize - record.size.toUInt64 } =
      read stat - weight record
  weight_asStored : ∀ record, weight record.asStored = weight record
  weight_status : ∀ (record : MetaFile) status, weight { record with status } = weight record

/-- The number of files: every record weighs one. -/
def fileCountMeasure : Measure where
  read := SystemStat.fileCount
  weight := fun _ => 1
  read_zero := rfl
  read_add := fun _ _ => rfl
  read_sub := fun _ _ => rfl
  weight_asStored := fun _ => rfl
  weight_status := fun _ _ => rfl

/-- The total size: a record weighs its size. -/
def totalSizeMeasure : Measure where
  read := SystemStat.totalSize
  weight := fun record => record.size.toUInt64
  read_zero := rfl
  read_add := fun _ _ => rfl
  read_sub := fun _ _ => rfl
  weight_asStored := fun _ => rfl
  weight_status := fun _ _ => rfl

namespace Measure

variable (measure : Measure) (codec : JsonCodec)

/-- The weight of all records. -/
def full (catalog : Catalog) : UInt64 := OrderedMap.total (fun _ record => measure.weight record) catalog

/-- By how much the counter falls short of the weight of all records. -/
def shortfall (store : MetadataStore) : UInt64 :=
  measure.full (catalog codec store.db) - measure.read store.cachedStat

variable {measure codec} {catalog : Catalog} {store : MetadataStore}

/-- A new record adds its weight. -/
theorem full_put_of_get_none {md5 : Bytes} (record : MetaFile) (absent : catalog.get md5 = none) :
    measure.full (catalog.put md5 record) = measure.weight record + measure.full catalog := by
  rw [full, OrderedMap.total_put, OrderedMap.erase_of_get_none absent, full]

/-- A record of the same weight adds nothing. -/
theorem full_put_of_get_some {md5 : Bytes} {record changed : MetaFile}
    (present : catalog.get md5 = some record) (same : measure.weight changed = measure.weight record) :
    measure.full (catalog.put md5 changed) = measure.full catalog := by
  rw [full, OrderedMap.total_put, same, full, OrderedMap.total_erase _ present]

/-- `save_meta` counts what it writes. -/
theorem shortfall_saveMeta (readable : Readable codec store.db) {record : MetaFile}
    (wellFormed : record.WellFormed) (ok : Bool) :
    measure.shortfall codec (store.saveMeta codec record ok).2 = measure.shortfall codec store := by
  unfold MetadataStore.saveMeta MetadataStore.commitMeta
  split
  · rfl
  · rename_i fresh
    have absent : (Cdfs.catalog codec store.db).get record.md5 = none := by
      rw [readable.catalog_get_eq_none wellFormed.1]
      simpa only [OrderedMap.contains, Option.isSome_iff_ne_none, ne_eq, not_not] using fresh
    split
    · rw [shortfall, catalog_saveBatch wellFormed, full_put_of_get_none _ absent, measure.read_add,
        measure.weight_asStored, shortfall]
      abel
    · rfl

/-- `delete_meta` discounts what it removes. -/
theorem shortfall_deleteMeta {md5 : Bytes} (hex : IsHexMd5 md5) (ok : Bool) :
    measure.shortfall codec (store.deleteMeta codec md5 ok).2 = measure.shortfall codec store := by
  unfold MetadataStore.deleteMeta
  split
  · rfl
  · rename_i record found
    have present : (Cdfs.catalog codec store.db).get md5 = some record := by
      rw [catalog_get, if_pos hex, found]
    split
    · rw [shortfall, catalog_deleteBatch, measure.read_sub, shortfall, full, full,
        OrderedMap.total_erase _ present]
      abel
    · rfl

/-- `update_status` counts nothing. -/
theorem shortfall_updateStatus (readable : Readable codec store.db) {md5 : Bytes}
    (hex : IsHexMd5 md5) (status : FileStatus) (ok : Bool) :
    measure.shortfall codec (store.updateStatus codec md5 status ok).2 =
      measure.shortfall codec store := by
  have wellFormed : (MetaOp.updateStatus md5 status ok).WellFormed := hex
  have same := MetadataStore.catalog_step readable wellFormed
  have kept : (store.updateStatus codec md5 status ok).2.cachedStat = store.cachedStat := by
    unfold MetadataStore.updateStatus
    split
    · rfl
    · split <;> rfl
  simp only [MetadataStore.step, Catalog.step, Catalog.setStatus] at same
  rw [shortfall, same, kept, shortfall]
  cases ok with
  | false => rfl
  | true =>
      cases present : (Cdfs.catalog codec store.db).get md5 with
      | none => rfl
      | some record =>
          rw [if_pos rfl, full_put_of_get_some present (measure.weight_status record status)]

/-- Nothing is missing on a store opened empty. -/
theorem shortfall_opened_empty :
    measure.shortfall codec (MetadataStore.opened OrderedMap.empty) = 0 := by
  change measure.full OrderedMap.empty - measure.read {} = 0
  rw [measure.read_zero, full, OrderedMap.total_empty, sub_zero]

/-- **A call other than a recount or a reopening leaves the shortfall as it is.** -/
theorem shortfall_step (readable : Readable codec store.db) {op : MetaOp}
    (wellFormed : op.WellFormed) (notRecount : op ≠ .repairStat) (notReopen : op ≠ .reopen) :
    measure.shortfall codec (store.step codec op) = measure.shortfall codec store := by
  cases op with
  | saveMeta record ok => exact shortfall_saveMeta readable wellFormed ok
  | updateStatus md5 status ok => exact shortfall_updateStatus readable wellFormed status ok
  | updateMeta record deleteOk saveOk =>
      have kept := MetadataStore.readable_deleteMeta readable record.md5 deleteOk
      exact (shortfall_saveMeta kept wellFormed saveOk).trans
        (shortfall_deleteMeta wellFormed.1 deleteOk)
  | deleteMeta md5 ok => exact shortfall_deleteMeta wellFormed ok
  | saveMetaShard shardIndex fileMd5 shardMd5 ok =>
      have same := MetadataStore.catalog_step readable wellFormed
      rw [shortfall, same]
      rfl
  | repairStat => exact absurd rfl notRecount
  | reopen => exact absurd rfl notReopen

/-- The full file count is the number of records. -/
theorem full_fileCountMeasure (catalog : Catalog) :
    fileCountMeasure.full catalog = UInt64.ofNat catalog.size := by
  let cast : Nat →+ UInt64 := ⟨⟨UInt64.ofNat, rfl⟩, UInt64.ofNat_add⟩
  rw [Catalog.size, ← OrderedMap.total_one]
  exact (OrderedMap.map_total cast (fun _ _ => 1) catalog).symm

/-- The full total size is the sum of the sizes. -/
theorem full_totalSizeMeasure (catalog : Catalog) :
    totalSizeMeasure.full catalog = UInt64.ofInt catalog.sizeSum := by
  let cast : Int →+ UInt64 := ⟨⟨UInt64.ofInt, rfl⟩, UInt64.ofInt_add⟩
  have converted : (fun (_ : Bytes) record => totalSizeMeasure.weight record) =
      fun _ (record : MetaFile) => cast record.size.toInt :=
    funext fun _ => funext fun record => int64_toUInt64 record.size
  rw [full, converted]
  exact (OrderedMap.map_total cast _ catalog).symm

end Measure

/-- The statistics are those of the stored records. -/
structure StatExact (codec : JsonCodec) (store : MetadataStore) : Prop where
  /-- Every entry under an MD5 is a readable record carrying that MD5. -/
  readable : Readable codec store.db
  /-- The file count is the number of records, as a 64-bit number. -/
  fileCount : store.getStat.fileCount = UInt64.ofNat (catalog codec store.db).size
  /-- The total size is the sum of the sizes modulo 2^64. -/
  totalSize : (store.getStat.totalSize.toNat : Int) = (catalog codec store.db).sizeSum % 2 ^ 64

/-- Counters that are not short of the records are the statistics of the records. -/
theorem StatExact.of_shortfall {codec : JsonCodec} {store : MetadataStore}
    (readable : Readable codec store.db) (zero : ∀ measure : Measure, measure.shortfall codec store = 0) :
    StatExact codec store where
  readable := readable
  fileCount := (sub_eq_zero.mp (zero fileCountMeasure)).symm.trans (Measure.full_fileCountMeasure _)
  totalSize := by
    have size : store.getStat.totalSize = UInt64.ofInt (catalog codec store.db).sizeSum :=
      (sub_eq_zero.mp (zero totalSizeMeasure)).symm.trans (Measure.full_totalSizeMeasure _)
    rw [size, toNat_uint64_ofInt]

/-- A call that changes the statistics by increments only. -/
def MetaOp.Incremental (op : MetaOp) : Prop :=
  op.WellFormed ∧ op ≠ .repairStat ∧ op ≠ .reopen

namespace MetadataStore

variable {codec : JsonCodec} {store : MetadataStore}

/-- **The statistics are exact in every state reached without recount or
reopening**, whatever the calls, their duplicates and their failed writes. The
file count is the number of records itself while there are fewer than 2^64. -/
theorem statExact_of_reachable
    (reached : Reachable (step codec) (fun _ op => op.Incremental) (opened OrderedMap.empty) store) :
    StatExact codec store ∧ ((catalog codec store.db).size < 2 ^ 64 →
      store.getStat.fileCount.toNat = (catalog codec store.db).size) := by
  obtain ⟨readable, zero⟩ := reached.invariant
    (fun store => Readable codec store.db ∧ ∀ measure : Measure, measure.shortfall codec store = 0)
    ⟨readable_empty, fun _ => Measure.shortfall_opened_empty⟩
    fun _ _ kept permitted => ⟨readable_step kept.1 permitted.1, fun measure =>
      (Measure.shortfall_step kept.1 permitted.1 permitted.2.1 permitted.2.2).trans (kept.2 measure)⟩
  have count : store.getStat.fileCount = UInt64.ofNat (catalog codec store.db).size :=
    (sub_eq_zero.mp (zero fileCountMeasure)).symm.trans (Measure.full_fileCountMeasure _)
  have size : store.getStat.totalSize = UInt64.ofInt (catalog codec store.db).sizeSum :=
    (sub_eq_zero.mp (zero totalSizeMeasure)).symm.trans (Measure.full_totalSizeMeasure _)
  refine ⟨⟨readable, count, by rw [size, toNat_uint64_ofInt]⟩, fun small => ?_⟩
  rw [count, UInt64.toNat_ofNat', Nat.mod_eq_of_lt small]

/-- A run that saves a record, saves it again and changes its state: one file of
its size is counted. -/
theorem statExact_of_sampleRun :
    let store := run (step compactCodec) (opened OrderedMap.empty)
      [.saveMeta sampleMeta true, .saveMeta sampleMeta true,
       .updateStatus sampleMeta.md5 .deleted true]
    store.getStat = { fileCount := 1, totalSize := 1024 } ∧ StatExact compactCodec store := by
  intro store
  have reached : Reachable (step compactCodec) (fun _ op => op.Incremental)
      (opened OrderedMap.empty) store :=
    Reachable.start.run ⟨⟨wellFormed_sampleMeta, nofun, nofun⟩, ⟨wellFormed_sampleMeta, nofun, nofun⟩,
      ⟨wellFormed_sampleMeta.1, nofun, nofun⟩, trivial⟩
  exact ⟨by decide +kernel, (statExact_of_reachable reached).1⟩

end MetadataStore

end Cdfs
