import Cdfs.Meta.Recount

/-! # Recounting and reopening

A recount adds up the records in normal state, and a reopened store counts from
zero. The records left out at that moment stay uncounted for good: later calls
change the counter and the number of records together. `Cdfs.Accounting` follows
the number of uncounted records through a run. While every delete finds more
records than are uncounted, the counter stays at or below the number of records
(`Cdfs.Accounting.fileCount_le_size_of_counted`); the first delete that does not
takes the counter below zero.
-/

namespace Cdfs

open Basis

/-- The number of records that a recount leaves out. -/
def Catalog.notNormal (catalog : Catalog) : Nat :=
  catalog.entries.countP fun entry => decide (entry.2.status ≠ .normal)

/-- A store and the number of its records that the counter leaves out. -/
structure Accounting where
  store : MetadataStore
  uncounted : Nat := 0

/-- The record a call deletes, if its delete is written. -/
def MetaOp.removed : MetaOp → Option Bytes
  | .deleteMeta md5 true => some md5
  | .updateMeta record true _ => some record.md5
  | _ => none

/-- The calls on records, the recount and the reopening. -/
def MetaOp.Counting (op : MetaOp) : Prop :=
  op.WellFormed ∧ ∀ shardIndex fileMd5 shardMd5 ok,
    op ≠ .saveMetaShard shardIndex fileMd5 shardMd5 ok

namespace Accounting

variable (codec : JsonCodec)

/-- The records of the store. -/
def records (account : Accounting) : Catalog := catalog codec account.store.db

/-- A call, and what it does to the number of uncounted records. -/
def step (account : Accounting) (op : MetaOp) : Accounting where
  store := account.store.step codec op
  uncounted := match op with
    | .repairStat => (account.records codec).notNormal
    | .reopen => (account.records codec).size
    | _ => account.uncounted

/-- The call deletes a stored record. -/
def Deletes (account : Accounting) (op : MetaOp) : Prop :=
  ∃ md5, op.removed = some md5 ∧ (account.records codec).contains md5 = true

/-- If the call deletes a stored record, more records are stored than are
uncounted. -/
def Counted (account : Accounting) (op : MetaOp) : Prop :=
  account.Deletes codec op → account.uncounted < (account.records codec).size

end Accounting

section Sizes

variable {catalog : Catalog}

/-- Erasing a record that is there takes one away. -/
theorem Catalog.size_erase {md5 : Bytes} (present : catalog.contains md5 = true) :
    (Catalog.size (catalog.erase md5)) + 1 = catalog.size := by
  obtain ⟨record, stored⟩ := Option.isSome_iff_exists.mp present
  have whole := OrderedMap.total_erase (fun _ _ => 1) stored
  rw [OrderedMap.total_one, OrderedMap.total_one] at whole
  unfold Catalog.size
  omega

/-- Putting a record takes none away. -/
theorem Catalog.size_le_size_put (md5 : Bytes) (record : MetaFile) :
    catalog.size ≤ Catalog.size (catalog.put md5 record) := by
  have whole := OrderedMap.total_put (fun _ _ => 1) catalog md5 record
  rw [OrderedMap.total_one, OrderedMap.total_one] at whole
  cases found : catalog.get md5 with
  | none =>
      rw [OrderedMap.erase_of_get_none found] at whole
      unfold Catalog.size
      omega
  | some stored =>
      have present : catalog.contains md5 = true := Option.isSome_iff_exists.mpr ⟨stored, found⟩
      have shrunk := Catalog.size_erase present
      unfold Catalog.size at shrunk ⊢
      omega

/-- Neither does inserting one that is new. -/
theorem Catalog.size_le_size_insertNew (record : MetaFile) :
    catalog.size ≤ Catalog.size (catalog.insertNew record) := by
  unfold Catalog.insertNew
  split
  · exact le_rfl
  · exact Catalog.size_le_size_put _ _

/-- A call loses at most the record it deletes. -/
theorem Catalog.size_le_size_step (catalog : Catalog) (op : MetaOp) :
    catalog.size ≤ (catalog.step op).size ∨ ∃ md5, op.removed = some md5 ∧
      catalog.contains md5 = true ∧ catalog.size ≤ (catalog.step op).size + 1 := by
  have erased (md5 : Bytes) : catalog.size ≤ Catalog.size (catalog.erase md5) ∨
      catalog.contains md5 = true ∧ catalog.size ≤ Catalog.size (catalog.erase md5) + 1 := by
    cases found : catalog.get md5 with
    | none => exact .inl (by rw [OrderedMap.erase_of_get_none found])
    | some record =>
        have present : catalog.contains md5 = true := Option.isSome_iff_exists.mpr ⟨record, found⟩
        exact .inr ⟨present, (Catalog.size_erase present).symm.le⟩
  cases op with
  | saveMeta record ok =>
      cases ok with
      | false => exact .inl le_rfl
      | true => exact .inl (Catalog.size_le_size_insertNew _)
  | updateStatus md5 status ok =>
      left
      simp only [Catalog.step, Catalog.setStatus]
      split
      · split
        · exact le_rfl
        · exact Catalog.size_le_size_put _ _
      · exact le_rfl
  | updateMeta record deleteOk saveOk =>
      have grown (remaining : Catalog) : remaining.size ≤
          Catalog.size (if saveOk then remaining.insertNew record.asStored else remaining) := by
        cases saveOk with
        | false => exact le_rfl
        | true => exact Catalog.size_le_size_insertNew _
      cases deleteOk with
      | false => exact .inl (grown catalog)
      | true =>
          rcases erased record.md5 with kept | ⟨present, lost⟩
          · exact .inl (kept.trans (grown _))
          · exact .inr ⟨record.md5, rfl, present, lost.trans (Nat.add_le_add_right (grown _) 1)⟩
  | deleteMeta md5 ok =>
      cases ok with
      | false => exact .inl le_rfl
      | true => exact (erased md5).imp id fun lost => ⟨md5, rfl, lost.1, lost.2⟩
  | saveMetaShard _ _ _ _ => exact .inl le_rfl
  | repairStat => exact .inl le_rfl
  | reopen => exact .inl le_rfl

end Sizes

section Recount

variable {codec : JsonCodec} {db : LevelDB}

/-- No entry outside the record keys reads as a record. -/
def ForeignUnreadable (codec : JsonCodec) (db : LevelDB) : Prop :=
  ∀ key text, ¬ IsHexMd5 key → db.get key = some text → deserialize codec text = none

/-- No foreign entry is exempt. -/
theorem foreignUnreadable_iff :
    ForeignUnreadable codec db ↔ Unreadable codec (fun _ => False) db :=
  ⟨fun foreign key text other _ => foreign key text other,
    fun foreign key text other => foreign key text other id⟩

/-- One call on records keeps the other entries unreadable. -/
theorem ForeignUnreadable.step {store : MetadataStore}
    (foreign : ForeignUnreadable codec store.db) (readable : Readable codec store.db)
    {op : MetaOp} (counting : op.Counting) : ForeignUnreadable codec (store.step codec op).db := by
  refine foreignUnreadable_iff.mpr
    ((foreignUnreadable_iff.mp foreign).step readable counting.1 ?_)
  cases op with
  | saveMetaShard => exact absurd rfl (counting.2 _ _ _ _)
  | _ => trivial

/-- Each record is normal or not. -/
theorem Catalog.size_normals (catalog : Catalog) :
    catalog.size = catalog.normals.size + catalog.notNormal := by
  have counted (entries : List (Bytes × MetaFile)) :
      (entries.filterMap fun entry => (if entry.2.status = .normal then some entry.2
        else none).map (entry.1, ·)).length =
          entries.countP fun entry => decide (entry.2.status = .normal) := by
    induction entries with
    | nil => rfl
    | cons entry rest ih =>
        rw [List.filterMap_cons, List.countP_cons]
        by_cases normal : entry.2.status = .normal
        · simp only [normal, ↓reduceIte, Option.map_some, List.length_cons, ih, decide_true]
        · simp only [normal, ↓reduceIte, Option.map_none, ih, decide_false, Bool.false_eq_true,
            add_zero]
  have whole : catalog.entries.length = _ := List.length_eq_countP_add_countP
    fun entry : Bytes × MetaFile => decide (entry.2.status = .normal)
  rw [← counted] at whole
  simpa only [Catalog.size, Catalog.notNormal, Catalog.normals, OrderedMap.filterMap, ne_eq,
    decide_not, Bool.not_eq_true, decide_eq_true_eq] using whole

/-- The recount leaves out exactly the records that are not in normal state. -/
theorem shortfall_repairStat {store : MetadataStore} (foreign : ForeignUnreadable codec store.db) :
    fileCountMeasure.shortfall codec (store.repairStat codec) =
      UInt64.ofNat (catalog codec store.db).notNormal := by
  have counted := @Measure.read_repairStat fileCountMeasure _ _ (foreignUnreadable_iff.mp foreign)
  rw [Measure.full_fileCountMeasure] at counted
  rw [Measure.shortfall, Measure.full_fileCountMeasure]
  change UInt64.ofNat (catalog codec store.db).size -
    fileCountMeasure.read (store.repairStat codec).getStat = _
  rw [counted, Catalog.size_normals, UInt64.ofNat_add]
  exact add_sub_cancel_left _ _

end Recount

namespace Accounting

variable {codec : JsonCodec} {account : Accounting}

/-- What holds of the counter in every run: it falls short by the number of
uncounted records. -/
structure Balanced (codec : JsonCodec) (account : Accounting) : Prop where
  readable : Readable codec account.store.db
  foreign : ForeignUnreadable codec account.store.db
  shortfall : fileCountMeasure.shortfall codec account.store = UInt64.ofNat account.uncounted

/-- An empty store is balanced. -/
theorem balanced_opened_empty :
    Balanced codec { store := MetadataStore.opened OrderedMap.empty } where
  readable := readable_empty
  foreign := fun _ _ _ present => nomatch present
  shortfall := Measure.shortfall_opened_empty

/-- Every counting call keeps the balance. -/
theorem Balanced.step (balanced : Balanced codec account) {op : MetaOp} (counting : op.Counting) :
    Balanced codec (account.step codec op) where
  readable := MetadataStore.readable_step balanced.readable counting.1
  foreign := balanced.foreign.step balanced.readable counting
  shortfall := by
    cases op with
    | repairStat => exact shortfall_repairStat balanced.foreign
    | reopen =>
        change fileCountMeasure.full (account.records codec) - 0 = _
        rw [sub_zero, Measure.full_fileCountMeasure]
        rfl
    | _ =>
        exact (Measure.shortfall_step balanced.readable counting.1 nofun nofun).trans
          balanced.shortfall

/-- The counter as long as no more records are uncounted than stored. -/
theorem Balanced.fileCount_eq (balanced : Balanced codec account)
    (covered : account.uncounted ≤ (account.records codec).size) :
    account.store.getStat.fileCount =
      UInt64.ofNat ((account.records codec).size - account.uncounted) := by
  have short := balanced.shortfall
  rw [Measure.shortfall, Measure.full_fileCountMeasure, sub_eq_iff_eq_add] at short
  have whole : UInt64.ofNat (account.records codec).size =
      UInt64.ofNat account.uncounted +
        UInt64.ofNat ((account.records codec).size - account.uncounted) := by
    rw [← UInt64.ofNat_add, Nat.add_sub_cancel' covered]
  exact add_left_cancel (short.symm.trans whole)

/-- A call that meets the condition leaves no more records uncounted than
stored. -/
theorem uncounted_le_step (readable : Readable codec account.store.db) {op : MetaOp}
    (counting : op.Counting) (counted : account.Counted codec op)
    (covered : account.uncounted ≤ (account.records codec).size) :
    (account.step codec op).uncounted ≤ ((account.step codec op).records codec).size := by
  have records : (account.step codec op).records codec = (account.records codec).step op :=
    MetadataStore.catalog_step readable counting.1
  have kept : account.uncounted ≤ ((account.records codec).step op).size := by
    rcases (account.records codec).size_le_size_step op with
      grown | ⟨md5, removed, present, lost⟩
    · exact covered.trans grown
    · have spare := counted ⟨md5, removed, present⟩
      omega
  rw [records]
  cases op with
  | repairStat => exact List.countP_le_length
  | reopen => exact le_rfl
  | _ => exact kept

/-- **The counter never passes the number of records in a run whose deletes all
find more records than are uncounted.** In a state so reached, the condition on the
next call is exact: it fails when and only when that call deletes a stored record
with the counter at zero. -/
theorem fileCount_le_size_of_counted
    (reached : Reachable (step codec) (fun account op => op.Counting ∧ account.Counted codec op)
      { store := MetadataStore.opened OrderedMap.empty } account) :
    account.store.getStat.fileCount.toNat ≤ (account.records codec).size ∧
      ∀ op, (account.records codec).size < 2 ^ 64 → (account.Counted codec op ↔
        (account.Deletes codec op → account.store.getStat.fileCount ≠ 0)) := by
  obtain ⟨balanced, covered⟩ := reached.invariant
    (fun account => Balanced codec account ∧ account.uncounted ≤ (account.records codec).size)
    ⟨balanced_opened_empty, Nat.zero_le _⟩
    fun _ _ kept permitted => ⟨kept.1.step permitted.1,
      uncounted_le_step kept.1.readable permitted.1 permitted.2 kept.2⟩
  have count : account.store.getStat.fileCount.toNat =
      ((account.records codec).size - account.uncounted) % 2 ^ 64 := by
    rw [balanced.fileCount_eq covered, UInt64.toNat_ofNat']
  refine ⟨?_, fun op small => forall_congr' fun _ => ?_⟩
  · have reduced := Nat.mod_le ((account.records codec).size - account.uncounted) (2 ^ 64)
    omega
  · rw [ne_eq, ← UInt64.toNat_inj, count, UInt64.toNat_zero]
    omega

/-- A run that saves a record, recounts and deletes it: the delete finds the
record counted. -/
theorem fileCount_le_size_of_sampleRun :
    let account := run (step compactCodec) { store := MetadataStore.opened OrderedMap.empty }
      [.saveMeta sampleMeta true, .repairStat, .deleteMeta sampleMeta.md5 true]
    account.store.getStat.fileCount.toNat ≤ (account.records compactCodec).size := by
  intro account
  have reached : Reachable (step compactCodec)
      (fun account op => op.Counting ∧ account.Counted compactCodec op)
      { store := MetadataStore.opened OrderedMap.empty } account := by
    refine Reachable.start.run ⟨⟨⟨wellFormed_sampleMeta, nofun⟩, ?_⟩, ⟨⟨trivial, nofun⟩, ?_⟩,
      ⟨⟨wellFormed_sampleMeta.1, nofun⟩, fun _ => by decide +kernel⟩, trivial⟩
    · rintro ⟨md5, removed, _⟩
      cases removed
    · rintro ⟨md5, removed, _⟩
      cases removed
  exact (fileCount_le_size_of_counted reached).1

/-- Saving a record, reopening the store and deleting the record leaves the
counter at 2^64 - 1 with no record stored. -/
theorem fileCount_wraps_after_reopen :
    ¬ ∀ ops : List MetaOp, (∀ op ∈ ops, op.Counting) →
      (run (MetadataStore.step compactCodec) (MetadataStore.opened OrderedMap.empty)
          ops).getStat.fileCount.toNat ≤
        (catalog compactCodec (run (MetadataStore.step compactCodec)
          (MetadataStore.opened OrderedMap.empty) ops).db).size := by
  intro bounded
  have counting : ∀ op ∈ [MetaOp.saveMeta sampleMeta true, .reopen,
      .deleteMeta sampleMeta.md5 true], op.Counting := by
    intro op member
    simp only [List.mem_cons, List.not_mem_nil, or_false] at member
    rcases member with rfl | rfl | rfl
    · exact ⟨wellFormed_sampleMeta, nofun⟩
    · exact ⟨trivial, nofun⟩
    · exact ⟨wellFormed_sampleMeta.1, nofun⟩
  have few := bounded _ counting
  rw [MetadataStore.catalog_run readable_empty fun op member => (counting op member).1] at few
  exact absurd few (by decide +kernel)

end Accounting

end Cdfs
