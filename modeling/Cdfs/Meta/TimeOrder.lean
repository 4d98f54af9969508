import Cdfs.Basis.DecimalOrder
import Cdfs.Meta.SceneListing

/-! # The order of a listing in time

Listings come in the byte order of the scene keys, in which the time of a record
stands as an unpadded decimal. `Cdfs.MetadataStore.listsInTimeOrder_iff` says for
which stored times this is the order in time.
-/

namespace Cdfs

open Basis

/-- The scene of a record has no colon. -/
def MetaFile.PlainScene (record : MetaFile) : Prop := (58 : UInt8) ∉ record.scene

instance (record : MetaFile) : Decidable record.PlainScene :=
  inferInstanceAs (Decidable ((58 : UInt8) ∉ record.scene))

/-- A well-formed call that brings no scene with a colon. -/
def PlainOp (op : MetaOp) : Prop := op.WellFormed ∧ op.Brings MetaFile.PlainScene

instance (op : MetaOp) : Decidable (PlainOp op) :=
  inferInstanceAs (Decidable (op.WellFormed ∧ op.Brings MetaFile.PlainScene))

variable (codec : JsonCodec)

/-- The ascending listing has its times in ascending order, the descending one in
descending order. -/
def MetadataStore.ListsInTimeOrder (store : MetadataStore) (dir : Bytes) : Prop :=
  (store.listDir codec dir 0 (-1) 1).Pairwise (fun first second => first.mtime ≤ second.mtime) ∧
    (store.listDir codec dir 0 (-1) 2).Pairwise fun first second => second.mtime ≤ first.mtime

/-- Any two different times of records of the scene are printed in order. -/
def TimesPrintedInOrder (db : LevelDB) (scene : Bytes) : Prop :=
  ∀ earlier ∈ recordsOfScene codec db scene, ∀ later ∈ recordsOfScene codec db scene,
    earlier.mtime < later.mtime → PrintedInOrder earlier.mtime.toInt later.mtime.toInt

variable {codec}

namespace MetadataStore

variable {store : MetadataStore}

/-- Calls that bring no scene with a colon leave none in the store. -/
theorem plainScene_of_reachable
    (reached : Reachable (step codec) (fun _ op => PlainOp op) (opened OrderedMap.empty) store) :
    SceneExact codec store.db ∧
      ∀ md5 record, (catalog codec store.db).get md5 = some record → record.PlainScene := by
  refine reached.invariant (fun store => SceneExact codec store.db ∧
      ∀ md5 record, (catalog codec store.db).get md5 = some record → record.PlainScene)
    ⟨sceneExact_empty, by intro md5 record stored; cases stored⟩ ?_
  rintro store op ⟨indexed, plain⟩ ⟨wellFormed, brings⟩
  refine ⟨sceneExact_step indexed wellFormed, ?_⟩
  rw [catalog_step indexed.readable wellFormed]
  exact Catalog.forall_step (fun _ _ holds => holds) (fun _ holds => holds) plain brings

end MetadataStore

/-- Two records of one scene are listed in the order in which their times are
printed. -/
theorem MetaFile.listKey_lt_iff {earlier later : MetaFile} (scene : earlier.scene = later.scene)
    (ordered : earlier.mtime < later.mtime) :
    earlier.listKey < later.listKey ↔ PrintedInOrder earlier.mtime.toInt later.mtime.toInt := by
  unfold listKey sceneKey
  rw [scene]
  simp only [append_lt_append_iff]
  exact decimalInt_lt_iff (Int64.lt_iff_toInt_lt.mp ordered) _ _

/-- Among records whose scenes have no colon, two that are listed together with
different times have the scene listed. -/
theorem MetaFile.scene_eq_of_listedUnder {first second : MetaFile} {dir : Bytes}
    (firstHex : IsHexMd5 first.md5) (secondHex : IsHexMd5 second.md5)
    (firstPlain : first.PlainScene) (secondPlain : second.PlainScene)
    (firstListed : first.ListedUnder dir) (secondListed : second.ListedUnder dir)
    (different : first.mtime ≠ second.mtime) : first.scene = dir ∧ second.scene = dir := by
  have outside {record : MetaFile} (plain : record.PlainScene) {front : Bytes} :
      ¬ front ++ bytes ":" <+: record.scene := by
    rintro ⟨rest, same⟩
    refine plain (same ▸ ?_)
    exact List.mem_append_left _ (List.mem_append_right _ (List.mem_cons_self ..))
  have colon {record : MetaFile}
      (timed : dir = record.scene ++ (bytes ":" ++ decimalInt record.mtime.toInt)) :
      (58 : UInt8) ∈ dir := by
    rw [timed]
    exact List.mem_append_right _ (List.mem_cons_self ..)
  rcases (listedUnder_iff firstHex dir).mp firstListed with rfl | inside | timed
  · rcases (listedUnder_iff secondHex first.scene).mp secondListed with same | inside | timed
    · exact ⟨rfl, same⟩
    · exact (outside secondPlain inside).elim
    · exact (firstPlain (colon timed)).elim
  · exact (outside firstPlain inside).elim
  · rcases (listedUnder_iff secondHex dir).mp secondListed with rfl | inside | again
    · exact (secondPlain (colon timed)).elim
    · exact (outside secondPlain inside).elim
    · have same := timed.symm.trans again
      rcases prefix_of_append_separator (colon_not_mem_decimalInt _) same with scenes | inside
      · rw [scenes] at same
        have times := List.append_cancel_left (List.append_cancel_left same)
        exact (different (Int64.toInt_inj.mp (decimalInt_injective times))).elim
      · exact (outside secondPlain inside).elim

/-- In a list ordered by one relation, a second relation holds along the list if and
only if it follows from the first. -/
theorem pairwise_iff_of_pairwise {α : Type} {before after : α → α → Prop} {elements : List α}
    (asymmetric : ∀ first second, before first second → ¬ before second first)
    (reflexive : ∀ element, after element element) (ordered : elements.Pairwise before) :
    elements.Pairwise after ↔
      ∀ first ∈ elements, ∀ second ∈ elements, before first second → after first second := by
  constructor
  · intro sorted
    have forwards : elements.Pairwise fun first second => before first second → after first second :=
      List.Pairwise.imp (fun holds => fun _ => holds) sorted
    have backwards : elements.Pairwise (flip fun first second =>
        before first second → after first second) :=
      ordered.imp fun earlier later => (asymmetric _ _ earlier later).elim
    exact List.Pairwise.forall_of_forall_of_flip (fun element _ _ => reflexive element) forwards
      backwards
  · intro follows
    exact ordered.imp_of_mem fun first second earlier => follows _ first _ second earlier

namespace MetadataStore

variable {store : MetadataStore}

/-- **When a listing is in the order of time.** In every state reached by calls that
bring no scene with a colon, the two listings of a directory are in the order of
time if and only if any two different times of its records are printed in order. -/
theorem listsInTimeOrder_iff
    (reached : Reachable (step codec) (fun _ op => PlainOp op) (opened OrderedMap.empty) store)
    (dir : Bytes) :
    store.ListsInTimeOrder codec dir ↔ TimesPrintedInOrder codec store.db dir := by
  obtain ⟨indexed, plain⟩ := plainScene_of_reachable reached
  have readable := indexed.readable
  unfold ListsInTimeOrder
  rw [listDir_whole indexed, listDir_whole indexed, if_pos rfl, if_neg (by decide),
    List.pairwise_reverse, and_self, pairwise_iff_of_pairwise
      (fun (first second : MetaFile) => lt_asymm (a := first.listKey) (b := second.listKey))
      (fun record => Int64.le_refl record.mtime) (indexed.sceneRecords_ordered dir)]
  constructor
  · intro sorted earlier early later late ordered
    obtain ⟨earlierStored, earlierScene⟩ := readable.mem_recordsOfScene_iff.mp early
    obtain ⟨laterStored, laterScene⟩ := readable.mem_recordsOfScene_iff.mp late
    have listed {record : MetaFile} (stored : (catalog codec store.db).get record.md5 = some record)
        (scene : record.scene = dir) : record ∈ sceneRecords codec store.db dir :=
      indexed.mem_sceneRecords_iff.mpr ⟨stored,
        (MetaFile.listedUnder_iff (isHexMd5_of_catalog_get stored) dir).mpr (.inl scene)⟩
    rw [← MetaFile.listKey_lt_iff (earlierScene.trans laterScene.symm) ordered]
    rcases lt_trichotomy earlier.listKey later.listKey with below | same | above
    · exact below
    · have md5 := sceneKey_md5 (isHexMd5_of_catalog_get earlierStored)
        (isHexMd5_of_catalog_get laterStored) same
      rw [md5, laterStored] at earlierStored
      cases earlierStored
      exact (Int64.lt_irrefl ordered).elim
    · have reversed := sorted later (listed laterStored laterScene) earlier
        (listed earlierStored earlierScene) above
      exact (Int64.not_le.mpr ordered reversed).elim
  · intro printed first inside second also below
    by_contra reversed
    have ordered := Int64.not_le.mp reversed
    obtain ⟨firstStored, firstListed⟩ := indexed.mem_sceneRecords_iff.mp inside
    obtain ⟨secondStored, secondListed⟩ := indexed.mem_sceneRecords_iff.mp also
    obtain ⟨firstScene, secondScene⟩ := MetaFile.scene_eq_of_listedUnder
      (isHexMd5_of_catalog_get firstStored) (isHexMd5_of_catalog_get secondStored)
      (plain _ _ firstStored) (plain _ _ secondStored) firstListed secondListed
      (Int64.ne_of_lt ordered).symm
    have above := (MetaFile.listKey_lt_iff (secondScene.trans firstScene.symm) ordered).mpr
      (printed second (readable.mem_recordsOfScene_iff.mpr ⟨secondStored, secondScene⟩) first
        (readable.mem_recordsOfScene_iff.mpr ⟨firstStored, firstScene⟩) ordered)
    exact lt_asymm below above

/-- Times of equally many digits: the listing is in the order of time. -/
theorem listsInTimeOrder_sampleRun :
    (run (step compactCodec) (opened OrderedMap.empty)
      [.saveMeta sampleMeta true, .saveMeta laterMeta true]).ListsInTimeOrder compactCodec
        (bytes "default") := by
  have plain : ∀ op ∈ [MetaOp.saveMeta sampleMeta true, .saveMeta laterMeta true], PlainOp op := by
    decide +kernel
  have permitted : Permitted (step compactCodec) (fun _ op => PlainOp op)
      (opened OrderedMap.empty) [.saveMeta sampleMeta true, .saveMeta laterMeta true] :=
    permitted_of_forall plain
  refine (listsInTimeOrder_iff (Reachable.start.run permitted) (bytes "default")).mpr ?_
  unfold TimesPrintedInOrder recordsOfScene
  rw [catalog_sampleRun]
  decide +kernel

/-- The sample record at time 9 and the later one at time 10. -/
def unpaddedTimes : MetaFile × MetaFile :=
  ({ sampleMeta with mtime := 9 }, { laterMeta with mtime := 10 })

/-- The later of the two files is listed first. -/
theorem not_listsInTimeOrder_unpaddedTimes :
    let ops : List MetaOp := [.saveMeta unpaddedTimes.1 true, .saveMeta unpaddedTimes.2 true]
    let store := run (step compactCodec) (opened OrderedMap.empty) ops
    Permitted (step compactCodec) (fun _ op => PlainOp op) (opened OrderedMap.empty) ops ∧
      store.listDir compactCodec (bytes "default") 0 (-1) 1 = [unpaddedTimes.2, unpaddedTimes.1] ∧
      ¬ store.ListsInTimeOrder compactCodec (bytes "default") := by
  intro ops store
  have plain : ∀ op ∈ ops, PlainOp op := by decide +kernel
  have listed : store.listDir compactCodec (bytes "default") 0 (-1) 1 =
      [unpaddedTimes.2, unpaddedTimes.1] := by
    decide +kernel
  refine ⟨permitted_of_forall plain, listed, fun lists => ?_⟩
  have ascending := lists.1
  rw [listed] at ascending
  exact absurd ascending (by decide)

end MetadataStore

end Cdfs
