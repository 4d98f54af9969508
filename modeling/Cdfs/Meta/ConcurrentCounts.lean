import Cdfs.Meta.ConcurrentStore

/-! # The statistics under overlapping calls

Every change counts what it does, under the lock. A save that is overtaken writes over the
record of another call and counts it once more, so the file count exceeds the number of
records by the number of such writes, whatever else overlaps with them
(`Cdfs.StoreState.counts_of_schedule`).
-/

namespace Cdfs

open Basis

/-- The changes of a call are well formed and none of them is a recount. -/
def StoreCall.Incremental (call : StoreCall) : Prop :=
  ∀ op, StoreOp.change op ∈ call.program → op.Incremental

namespace StoreState

variable (codec : JsonCodec) (calls : Nat → StoreCall)

/-- The call writes over a record that was stored after it looked. -/
def overwrites (state : StoreState) (call : Nat) : Bool :=
  state.overtaken calls call && (calls call).saved.any Prod.snd

/-- How often a schedule has a save write over a record. -/
def overwriteCount : StoreState → List Nat → Nat
  | _, [] => 0
  | state, call :: schedule =>
      (state.overwrites calls call).toNat + overwriteCount (state.step codec calls call) schedule

/-- The statistics are those of the records, and the scene index is exact. -/
structure Exact (state : StoreState) : Prop extends StatExact codec state.store where
  scene : SceneExact codec state.store.db

variable {codec calls} {state : StoreState}

/-- What a step does to the store: nothing, a change of the call, or a write over a stored
record. -/
theorem store_step (call : Nat) :
    (state.overwrites calls call = false ∧
      ((state.step codec calls call).store = state.store ∨
        ∃ op, StoreOp.change op ∈ (calls call).program ∧
          (state.step codec calls call).store = state.store.step codec op)) ∨
    (state.overwrites calls call = true ∧
      ∃ record, StoreOp.change (.saveMeta record true) ∈ (calls call).program ∧
        state.store.db.contains record.md5 = true ∧
        (state.step codec calls call).store = (state.store.commitMeta codec record true).2) := by
  have moved := @step_moved codec calls state call
  generalize state.step codec calls call = next at moved
  unfold overwrites
  cases moved with
  | idle inTime | waits inTime =>
      rw [inTime]
      exact .inl ⟨rfl, .inl rfl⟩
  | @takes op phase inTime unfinished own =>
      rw [inTime]
      refine .inl ⟨rfl, ?_⟩
      cases op with
      | change op => exact .inr ⟨op, own, rfl⟩
      | query => exact .inl rfl
  | @overtakes record ok late unfinished saves stored =>
      rw [late, saves]
      cases ok with
      | false => exact .inl ⟨rfl, .inl rfl⟩
      | true => exact .inr ⟨rfl, record, mem_program_of_saved saves, stored, rfl⟩

/-- Writing over a record leaves the number of records and counts one more. -/
theorem shortfall_commitMeta {store : MetadataStore} (readable : Readable codec store.db)
    {record : MetaFile} (wellFormed : record.WellFormed)
    (stored : store.db.contains record.md5 = true) :
    fileCountMeasure.shortfall codec (store.commitMeta codec record true).2 =
      fileCountMeasure.shortfall codec store - 1 := by
  rw [← readable.catalog_contains wellFormed.1] at stored
  obtain ⟨older, present⟩ := Option.isSome_iff_exists.mp stored
  have same : fileCountMeasure.weight record.asStored = fileCountMeasure.weight older := rfl
  unfold Measure.shortfall
  change fileCountMeasure.full (catalog codec (store.db.write _ true)) -
    (store.cachedStat.fileCount + 1) = _ - store.cachedStat.fileCount - 1
  rw [catalog_saveBatch wellFormed, Measure.full_put_of_get_some present same]
  abel

theorem readable_step (incremental : ∀ call, (calls call).Incremental)
    (readable : Readable codec state.store.db) (call : Nat) :
    Readable codec (state.step codec calls call).store.db := by
  rcases @store_step codec calls state call with
    ⟨_, same | ⟨op, own, stepped⟩⟩ | ⟨_, record, own, _, written⟩
  · rw [same]
    exact readable
  · rw [stepped]
    exact MetadataStore.readable_step readable (incremental call op own).1
  · rw [written]
    exact readable.saveBatch (incremental call _ own).1

/-- A step that writes over no record keeps every counter as far from the records as it was. -/
theorem shortfall_step_of_not_overwrites (incremental : ∀ call, (calls call).Incremental)
    (readable : Readable codec state.store.db) (measure : Measure) {call : Nat}
    (keeps : state.overwrites calls call = false) :
    measure.shortfall codec (state.step codec calls call).store =
      measure.shortfall codec state.store := by
  rcases @store_step codec calls state call with
    ⟨_, same | ⟨op, own, stepped⟩⟩ | ⟨late, _⟩
  · rw [same]
  · obtain ⟨wellFormed, notRecount, notReopen⟩ := incremental call op own
    rw [stepped]
    exact Measure.shortfall_step readable wellFormed notRecount notReopen
  · rw [keeps] at late
    cases late

theorem shortfall_step (incremental : ∀ call, (calls call).Incremental)
    (readable : Readable codec state.store.db) (call : Nat) :
    fileCountMeasure.shortfall codec (state.step codec calls call).store =
      fileCountMeasure.shortfall codec state.store -
        UInt64.ofNat (state.overwrites calls call).toNat := by
  cases late : state.overwrites calls call with
  | false =>
      rw [shortfall_step_of_not_overwrites incremental readable _ late]
      exact (sub_zero _).symm
  | true =>
      rcases @store_step codec calls state call with ⟨keeps, _⟩ | ⟨_, record, own, stored, written⟩
      · rw [late] at keeps
        cases keeps
      · rw [written]
        exact shortfall_commitMeta readable (incremental call _ own).1 stored

/-- Over a schedule the file count gains one on the number of records for every write over
a record. -/
theorem shortfall_run (incremental : ∀ call, (calls call).Incremental)
    (readable : Readable codec state.store.db) (schedule : List Nat) :
    fileCountMeasure.shortfall codec (run (step codec calls) state schedule).store =
      fileCountMeasure.shortfall codec state.store -
        UInt64.ofNat (overwriteCount codec calls state schedule) := by
  induction schedule generalizing state with
  | nil => exact (sub_zero _).symm
  | cons call schedule ih =>
      change fileCountMeasure.shortfall codec
        (run (step codec calls) (state.step codec calls call) schedule).store = _
      rw [ih (readable_step incremental readable call), shortfall_step incremental readable,
        overwriteCount, UInt64.ofNat_add, sub_sub]

/-- What a schedule without such writes keeps. -/
structure Kept (codec : JsonCodec) (state : StoreState) : Prop where
  scene : SceneExact codec state.store.db
  counted : ∀ measure : Measure, measure.shortfall codec state.store = 0

theorem Kept.step (incremental : ∀ call, (calls call).Incremental) (kept : Kept codec state)
    {call : Nat} (keeps : state.overwrites calls call = false) :
    Kept codec (state.step codec calls call) where
  scene := by
    rcases @store_step codec calls state call with
      ⟨_, same | ⟨op, own, stepped⟩⟩ | ⟨late, _⟩
    · rw [same]
      exact kept.scene
    · rw [stepped]
      exact MetadataStore.sceneExact_step kept.scene (incremental call op own).1
    · rw [keeps] at late
      cases late
  counted := fun measure =>
    (shortfall_step_of_not_overwrites incremental kept.scene.readable measure keeps).trans
      (kept.counted measure)

theorem Kept.run (incremental : ∀ call, (calls call).Incremental) (kept : Kept codec state)
    {schedule : List Nat} (none : overwriteCount codec calls state schedule = 0) :
    Kept codec (run (StoreState.step codec calls) state schedule) := by
  induction schedule generalizing state with
  | nil => exact kept
  | cons call schedule ih =>
      obtain ⟨here, later⟩ := Nat.add_eq_zero_iff.mp none
      exact ih (kept.step incremental (Bool.toNat_eq_zero.mp here)) later

/-- **What overlapping calls count.** For any calls of any number of threads and any order
of their steps, the file count is the number of records and of writes over a record
together, as a 64-bit number; without such writes the statistics are those of the records
and the scene index is exact. -/
theorem counts_of_schedule (incremental : ∀ call, (calls call).Incremental)
    (schedule : List Nat) :
    let first := start (.opened OrderedMap.empty)
    let final := run (step codec calls) first schedule
    final.store.getStat.fileCount = UInt64.ofNat
        ((catalog codec final.store.db).size + overwriteCount codec calls first schedule) ∧
      (overwriteCount codec calls first schedule = 0 → final.Exact codec) := by
  intro first final
  have readable : Readable codec first.store.db := readable_empty
  have zero (measure : Measure) : measure.shortfall codec first.store = 0 :=
    Measure.shortfall_opened_empty
  have count := shortfall_run incremental readable schedule
  rw [zero, zero_sub, Measure.shortfall, Measure.full_fileCountMeasure, sub_eq_iff_eq_add,
    neg_add_eq_sub, eq_sub_iff_add_eq, ← UInt64.ofNat_add] at count
  refine ⟨count.symm, fun none => ?_⟩
  have kept : Kept codec final := Kept.run incremental ⟨sceneExact_empty, zero⟩ none
  exact ⟨.of_shortfall kept.scene.readable kept.counted, kept.scene⟩

/-- Two saves of one MD5 for different scenes, and queries. -/
def racingCalls : Nat → StoreCall
  | 0 => .saveMeta sampleMeta true
  | 1 => .saveMeta { sampleMeta with scene := bytes "photos" } true
  | _ => .query .getStat

theorem incremental_racingCalls (call : Nat) : (racingCalls call).Incremental := by
  intro op own
  rcases call with _ | _ | call
  · cases List.mem_singleton.mp own
    exact ⟨wellFormed_sampleMeta, by simp, by simp⟩
  · cases List.mem_singleton.mp own
    exact ⟨by decide +kernel, by simp, by simp⟩
  · cases List.mem_singleton.mp own

/-- Both saves look before either writes: one record, two files counted. -/
theorem fileCount_of_racingCalls :
    let final := run (step compactCodec racingCalls) (start (.opened OrderedMap.empty)) [0, 1, 0, 1]
    (catalog compactCodec final.store.db).size = 1 ∧ final.store.getStat.fileCount = 2 := by
  intro final
  obtain ⟨one, raced⟩ : (catalog compactCodec final.store.db).size = 1 ∧
      overwriteCount compactCodec racingCalls (start (.opened OrderedMap.empty))
        [0, 1, 0, 1] = 1 := by
    decide +kernel
  have counted := (@counts_of_schedule compactCodec racingCalls incremental_racingCalls [0, 1, 0, 1]).1
  refine ⟨one, counted.trans ?_⟩
  rw [show run _ _ _ = final from rfl, one, raced]
  rfl

end StoreState

end Cdfs
