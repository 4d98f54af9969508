import Cdfs.Meta.IndexInvariant
import Cdfs.Meta.Statistics

/-! # Concurrent saves

`save_meta` looks the MD5 up before it takes the write lock, so a call is two
atomic steps with other calls in between: the lookup, which ends the call when the
record is there, and the batch with the counters. A write is *raced* when a record
with its MD5 has been stored since the lookup. In a schedule without raced writes
the file count is the number of records and the scene index is exact; every raced
write leaves the count one too high
(`Cdfs.SaveState.savedExactly_of_schedule`).
-/

namespace Cdfs

open Basis

/-- Progress of a `save_meta` call. -/
inductive SavePhase where
  | started
  | checked
  | returned (result : Bool)
  deriving DecidableEq, Repr

/-- One atomic step of the call with the given number. -/
inductive SaveStep where
  | check (call : Nat)
  | commit (call : Nat) (ok : Bool)
  deriving DecidableEq, Repr

/-- The store and the progress of all calls. -/
structure SaveState where
  store : MetadataStore
  phases : List SavePhase

namespace SaveState

variable (codec : JsonCodec) (records : List MetaFile)

/-- All calls started on an empty store. -/
def start : SaveState where
  store := MetadataStore.opened OrderedMap.empty
  phases := records.map fun _ => .started

/-- The record a call is about to write. -/
def writing (state : SaveState) (call : Nat) : Option MetaFile :=
  if state.phases[call]? = some .checked then records[call]? else none

/-- A step of a call; a step that is not the call's next one does nothing. -/
def step (state : SaveState) : SaveStep → SaveState
  | .check call =>
      match state.phases[call]?, records[call]? with
      | some .started, some record =>
          if state.store.db.contains record.md5 then
            { state with phases := state.phases.set call (.returned true) }
          else { state with phases := state.phases.set call .checked }
      | _, _ => state
  | .commit call ok =>
      match state.writing records call with
      | none => state
      | some record =>
          let (result, store) := state.store.commitMeta codec record ok
          { store, phases := state.phases.set call (.returned result) }

/-- The step writes a record whose MD5 is already stored. -/
def raced (state : SaveState) : SaveStep → Bool
  | .commit call true =>
      (state.writing records call).any fun record => state.store.db.contains record.md5
  | _ => false

/-- Every call has returned. -/
def Finished (state : SaveState) : Prop :=
  ∀ phase ∈ state.phases, ∃ result, phase = .returned result

/-- The file count is the number of records, and every MD5 has exactly the scene
entry of its stored record. -/
structure SavedExactly (state : SaveState) : Prop extends SceneExact codec state.store.db where
  fileCount : state.store.getStat.fileCount = UInt64.ofNat (catalog codec state.store.db).size

variable {codec records} {state : SaveState}

/-- A call that writes has a record. -/
theorem exists_of_writing {call : Nat} {record : MetaFile}
    (writing : state.writing records call = some record) : record ∈ records := by
  unfold SaveState.writing at writing
  split at writing
  · exact List.mem_of_getElem? writing
  · cases writing

/-- A call that runs its two steps with nothing in between is `save_meta`. -/
theorem step_commit_step_check {call : Nat} {record : MetaFile} (ok : Bool)
    (fresh : state.phases[call]? = some .started) (named : records[call]? = some record) :
    ((state.step codec records (.check call)).step codec records (.commit call ok)).store =
      (state.store.saveMeta codec record ok).2 := by
  obtain ⟨inside, _⟩ := List.getElem?_eq_some_iff.mp fresh
  have next (phase : SavePhase) : (state.phases.set call phase)[call]? = some phase := by
    rw [List.getElem?_set_self inside]
  unfold MetadataStore.saveMeta
  simp only [SaveState.step, fresh, named]
  cases taken : state.store.db.contains record.md5 with
  | true => simp only [↓reduceIte, SaveState.writing, next, Option.some.injEq, reduceCtorEq]
  | false => simp only [Bool.false_eq_true, ↓reduceIte, SaveState.writing, next, named]

/-- What a step does to the store: nothing, or the write of a record under the
lock. -/
theorem store_step (label : SaveStep) :
    (state.raced records label = false ∧
      (state.step codec records label).store = state.store) ∨
    ∃ record ∈ records, state.raced records label = state.store.db.contains record.md5 ∧
      (state.step codec records label).store = (state.store.commitMeta codec record true).2 := by
  cases label with
  | check call =>
      left
      refine ⟨rfl, ?_⟩
      simp only [SaveState.step]
      split
      · split <;> rfl
      · rfl
  | commit call ok =>
      cases found : state.writing records call with
      | none =>
          left
          simp only [SaveState.step, found, and_true]
          cases ok with
          | false => rfl
          | true => simp only [raced, found, Option.any_none]
      | some record =>
          cases ok with
          | false =>
              left
              simp only [SaveState.step, found]
              exact ⟨rfl, rfl⟩
          | true =>
              right
              refine ⟨record, exists_of_writing found, ?_, ?_⟩
              · simp only [raced, found, Option.any_some]
              · simp only [SaveState.step, found]

/-- A step that is not raced keeps the scene index exact. -/
theorem sceneExact_step (wellFormed : ∀ record ∈ records, record.WellFormed)
    (exact : SceneExact codec state.store.db) {label : SaveStep}
    (free : state.raced records label = false) :
    SceneExact codec (state.step codec records label).store.db := by
  rcases store_step label with ⟨_, same⟩ | ⟨record, member, race, written⟩
  · rw [same]
    exact exact
  · rw [written]
    have absent : state.store.db.get record.md5 = none := by
      rw [free] at race
      exact Option.not_isSome_iff_eq_none.mp (Bool.eq_false_iff.mp race.symm)
    exact exact.saveBatch (wellFormed record member) absent

/-- Every step keeps the database readable. -/
theorem readable_step (wellFormed : ∀ record ∈ records, record.WellFormed)
    (readable : Readable codec state.store.db) (label : SaveStep) :
    Readable codec (state.step codec records label).store.db := by
  rcases store_step label with ⟨_, same⟩ | ⟨record, member, _, written⟩
  · rw [same]
    exact readable
  · rw [written]
    exact readable.saveBatch (wellFormed record member)

/-- A raced step puts the file count one further above the number of records. -/
theorem shortfall_step (wellFormed : ∀ record ∈ records, record.WellFormed)
    (readable : Readable codec state.store.db) (label : SaveStep) :
    fileCountMeasure.shortfall codec (state.step codec records label).store =
      fileCountMeasure.shortfall codec state.store -
        UInt64.ofNat (if state.raced records label then 1 else 0) := by
  rcases store_step label with ⟨race, same⟩ | ⟨record, member, race, written⟩
  · rw [same, race]
    exact (sub_zero _).symm
  · rw [written, race]
    have hex := (wellFormed record member).1
    have taken := readable.catalog_contains hex
    unfold Measure.shortfall
    change fileCountMeasure.full (catalog codec (state.store.db.write _ true)) -
      (state.store.cachedStat.fileCount + 1) = _
    rw [catalog_saveBatch (wellFormed record member)]
    cases found : (catalog codec state.store.db).get record.md5 with
    | none =>
        have fresh : state.store.db.contains record.md5 = false := by
          rw [← taken, OrderedMap.contains, found, Option.isSome_none]
        rw [Measure.full_put_of_get_none _ found, fresh]
        change 1 + _ - (state.store.cachedStat.fileCount + 1) =
          _ - state.store.cachedStat.fileCount - 0
        abel
    | some stored =>
        have present : state.store.db.contains record.md5 = true := by
          rw [← taken, OrderedMap.contains, found, Option.isSome_some]
        have same : fileCountMeasure.weight record.asStored = fileCountMeasure.weight stored := rfl
        rw [Measure.full_put_of_get_some found same, present]
        change _ - (state.store.cachedStat.fileCount + 1) =
          _ - state.store.cachedStat.fileCount - 1
        abel

/-- The number of raced steps of a schedule. -/
def racedCount (codec : JsonCodec) (records : List MetaFile) : SaveState → List SaveStep → Nat
  | _, [] => 0
  | state, label :: schedule =>
      (if state.raced records label then 1 else 0) +
        racedCount codec records (state.step codec records label) schedule

/-- Each step is raced once at most. -/
theorem racedCount_le_length (state : SaveState) (schedule : List SaveStep) :
    racedCount codec records state schedule ≤ schedule.length := by
  induction schedule generalizing state with
  | nil => exact le_rfl
  | cons label schedule ih =>
      have rest := ih (state.step codec records label)
      simp only [racedCount, List.length_cons]
      split <;> omega

/-- A schedule without races is one whose races count none. -/
theorem permitted_iff_racedCount (state : SaveState) (schedule : List SaveStep) :
    Permitted (step codec records) (fun state label => state.raced records label = false)
      state schedule ↔ racedCount codec records state schedule = 0 := by
  induction schedule generalizing state with
  | nil => exact iff_of_true trivial rfl
  | cons label schedule ih =>
      simp only [Permitted, racedCount, ih, Nat.add_eq_zero_iff]
      cases state.raced records label <;> simp

/-- Over a schedule the file count gains one on the number of records for every
raced step. -/
theorem shortfall_run (wellFormed : ∀ record ∈ records, record.WellFormed)
    (readable : Readable codec state.store.db) (schedule : List SaveStep) :
    fileCountMeasure.shortfall codec (run (step codec records) state schedule).store =
      fileCountMeasure.shortfall codec state.store -
        UInt64.ofNat (racedCount codec records state schedule) := by
  induction schedule generalizing state with
  | nil => exact (sub_zero _).symm
  | cons label schedule ih =>
      change fileCountMeasure.shortfall codec
        (run (step codec records) (state.step codec records label) schedule).store = _
      rw [ih (readable_step wellFormed readable label), shortfall_step wellFormed readable,
        racedCount, UInt64.ofNat_add, sub_sub]

/-- Without shortfall the counter is the number of records. -/
theorem shortfall_eq_zero_iff (state : SaveState) :
    fileCountMeasure.shortfall codec state.store = 0 ↔
      state.store.getStat.fileCount = UInt64.ofNat (catalog codec state.store.db).size := by
  rw [Measure.shortfall, sub_eq_zero, Measure.full_fileCountMeasure]
  exact eq_comm

/-- **Saves without raced writes are exact, and only these are.** For any calls and
any interleaving of their steps, after a schedule without raced writes the file
count is the number of records and the scene index is exact; a schedule (shorter than
2^64) with a raced write leaves the count wrong. -/
theorem savedExactly_of_schedule (wellFormed : ∀ record ∈ records, record.WellFormed)
    (schedule : List SaveStep) :
    (Permitted (step codec records) (fun state label => state.raced records label = false)
        (start records) schedule →
      SavedExactly codec (run (step codec records) (start records) schedule)) ∧
    (schedule.length < 2 ^ 64 →
      SavedExactly codec (run (step codec records) (start records) schedule) →
      Permitted (step codec records) (fun state label => state.raced records label = false)
        (start records) schedule) := by
  have readable : Readable codec (start records).store.db := readable_empty
  have count := shortfall_run wellFormed readable schedule
  rw [show fileCountMeasure.shortfall codec (start records).store = 0 from
    Measure.shortfall_opened_empty, zero_sub] at count
  constructor
  · intro permitted
    have reached : Reachable (step codec records)
        (fun state label => state.raced records label = false) (start records)
        (run (step codec records) (start records) schedule) := Reachable.start.run permitted
    have scene := reached.invariant (fun state => SceneExact codec state.store.db)
      sceneExact_empty fun _ _ exact free => sceneExact_step wellFormed exact free
    rw [(permitted_iff_racedCount _ _).mp permitted] at count
    exact ⟨scene, (shortfall_eq_zero_iff _).mp (count.trans neg_zero)⟩
  · intro short exact
    rw [(shortfall_eq_zero_iff _).mpr exact.fileCount] at count
    have none := congrArg UInt64.toNat (neg_eq_zero.mp count.symm)
    rw [UInt64.toNat_ofNat', UInt64.toNat_zero] at none
    have few : racedCount codec records (start records) schedule ≤ schedule.length :=
      racedCount_le_length _ _
    refine (permitted_iff_racedCount _ _).mpr ?_
    omega

/-- Two calls with one MD5 and different scenes. -/
def sameMd5Records : List MetaFile := [sampleMeta, { sampleMeta with scene := bytes "photos" }]

/-- The second call looks the MD5 up after the first has written it. -/
theorem savedExactly_of_sequentialSchedule :
    SavedExactly compactCodec (run (step compactCodec sameMd5Records) (start sameMd5Records)
      [.check 0, .commit 0 true, .check 1]) :=
  (savedExactly_of_schedule (by decide +kernel) [.check 0, .commit 0 true, .check 1]).1
    (by decide +kernel)

/-- Two calls with one MD5 that both look it up before either writes: both return,
and two files are counted for one record. -/
theorem fileCount_of_racedSaves :
    ¬ ∀ (records : List MetaFile) (schedule : List SaveStep),
      (∀ record ∈ records, record.WellFormed) →
      (run (step compactCodec records) (start records) schedule).Finished →
      SavedExactly compactCodec (run (step compactCodec records) (start records) schedule) := by
  intro exact
  have saved := exact sameMd5Records [.check 0, .check 1, .commit 0 true, .commit 1 true]
    (by decide +kernel) (by
      intro phase member
      have all : (run (step compactCodec sameMd5Records) (start sameMd5Records)
        [.check 0, .check 1, .commit 0 true, .commit 1 true]).phases =
          [.returned true, .returned true] := by decide +kernel
      rw [all] at member
      simp only [List.mem_cons, List.not_mem_nil, or_false, or_self] at member
      exact ⟨true, member⟩)
  exact absurd saved.fileCount (by decide +kernel)

end SaveState

end Cdfs
