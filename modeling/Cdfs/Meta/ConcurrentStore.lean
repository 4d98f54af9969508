import Cdfs.Basis.Linearize
import Cdfs.Meta.IndexInvariant
import Cdfs.Meta.Listing
import Cdfs.Meta.Statistics
import Cdfs.Meta.UploadedShards

/-! # Overlapping calls on the metadata store

Calls of several threads overlap on one store. Queries and most changes hold the lock
from their first step to their last, so they happen at once; `save_meta` looks the MD5 up
before it takes the lock, and `update_meta` is a delete followed by a save, each with a
lock of its own. As long as no save comes to its write after its MD5 has been stored by
another call, every call answers as if the calls had taken effect one after the other
(`Cdfs.StoreState.linearized_of_schedule`).
-/

namespace Cdfs

open Basis

/-- The calls that only read, under the shared lock. -/
inductive MetaQuery where
  | getMeta (key : Bytes)
  | exists_ (key : Bytes)
  | listDir (dir : Bytes) (offset limit order : Int)
  | getUploadedShard (fileId : Bytes)
  | getStat

/-- A call of a thread, with the outcomes of its database writes. -/
inductive StoreCall where
  | saveMeta (record : MetaFile) (ok : Bool)
  | updateMeta (record : MetaFile) (deleteOk saveOk : Bool)
  | updateStatus (md5 : Bytes) (status : FileStatus) (ok : Bool)
  | deleteMeta (md5 : Bytes) (ok : Bool)
  | saveMetaShard (shardIndex : UInt32) (fileMd5 shardMd5 : Bytes) (ok : Bool)
  | repairStat
  | query (query : MetaQuery)

/-- What happens on the store at once. -/
inductive StoreOp where
  | change (op : MetaOp)
  | query (query : MetaQuery)

/-- What a call returns, or that it throws. -/
inductive Answer where
  | flag (result : Bool)
  | thrown
  | done
  | record (found : Option MetaFile)
  | records (found : List MetaFile)
  | shards (indices : List UInt32)
  | stat (stat : SystemStat)

namespace MetadataStore

variable (codec : JsonCodec)

/-- What a query returns. -/
def read (store : MetadataStore) : MetaQuery → Answer
  | .getMeta key => .record (store.getMeta codec key)
  | .exists_ key => .flag (store.exists_ codec key)
  | .listDir dir offset limit order => .records (store.listDir codec dir offset limit order)
  | .getUploadedShard fileId => .shards (store.getUploadedShard fileId)
  | .getStat => .stat store.getStat

/-- What a change returns. -/
def changed (store : MetadataStore) : MetaOp → Answer
  | .saveMeta record ok => .flag (store.saveMeta codec record ok).1
  | .updateStatus md5 status ok =>
      match (store.updateStatus codec md5 status ok).1 with
      | some result => .flag result
      | none => .thrown
  | .updateMeta record deleteOk saveOk => .flag (store.updateMeta codec record deleteOk saveOk).1
  | .deleteMeta md5 ok => .flag (store.deleteMeta codec md5 ok).1
  | .saveMetaShard shardIndex fileMd5 shardMd5 ok =>
      .flag (store.saveMetaShard shardIndex fileMd5 shardMd5 ok).1
  | .repairStat => .done
  | .reopen => .done

/-- The store used by one thread alone. -/
def perform (store : MetadataStore) : StoreOp → Answer × MetadataStore
  | .change op => (store.changed codec op, store.step codec op)
  | .query query => (store.read codec query, store)

end MetadataStore

namespace StoreCall

/-- The record a call saves in the end. -/
def saved : StoreCall → Option (MetaFile × Bool)
  | .saveMeta record ok => some (record, ok)
  | .updateMeta record _ saveOk => some (record, saveOk)
  | _ => none

/-- The operations a call takes effect by. -/
def program : StoreCall → List StoreOp
  | .saveMeta record ok => [.change (.saveMeta record ok)]
  | .updateMeta record deleteOk saveOk =>
      [.change (.deleteMeta record.md5 deleteOk), .change (.saveMeta record saveOk)]
  | .updateStatus md5 status ok => [.change (.updateStatus md5 status ok)]
  | .deleteMeta md5 ok => [.change (.deleteMeta md5 ok)]
  | .saveMetaShard shardIndex fileMd5 shardMd5 ok =>
      [.change (.saveMetaShard shardIndex fileMd5 shardMd5 ok)]
  | .repairStat => [.change .repairStat]
  | .query asked => [.query asked]

/-- A save comes last. -/
theorem program_of_saved {call : StoreCall} {record : MetaFile} {ok : Bool}
    (saves : call.saved = some (record, ok)) :
    call.program = call.program.dropLast ++ [.change (.saveMeta record ok)] := by
  cases call with
  | saveMeta | updateMeta =>
      cases saves
      rfl
  | updateStatus | deleteMeta | saveMetaShard | repairStat | query => cases saves

end StoreCall

/-- How far a call has come. -/
inductive CallPhase where
  | started
  /-- `update_meta` has deleted the old record. -/
  | deleted
  /-- The MD5 was not stored; the call waits for the lock to write the record. -/
  | checked
  | finished (answer : Answer)

/-- The store, how far each call has come, and what has taken effect. -/
structure StoreState where
  store : MetadataStore
  phase : Nat → CallPhase
  history : List (Effect Nat StoreOp Answer)

namespace StoreState

variable (codec : JsonCodec) (calls : Nat → StoreCall)

/-- All calls started on a store. -/
def start (store : MetadataStore) : StoreState := ⟨store, fun _ => .started, []⟩

/-- An operation takes effect for a call. -/
def take (state : StoreState) (call : Nat) (op : StoreOp) (answer : Answer) (store : MetadataStore)
    (phase : CallPhase) : StoreState where
  store := store
  phase := Function.update state.phase call phase
  history := state.history ++ [⟨call, op, answer⟩]

/-- A call that holds the lock throughout. -/
def atOnce (state : StoreState) (call : Nat) (op : StoreOp) : StoreState :=
  let performed := state.store.perform codec op
  state.take call op performed.1 performed.2 (.finished performed.1)

/-- The lookup of `save_meta`, before the lock. -/
def lookUp (state : StoreState) (call : Nat) (record : MetaFile) (ok : Bool) : StoreState :=
  if state.store.db.contains record.md5 then
    state.take call (.change (.saveMeta record ok)) (.flag true) state.store (.finished (.flag true))
  else { state with phase := Function.update state.phase call .checked }

/-- The write of `save_meta`, under the lock. -/
def commit (state : StoreState) (call : Nat) (record : MetaFile) (ok : Bool) : StoreState :=
  let committed := state.store.commitMeta codec record ok
  state.take call (.change (.saveMeta record ok)) (.flag committed.1) committed.2
    (.finished (.flag committed.1))

/-- The first step of a call. -/
def beginCall (state : StoreState) (call : Nat) : StoreCall → StoreState
  | .saveMeta record ok => state.lookUp call record ok
  | .updateMeta record deleteOk _ =>
      let op := .change (.deleteMeta record.md5 deleteOk)
      let performed := state.store.perform codec op
      state.take call op performed.1 performed.2 .deleted
  | .updateStatus md5 status ok => state.atOnce codec call (.change (.updateStatus md5 status ok))
  | .deleteMeta md5 ok => state.atOnce codec call (.change (.deleteMeta md5 ok))
  | .saveMetaShard shardIndex fileMd5 shardMd5 ok =>
      state.atOnce codec call (.change (.saveMetaShard shardIndex fileMd5 shardMd5 ok))
  | .repairStat => state.atOnce codec call (.change .repairStat)
  | .query query => state.atOnce codec call (.query query)

/-- The next step of a call; a finished call has none. -/
def step (state : StoreState) (call : Nat) : StoreState :=
  match state.phase call, (calls call).saved with
  | .started, _ => state.beginCall codec call (calls call)
  | .deleted, some (record, ok) => state.lookUp call record ok
  | .checked, some (record, ok) => state.commit codec call record ok
  | _, _ => state

/-- The call is about to write a record whose MD5 has been stored since it looked. -/
def overtaken (state : StoreState) (call : Nat) : Bool :=
  match state.phase call, (calls call).saved with
  | .checked, some (record, _) => state.store.db.contains record.md5
  | _, _ => false

/-- What a call has taken effect by, as far as it has come. -/
def Progress (call : StoreCall) : CallPhase → List (StoreOp × Answer) → Prop
  | .started, done => done = []
  | .deleted, done => done.map Prod.fst = call.program.dropLast
  | .checked, done => done.map Prod.fst = call.program.dropLast
  | .finished answer, done =>
      done.map Prod.fst = call.program ∧ done.getLast?.map Prod.snd = some answer

/-- The history explains the state: its operations, performed one after the other, give
its answers and lead to the store, and each call has taken effect by its own operations,
in their order, and answers what the last of them answered. -/
structure Linearized (before : MetadataStore) (state : StoreState) : Prop where
  replays : Replays (MetadataStore.perform codec) before state.history state.store
  progress : ∀ call, Progress (calls call) (state.phase call) (doneBy call state.history)

variable {codec calls} {before : MetadataStore} {state : StoreState}

/-- Before the first step nothing has been done. -/
theorem linearized_start (store : MetadataStore) : Linearized codec calls store (start store) where
  replays := .start
  progress := fun _ => rfl

namespace Linearized

/-- A call takes effect the way the store does. -/
theorem take (linearized : Linearized codec calls before state) (call : Nat) {op : StoreOp}
    {answer : Answer} {store : MetadataStore} {phase : CallPhase}
    (performed : state.store.perform codec op = (answer, store))
    (moved : Progress (calls call) phase (doneBy call state.history ++ [(op, answer)])) :
    Linearized codec calls before (state.take call op answer store phase) where
  replays := linearized.replays.snoc call performed
  progress := by
    intro other
    by_cases same : other = call
    · subst same
      simpa only [StoreState.take, Function.update_self, doneBy_snoc_self] using moved
    · simpa only [StoreState.take, Function.update_of_ne same, doneBy_snoc_of_ne (Ne.symm same)]
        using linearized.progress other

/-- A call whose last operation takes effect has answered. -/
theorem finish (linearized : Linearized codec calls before state) (call : Nat) {op : StoreOp}
    {answer : Answer} {store : MetadataStore}
    (performed : state.store.perform codec op = (answer, store))
    (done : (doneBy call state.history).map Prod.fst = (calls call).program.dropLast)
    (last : (calls call).program = (calls call).program.dropLast ++ [op]) :
    Linearized codec calls before (state.take call op answer store (.finished answer)) := by
  refine linearized.take call performed ⟨?_, ?_⟩
  · rw [List.map_append, done]
    exact last.symm
  · simp

/-- A call done in one step is linearized there. -/
theorem atOnce (linearized : Linearized codec calls before state) {call : Nat} {op : StoreOp}
    (started : doneBy call state.history = []) (program : (calls call).program = [op]) :
    Linearized codec calls before (state.atOnce codec call op) := by
  refine linearized.finish call rfl ?_ ?_
  · rw [started, program]
    rfl
  · rw [program]
    rfl

/-- Looking the MD5 up is the whole save when it is stored, and changes nothing otherwise. -/
theorem lookUp (linearized : Linearized codec calls before state) {call : Nat} {record : MetaFile}
    {ok : Bool} (saves : (calls call).saved = some (record, ok))
    (done : (doneBy call state.history).map Prod.fst = (calls call).program.dropLast) :
    Linearized codec calls before (state.lookUp call record ok) := by
  unfold StoreState.lookUp
  split
  · rename_i stored
    refine linearized.finish call ?_ done (StoreCall.program_of_saved saves)
    simp only [MetadataStore.perform, MetadataStore.changed, MetadataStore.step,
      MetadataStore.saveMeta, stored, ↓reduceIte]
  · refine ⟨linearized.replays, fun other => ?_⟩
    by_cases same : other = call
    · subst same
      simp only [Function.update_self]
      exact done
    · simp only [Function.update_of_ne same]
      exact linearized.progress other

/-- The write is the whole save when the MD5 is still not stored. -/
theorem commit (linearized : Linearized codec calls before state) {call : Nat} {record : MetaFile}
    {ok : Bool} (saves : (calls call).saved = some (record, ok))
    (done : (doneBy call state.history).map Prod.fst = (calls call).program.dropLast)
    (absent : state.store.db.contains record.md5 = false) :
    Linearized codec calls before (state.commit codec call record ok) := by
  have whole : state.store.saveMeta codec record ok = state.store.commitMeta codec record ok :=
    if_neg (Bool.eq_false_iff.mp absent)
  have performed : state.store.perform codec (.change (.saveMeta record ok)) =
      (.flag (state.store.commitMeta codec record ok).1,
        (state.store.commitMeta codec record ok).2) := by
    simp only [MetadataStore.perform, MetadataStore.changed, MetadataStore.step, whole]
  exact linearized.finish call performed done (StoreCall.program_of_saved saves)

/-- A step of a call that has not been overtaken. -/
theorem step (linearized : Linearized codec calls before state) {call : Nat}
    (inTime : state.overtaken calls call = false) :
    Linearized codec calls before (state.step codec calls call) := by
  have progress := linearized.progress call
  unfold StoreState.step
  unfold overtaken at inTime
  split
  · rename_i started
    rw [started] at progress
    have untouched : doneBy call state.history = [] := progress
    cases named : calls call with
    | saveMeta record ok =>
        refine linearized.lookUp (by rw [named]; rfl) ?_
        rw [untouched, named]
        rfl
    | updateMeta record deleteOk saveOk =>
        refine linearized.take call rfl ?_
        rw [untouched, named]
        rfl
    | updateStatus | deleteMeta | saveMetaShard | repairStat | query =>
        exact linearized.atOnce untouched (by rw [named]; rfl)
  · rename_i record ok deleted saves
    rw [deleted] at progress
    exact linearized.lookUp saves progress
  · rename_i record ok checked saves
    rw [checked] at progress
    rw [checked, saves] at inTime
    exact linearized.commit saves progress inTime
  · exact linearized

end Linearized

/-- The call has answered. -/
def Finished (state : StoreState) (call : Nat) : Prop := ∃ answer, state.phase call = .finished answer

/-- What a step of a call can do to the state. -/
inductive Moved (codec : JsonCodec) (calls : Nat → StoreCall) (state : StoreState) (call : Nat) :
    StoreState → Prop where
  | idle (inTime : state.overtaken calls call = false) : Moved codec calls state call state
  | waits (inTime : state.overtaken calls call = false) (unfinished : ¬ state.Finished call) :
      Moved codec calls state call { state with phase := Function.update state.phase call .checked }
  | takes {op : StoreOp} {phase : CallPhase} (inTime : state.overtaken calls call = false)
      (unfinished : ¬ state.Finished call) (own : op ∈ (calls call).program) :
      Moved codec calls state call
        (state.take call op (state.store.perform codec op).1 (state.store.perform codec op).2 phase)
  | overtakes {record : MetaFile} {ok : Bool} (late : state.overtaken calls call = true)
      (unfinished : ¬ state.Finished call) (saves : (calls call).saved = some (record, ok))
      (stored : state.store.db.contains record.md5 = true) :
      Moved codec calls state call (state.commit codec call record ok)

theorem not_finished_of_phase {call : Nat} {phase : CallPhase} (here : state.phase call = phase)
    (unfinished : ∀ answer, phase ≠ .finished answer) : ¬ state.Finished call :=
  fun ⟨answer, there⟩ => unfinished answer (here.symm.trans there)

/-- A call that saves a record has this save in its program. -/
theorem mem_program_of_saved {call : StoreCall} {record : MetaFile} {ok : Bool}
    (saves : call.saved = some (record, ok)) : StoreOp.change (.saveMeta record ok) ∈ call.program := by
  rw [StoreCall.program_of_saved saves]
  exact List.mem_append_right _ List.mem_cons_self

/-- The lookup of a save has no effect of its own unless it returns. -/
theorem lookUp_moved {call : Nat} {record : MetaFile} {ok : Bool}
    (inTime : state.overtaken calls call = false) (unfinished : ¬ state.Finished call)
    (saves : (calls call).saved = some (record, ok)) :
    Moved codec calls state call (state.lookUp call record ok) := by
  unfold lookUp
  split
  · rename_i stored
    have whole : state.store.saveMeta codec record ok = (true, state.store) := if_pos stored
    have took := @Moved.takes codec calls state call _ (.finished (.flag true)) inTime unfinished
      (mem_program_of_saved saves)
    simpa only [MetadataStore.perform, MetadataStore.changed, MetadataStore.step, whole] using took
  · exact .waits inTime unfinished

/-- The write of a save is where it takes effect. -/
theorem commit_moved {call : Nat} {record : MetaFile} {ok : Bool}
    (waiting : state.phase call = .checked) (saves : (calls call).saved = some (record, ok)) :
    Moved codec calls state call (state.commit codec call record ok) := by
  have unfinished := not_finished_of_phase waiting (by simp)
  have late : state.overtaken calls call = state.store.db.contains record.md5 := by
    unfold overtaken
    rw [waiting, saves]
  cases stored : state.store.db.contains record.md5 with
  | true => exact .overtakes (late.trans stored) unfinished saves stored
  | false =>
      have whole : state.store.saveMeta codec record ok = state.store.commitMeta codec record ok :=
        if_neg (Bool.eq_false_iff.mp stored)
      have took := @Moved.takes codec calls state call _
        (.finished (.flag (state.store.commitMeta codec record ok).1)) (late.trans stored) unfinished
        (mem_program_of_saved saves)
      simp only [MetadataStore.perform, MetadataStore.changed, MetadataStore.step, whole] at took
      exact took

/-- Every step in time is one of the moves. -/
theorem step_moved (call : Nat) : Moved codec calls state call (state.step codec calls call) := by
  have early {phase : CallPhase} (here : state.phase call = phase) (other : phase ≠ .checked) :
      state.overtaken calls call = false := by
    unfold overtaken
    split
    · rename_i waiting _
      exact absurd (here.symm.trans waiting) other
    · rfl
  unfold step
  split
  · rename_i started
    have unfinished := not_finished_of_phase started (by simp)
    have inTime := early started (by simp)
    cases named : calls call with
    | saveMeta record ok => exact lookUp_moved inTime unfinished (by rw [named]; rfl)
    | updateMeta | updateStatus | deleteMeta | saveMetaShard | repairStat | query =>
        refine .takes inTime unfinished ?_
        rw [named]
        exact List.mem_cons_self
  · rename_i record ok deleted saves
    exact lookUp_moved (early deleted (by simp)) (not_finished_of_phase deleted (by simp)) saves
  · rename_i record ok waiting saves
    exact commit_moved waiting saves
  · rename_i other
    refine .idle ?_
    unfold overtaken
    split
    · rename_i record ok waiting saves
      exact (other record ok waiting saves).elim
    · rfl

/-- A step adds effects of its own call at the end of the history, and nothing once the call
has answered. -/
theorem history_step (call : Nat) :
    ∃ later, (state.step codec calls call).history = state.history ++ later ∧
      ∀ effect ∈ later, effect.call = call ∧ ¬ state.Finished call := by
  have moved := @step_moved codec calls state call
  generalize state.step codec calls call = next at moved
  cases moved with
  | idle | waits => exact ⟨[], (List.append_nil _).symm, fun _ member => nomatch member⟩
  | takes _ unfinished | overtakes _ unfinished =>
      refine ⟨_, rfl, fun effect member => ?_⟩
      rw [List.mem_singleton.mp member]
      exact ⟨rfl, unfinished⟩

/-- An answer is final. -/
theorem Finished.step {call : Nat} (finished : state.Finished call) (other : Nat) :
    (state.step codec calls other).Finished call := by
  have moved := @step_moved codec calls state other
  generalize state.step codec calls other = next at moved
  cases moved with
  | idle => exact finished
  | waits _ unfinished | takes _ unfinished | overtakes _ unfinished =>
      have different : call ≠ other := fun same => unfinished (same ▸ finished)
      obtain ⟨answer, here⟩ := finished
      exact ⟨answer, (Function.update_of_ne different _ _).trans here⟩

/-- What takes effect over a schedule belongs to calls that had not answered before it. -/
theorem history_run (schedule : List Nat) :
    ∃ later, (run (step codec calls) state schedule).history = state.history ++ later ∧
      ∀ effect ∈ later, ¬ state.Finished effect.call := by
  induction schedule generalizing state with
  | nil => exact ⟨[], (List.append_nil _).symm, fun _ member => absurd member List.not_mem_nil⟩
  | cons call schedule ih =>
      obtain ⟨now, added, own⟩ := @history_step codec calls state call
      obtain ⟨later, rest, unfinished⟩ := @ih (state.step codec calls call)
      refine ⟨now ++ later, ?_, fun effect member => ?_⟩
      · rw [← List.append_assoc, ← added]
        exact rest
      · rcases List.mem_append.mp member with here | there
        · rw [(own effect here).1]
          exact (own effect here).2
        · exact fun finished => unfinished effect there (finished.step call)

/-- **Overlapping calls take effect one after the other.** Whatever the calls of any number
of threads and whatever the order of their steps, as long as no save is overtaken the
history explains the store and every answer; and what takes effect after a moment belongs
to calls that had not answered by then, so the order of the history is one of calls that
do not overlap. -/
theorem linearized_of_schedule {first second : List Nat}
    (inTime : Permitted (step codec calls) (fun state call => state.overtaken calls call = false)
      (start before) (first ++ second)) :
    let middle := run (step codec calls) (start before) first
    let final := run (step codec calls) (start before) (first ++ second)
    Linearized codec calls before final ∧
      ∃ later, final.history = middle.history ++ later ∧
        ∀ effect ∈ later, ¬ middle.Finished effect.call := by
  intro middle final
  have reached := Reachable.start.run inTime
  refine ⟨reached.invariant (Linearized codec calls before) (linearized_start before)
    fun _ _ linearized inTime => linearized.step inTime, ?_⟩
  have rest := @history_run codec calls middle second
  rwa [← run_append] at rest

/-- A save, an update of the same record, and a query for it. -/
def sampleCalls : Nat → StoreCall
  | 0 => .saveMeta sampleMeta true
  | 1 => .updateMeta { sampleMeta with size := 2048 } true true
  | _ => .query (.getMeta sampleMeta.md5)

/-- The query comes between the delete and the save of the update and finds nothing. -/
theorem linearized_of_sampleCalls :
    Linearized compactCodec sampleCalls (.opened OrderedMap.empty)
      (run (step compactCodec sampleCalls) (start (.opened OrderedMap.empty)) [0, 0, 1, 2, 1, 1]) :=
  (@linearized_of_schedule compactCodec sampleCalls (.opened OrderedMap.empty) [0, 0, 1] [2, 1, 1]
    (by decide +kernel)).1

end StoreState

end Cdfs
