import Cdfs.Basis.Calls
import Cdfs.Store.WritePlaces

/-! # Saving up to the first fault

As long as no call has failed, saving data at a path reaches its attempt to publish at a
call that the tree fixes (`Cdfs.FileStore.openCall`). So every later call can be made to
fail, and the outcome follows from that of the attempt (`Cdfs.FileStore.ends_saveFileAt`).
-/

namespace Cdfs

open Basis FsPath

namespace FileStore

variable {host : Host} {machine : Machine} {fullPath data : Bytes} {number : Fin 900000}

/-- A host on which the given calls fail, no removal does, and every random number is the
same. -/
def plainHost (fault : Nat → Fault) (number : Fin 900000) : Host where
  fault := fault
  removeFault := fun _ => false
  removedFirst := fun _ _ => false
  random := fun _ => number
  order := fun _ names => names
  order_perm := fun _ _ => .rfl

/-- No call fails. -/
def steadyHost (number : Fin 900000) : Host := plainHost (fun _ => .none) number

/-- One call fails, before anything has been written, and is noticed. -/
def failingHost (call : Nat) (number : Fin 900000) : Host :=
  plainHost (fun other => if other = call then .fails 0 true else .none) number

theorem steadyHost_reliable (number : Fin 900000) : (steadyHost number).Reliable :=
  ⟨fun _ => rfl, fun _ => rfl⟩

theorem calmBefore_of_reliable (reliable : host.Reliable) (call : Nat) : host.CalmBefore call :=
  fun earlier _ => reliable.fault earlier

theorem calmBefore_failingHost (call : Nat) : (failingHost call number).CalmBefore call :=
  fun _ before => if_neg (Nat.ne_of_lt before)

/-! ## The quick check -/

/-- How many calls the quick check makes on a file or on nothing. -/
def checkCalls (disk : Disk) (fullPath : Bytes) : Nat :=
  if disk.look fullPath = none then 1 else 2

/-- A calm check of a file compares its size. -/
theorem alreadyWritten_calm_file {content : Bytes} (size : Nat)
    (found : machine.disk.look fullPath = some (.file content))
    (calm : host.CalmBefore (machine.calls + checkCalls machine.disk fullPath)) :
    Ends (alreadyWritten host fullPath size) machine fun result final =>
      result = .ok (decide (content.length = size)) ∧ final.disk = machine.disk ∧
      final.calls = machine.calls + checkCalls machine.disk fullPath := by
  have two : checkCalls machine.disk fullPath = 2 :=
    if_neg (by rw [found]; exact Option.some_ne_none _)
  rw [two] at calm ⊢
  unfold alreadyWritten
  apply Ends.bind (Fs.exists_calm calm (by omega) fullPath)
  · rintro _ middle ⟨returned, rfl⟩
    cases returned
    rw [found, Option.isSome_some, if_pos rfl]
    have later : (Fs.begun machine [fullPath]).calls < machine.calls + 2 := Nat.lt_succ_self _
    have kept : (Fs.begun machine [fullPath]).disk.look fullPath = some (.file content) := found
    apply Ends.bind (Fs.fileSize_calm calm later kept)
    · rintro _ final ⟨returned, rfl⟩
      cases returned
      exact ⟨rfl, rfl, rfl⟩
    · rintro _ _ ⟨returned, _⟩
      cases returned
  · rintro _ _ ⟨returned, _⟩
    cases returned

/-- A calm check of nothing is false. -/
theorem alreadyWritten_calm_absent (size : Nat) (absent : machine.disk.look fullPath = none)
    (calm : host.CalmBefore (machine.calls + checkCalls machine.disk fullPath)) :
    Ends (alreadyWritten host fullPath size) machine fun result final =>
      result = .ok false ∧ final.disk = machine.disk ∧
      final.calls = machine.calls + checkCalls machine.disk fullPath := by
  have one : checkCalls machine.disk fullPath = 1 := if_pos absent
  rw [one] at calm ⊢
  unfold alreadyWritten
  apply Ends.bind (Fs.exists_calm calm (Nat.lt_succ_self _) fullPath)
  · rintro _ middle ⟨returned, rfl⟩
    cases returned
    rw [absent]
    exact ⟨rfl, rfl, rfl⟩
  · rintro _ _ ⟨returned, _⟩
    cases returned

/-- In both cases in which the write is attempted the check is false. -/
theorem alreadyWritten_calm_attempts (attempts : Attempts machine.disk fullPath data)
    (calm : host.CalmBefore (machine.calls + checkCalls machine.disk fullPath)) :
    Ends (alreadyWritten host fullPath data.length) machine fun result final =>
      result = .ok false ∧ final.disk = machine.disk ∧
      final.calls = machine.calls + checkCalls machine.disk fullPath := by
  cases found : machine.disk.look fullPath with
  | none => exact alreadyWritten_calm_absent _ found calm
  | some entry =>
      cases entry with
      | dir => exact absurd found attempts.1
      | file content =>
          have other := decide_eq_false (attempts.2 content found)
          exact other ▸ alreadyWritten_calm_file data.length found calm

/-! ## The whole save -/

section Save

variable {config : StoreConfig} {relPath : Bytes} {tree : Disk}
  {post : Except Exn Bool → Machine → Prop}

/-- The call with which an attempt to publish starts, when saving at a path. -/
def openCall (machine : Machine) (tree : Disk) (fullPath : Bytes) : Nat :=
  machine.calls + machine.disk.createCalls (parentPath fullPath) + checkCalls tree fullPath +
    (tree.lookedAt (parentPath fullPath)).length + 1

/-- The directories have been created and no call has failed yet. -/
theorem ends_saveFileAt_created (accepted : ¬ (find relPath (bytes "..") 0).isSome)
    (created : machine.disk.created (parentPath (join config.rootDir relPath)) = some tree)
    (calm : host.CalmBefore (machine.calls +
      machine.disk.createCalls (parentPath (join config.rootDir relPath))))
    (rest : ∀ middle : Machine, middle.disk = tree →
      middle.calls = machine.calls +
        machine.disk.createCalls (parentPath (join config.rootDir relPath)) →
      Fs.Settled tree (parentPath (join config.rootDir relPath)) →
      Ends (writeDisk host (join config.rootDir relPath) data) middle fun result final =>
        ∃ success, result = .ok success ∧ if success then post (.ok true) final
          else Ends (tryCatch (Fs.remove host (join config.rootDir relPath)) fun _ => return ⟨⟩)
            final fun removed last => removed = .ok ⟨⟩ ∧ post (.ok false) last) :
    Ends (saveFileAt host config data relPath) machine post := by
  unfold saveFileAt
  rw [if_neg accepted]
  apply Ends.bind ((Fs.createDirectories_calm created calm).and (Fs.createDirectories_ends _))
  · rintro _ middle ⟨⟨returned, same, calls⟩, _, _, again, settled⟩
    cases returned
    cases again
    rw [if_pos rfl]
    apply Ends.bind (rest middle same calls (same ▸ settled rfl))
    · rintro success written ⟨_, returned, ended⟩
      cases returned
      cases success with
      | true => exact ended
      | false =>
          rw [if_neg Bool.false_ne_true] at ended ⊢
          apply Ends.bind ended
          · exact fun _ last removed => removed.2
          · rintro _ _ ⟨returned, _⟩
            cases returned
    · rintro _ _ ⟨_, returned, _⟩
      cases returned
  · rintro _ _ ⟨⟨returned, _⟩, _⟩
    cases returned

/-- No call has failed up to the attempt to publish, which decides the outcome. -/
theorem ends_saveFileAt (accepted : ¬ (find relPath (bytes "..") 0).isSome)
    (created : machine.disk.created (parentPath (join config.rootDir relPath)) = some tree)
    (attempts : Attempts tree (join config.rootDir relPath) data)
    (calm : host.CalmBefore (openCall machine tree (join config.rootDir relPath)))
    (drawn : ∀ call, host.random call = number)
    (rest : ∀ middle : Machine, middle.disk = tree →
      middle.calls = openCall machine tree (join config.rootDir relPath) →
      Ends (publish host (tempPath (join config.rootDir relPath) (100000 + number.val))
        (join config.rootDir relPath) data) middle fun result final =>
          ∃ success, result = .ok success ∧ if success then post (.ok true) final
            else Ends (tryCatch (Fs.remove host (join config.rootDir relPath)) fun _ => return ⟨⟩)
              final fun removed last => removed = .ok ⟨⟩ ∧ post (.ok false) last) :
    Ends (saveFileAt host config data relPath) machine post := by
  unfold openCall at calm
  refine ends_saveFileAt_created accepted created (calm.mono (by omega)) ?_
  intro middle same calls settled
  rw [← calls, ← same] at calm
  rw [← same] at settled attempts
  unfold writeDisk
  apply Ends.bind (alreadyWritten_calm_attempts attempts (calm.mono (by omega)))
  · rintro _ checked ⟨returned, unchanged, checkedCalls⟩
    cases returned
    rw [if_neg Bool.false_ne_true]
    rw [← unchanged] at settled calm
    apply Ends.bind (Fs.createDirectories_calm_settled settled
      (calm.mono (by rw [unchanged, checkedCalls]; omega)))
    · rintro _ again ⟨_, kept, againCalls⟩
      unfold Fs.randomNumber
      simp only [bind_assoc, pure_bind]
      apply Fs.ends_ask
      apply Fs.ends_begin
      rw [drawn]
      refine Ends.tryCatch (rest (Fs.begun again []) ?_ ?_) ?_ ?_
      · exact kept.trans (unchanged.trans same)
      · rw [openCall, ← same, ← calls]
        change again.calls + 1 = _
        rw [againCalls, checkedCalls, unchanged]
      · exact fun _ _ ended => ended
      · rintro _ _ ⟨_, returned, _⟩
        cases returned
    · rintro _ _ ⟨⟨_, returned⟩, _⟩
      cases returned
  · rintro _ _ ⟨returned, _⟩
    cases returned

end Save

/-! ## A chunk to save again -/

/-- A store with the first chunk of a file, with `hello` in it. -/
def chunkDisk : Disk where
  cwd := [bytes "srv"]
  tree := ((((((OrderedMap.empty.put [] .dir).put [bytes "srv"] .dir).put
    [bytes "srv", bytes "data"] .dir).put [bytes "srv", bytes "data", bytes "store"] .dir).put
    [bytes "srv", bytes "data", bytes "store", bytes "_tmp"] .dir).put
    [bytes "srv", bytes "data", bytes "store", bytes "_tmp", bytes "abc"] .dir).put
    [bytes "srv", bytes "data", bytes "store", bytes "_tmp", bytes "abc", bytes "0"]
    (.file (bytes "hello"))

end FileStore

end Cdfs
