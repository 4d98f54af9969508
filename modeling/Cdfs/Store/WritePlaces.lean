import Cdfs.Basis.Created
import Cdfs.Store.WriteDisk

/-! # Which entries a write can change

Whatever call fails, `write_disk` changes the entries of the target and of the temporary
file only (`Cdfs.FileStore.writePlaces`), and when it reports success after renaming, the
data is at the target and the temporary file is gone (`Cdfs.FileStore.Placed`).
-/

namespace Cdfs

open Basis FsPath

namespace FileStore

variable {host : Host} {machine : Machine} {fullPath temporary data : Bytes}
  {places : Set (List Bytes)}

theorem writable_of_touched {before after : Disk}
    (touched : Disk.Touched places before after) {path : Bytes} (writable : Writable before path) :
    Writable after path := by
  intro place resolved directory
  rw [touched.resolve] at resolved
  exact writable place resolved (touched.noNewDirs place directory)

/-! ## Single calls -/

/-- Removing what is not a directory. -/
theorem remove_touched {path : Bytes} (writable : Writable machine.disk path)
    (inside : ∀ place, machine.disk.resolve path = some place → place ∈ places) :
    Ends (Fs.remove host path) machine fun _ final =>
      Disk.Touched places machine.disk final.disk := by
  refine (Fs.remove_ends path).mono fun result final ended => ?_
  cases result with
  | error thrown => exact ended.1 ▸ .refl _
  | ok value =>
      rcases ended with ⟨_, same⟩ | ⟨resolved, erased⟩
      · exact same ▸ .refl _
      · rw [erased]
        exact .erase (inside _ resolved) (writable _ resolved)

theorem discard_touched (writable : Writable machine.disk fullPath)
    (inside : ∀ place, machine.disk.resolve fullPath = some place → place ∈ places) :
    Ends (discard host fullPath) machine fun result final =>
      Disk.Touched places machine.disk final.disk ∧ result ≠ .ok true := by
  unfold discard
  apply Ends.bind (remove_touched writable inside)
  · rintro _ middle touched
    apply Ends.bind (Fs.fileSize_ends fullPath)
    · rintro size final ⟨same, _⟩
      exact ⟨same ▸ touched, nofun⟩
    · rintro thrown final ⟨same, _⟩
      exact ⟨same ▸ touched, nofun⟩
  · exact fun thrown final touched => ⟨touched, nofun⟩

/-- The check reports success on a file of the right size only, and leaves it alone. -/
theorem verifyWritten_touched (size : Nat) (writable : Writable machine.disk fullPath)
    (inside : ∀ place, machine.disk.resolve fullPath = some place → place ∈ places) :
    Ends (verifyWritten host fullPath size) machine fun result final =>
      Disk.Touched places machine.disk final.disk ∧ (result = .ok true →
        final.disk = machine.disk ∧ ∃ content, machine.disk.look fullPath = some (.file content) ∧
          content.length = size) := by
  have discarded {middle : Machine} (same : middle.disk = machine.disk) :
      Ends (discard host fullPath) middle fun result final =>
        Disk.Touched places machine.disk final.disk ∧ (result = .ok true →
          final.disk = machine.disk ∧ ∃ content, machine.disk.look fullPath = some (.file content) ∧
            content.length = size) := by
    rw [← same] at writable inside ⊢
    refine (discard_touched writable inside).mono ?_
    exact fun result final ⟨touched, failed⟩ => ⟨touched, fun success => absurd success failed⟩
  unfold verifyWritten
  apply Ends.bind (Fs.status_ends fullPath)
  · rintro entry middle ⟨same, rfl⟩
    refine Ends.ite (fun _ => ?_) fun _ => discarded same
    apply Ends.bind (Fs.fileSize_ends fullPath)
    · rintro written later ⟨unchanged, content, there, rfl⟩
      have total := unchanged.trans same
      rw [same] at there
      exact Ends.ite (fun equal => ⟨total ▸ .refl _, fun _ => ⟨total, content, there, equal⟩⟩)
        fun _ => discarded total
    · rintro thrown final ⟨unchanged, _⟩
      exact ⟨unchanged.trans same ▸ .refl _, nofun⟩
  · rintro thrown final ⟨same, _⟩
    exact ⟨same ▸ .refl _, nofun⟩

/-! ## Publishing -/

/-- The entries that writing a path through a temporary file can change. -/
def writePlaces (disk : Disk) (fullPath temporary : Bytes) : Set (List Bytes) :=
  {place | disk.resolve fullPath = some place ∨ disk.resolve temporary = some place}

/-- The data stands at the target; the temporary file, which could be opened, is gone. -/
structure Placed (data fullPath temporary : Bytes) (before after : Disk) : Prop where
  hasFile : HasFile after fullPath data
  touched : Disk.Touched {location before.cwd fullPath, location before.cwd temporary} before after
  resolved : before.resolve temporary = some (location before.cwd temporary)
  gone : location before.cwd temporary ≠ location before.cwd fullPath →
    after.node (location before.cwd temporary) = none

theorem rename_placed {start : Disk} {content : Bytes}
    (written : Rewritten temporary content start machine.disk) :
    Ends (Fs.rename host temporary fullPath) machine fun result final =>
      Disk.Touched (writePlaces start fullPath temporary) start final.disk ∧
        (result = .ok ⟨⟩ → Placed content fullPath temporary start final.disk) := by
  have opened := written.hasFile.1
  rw [written.resolve, written.cwd] at opened
  have only : Disk.Touched (writePlaces start fullPath temporary) start machine.disk := by
    refine written.touched.mono fun place here => ?_
    rw [Set.mem_singleton_iff.mp here]
    exact .inr opened
  refine ((Fs.rename_ends temporary fullPath).and (rename_rewritten written)).mono ?_
  rintro result final ⟨renamed, present⟩
  cases result with
  | error thrown => exact ⟨present ▸ only, nofun⟩
  | ok value =>
      obtain ⟨content', _, resolved, _, stored⟩ := renamed
      rw [written.resolve, written.cwd] at resolved
      have placed : Placed content fullPath temporary start final.disk := by
        refine ⟨present.1, present.2, opened, fun different => ?_⟩
        rw [stored, written.cwd, Disk.node_put_of_ne _ _ (Ne.symm different), Disk.node_erase_self]
      refine ⟨present.2.mono fun place here => ?_, fun _ => placed⟩
      rcases here with rfl | here
      · exact .inl resolved
      · rw [Set.mem_singleton_iff.mp here]
        exact .inr opened

/-- An attempt to publish changes the target and the temporary file only. -/
theorem publish_touched (writable : Writable machine.disk fullPath) :
    Ends (publish host temporary fullPath data) machine fun result final =>
      Disk.Touched (writePlaces machine.disk fullPath temporary) machine.disk final.disk ∧
        (result = .ok true → Placed data fullPath temporary machine.disk final.disk) := by
  unfold publish
  apply Ends.bind openTruncate_rewritten
  · rintro success opened ⟨_, returned, ended⟩
    cases returned
    cases success with
    | false => exact ⟨ended ▸ .refl _, nofun⟩
    | true =>
        rw [if_pos rfl]
        apply Ends.bind (append_rewritten ended)
        · rintro good appended ⟨_, more, returned, written, front, _⟩
          cases returned
          have resolves := written.hasFile.1
          rw [written.resolve, written.cwd] at resolves
          have only : Disk.Touched (writePlaces machine.disk fullPath temporary) machine.disk
              appended.disk := by
            refine written.touched.mono fun place here => ?_
            rw [Set.mem_singleton_iff.mp here]
            exact .inr resolves
          cases good with
          | false =>
              rw [if_neg Bool.false_ne_true]
              have beside (place : List Bytes)
                  (resolved : appended.disk.resolve temporary = some place) :
                  place ∈ writePlaces machine.disk fullPath temporary :=
                .inr (only.resolve temporary ▸ resolved)
              apply Ends.bind (remove_touched written.hasFile.writable beside)
              · exact fun _ final touched => ⟨only.trans touched, nofun⟩
              · exact fun _ final touched => ⟨only.trans touched, nofun⟩
          | true =>
              rw [if_pos rfl]
              apply Ends.bind (rename_placed written)
              · rintro _ renamed ⟨touched, placed⟩
                have placed := placed rfl
                have target (place : List Bytes)
                    (resolved : renamed.disk.resolve fullPath = some place) :
                    place ∈ writePlaces machine.disk fullPath temporary :=
                  .inl (touched.resolve fullPath ▸ resolved)
                refine (verifyWritten_touched data.length
                  (writable_of_touched touched writable) target).mono ?_
                rintro result final ⟨checked, success⟩
                refine ⟨touched.trans checked, fun succeeded => ?_⟩
                obtain ⟨same, content, there, size⟩ := success succeeded
                rw [placed.hasFile.look] at there
                cases there
                rw [List.nil_append] at size placed
                rw [same, ← front.eq_of_length size]
                exact placed
              · exact fun thrown final ⟨touched, _⟩ => ⟨touched, nofun⟩
        · rintro _ _ ⟨_, _, returned, _⟩
          cases returned
  · rintro _ _ ⟨_, returned, _⟩
    cases returned

/-! ## Writing -/

/-- The quick check has failed and an attempt to publish follows. -/
def Attempts (disk : Disk) (fullPath data : Bytes) : Prop :=
  disk.look fullPath ≠ some .dir ∧
    ∀ content, disk.look fullPath = some (.file content) → content.length ≠ data.length

/-- What `write_disk` has done, by its result. -/
structure WriteResult (data fullPath : Bytes) (before : Disk) (result : Except Exn Bool)
    (after : Disk) : Prop where
  changed : after = before ∨ Attempts before fullPath data ∧ ∃ number : Fin 900000, Disk.Touched
    (writePlaces before fullPath (tempPath fullPath (100000 + number.val))) before after
  succeeded : result = .ok true → after = before ∧
      (∃ content, before.look fullPath = some (.file content) ∧ content.length = data.length) ∨
    Attempts before fullPath data ∧ ∃ number : Fin 900000,
      Placed data fullPath (tempPath fullPath (100000 + number.val)) before after
  failed : result = .ok false → Attempts before fullPath data

/-- `write_disk` with the directories being there, whatever call fails. -/
theorem writeDisk_result (settled : Fs.Settled machine.disk (parentPath fullPath)) :
    Ends (writeDisk host fullPath data) machine fun result final =>
      WriteResult data fullPath machine.disk result final.disk := by
  unfold writeDisk
  apply Ends.bind ((alreadyWritten_ends data.length).and (alreadyWritten_false data.length))
  · rintro written checked ⟨⟨same, found⟩, _, different⟩
    cases written with
    | true =>
        obtain ⟨content, file, size⟩ := found
        exact ⟨.inl same, fun _ => .inl ⟨same, content, file, size⟩, nofun⟩
    | false =>
        have attempts : Attempts machine.disk fullPath data := different rfl
        rw [← same] at settled attempts ⊢
        apply Ends.bind (Fs.createDirectories_settled settled)
        · rintro _ created ⟨unchanged, _⟩
          rw [← unchanged] at attempts ⊢
          unfold Fs.randomNumber
          simp only [bind_assoc, pure_bind]
          apply Fs.ends_ask
          apply Fs.ends_begin
          generalize host.random created.calls = number
          have kept : (Fs.begun created []).disk = created.disk := rfl
          rw [← kept] at attempts ⊢
          apply Ends.tryCatch (publish_touched (writable_of_look attempts.1))
          · rintro success final ⟨touched, placed⟩
            exact ⟨.inr ⟨attempts, number, touched⟩,
              fun success => .inr ⟨attempts, number, placed success⟩, fun _ => attempts⟩
          · rintro thrown left ⟨touched, _⟩
            have target (place : List Bytes) (resolved : left.disk.resolve fullPath = some place) :
                place ∈ writePlaces created.disk fullPath
                  (tempPath fullPath (100000 + number.val)) :=
              .inl (touched.resolve fullPath ▸ resolved)
            apply Ends.bind (remove_touched (writable_of_touched touched
              (writable_of_look attempts.1)) target)
            · exact fun _ final removed =>
                ⟨.inr ⟨attempts, number, touched.trans removed⟩, nofun, fun _ => attempts⟩
            · exact fun _ final removed =>
                ⟨.inr ⟨attempts, number, touched.trans removed⟩, nofun, nofun⟩
        · rintro _ _ ⟨_, _, returned⟩
          cases returned
  · rintro thrown final ⟨⟨same, _⟩, _⟩
    exact ⟨.inl same, nofun, nofun⟩

/-! ## Saving at a path -/

/-- Removing the target once more after a failed write. -/
theorem remove_result {before : Disk}
    (written : WriteResult data fullPath before (.ok false) machine.disk) :
    Ends (Fs.remove host fullPath) machine fun _ final =>
      WriteResult data fullPath before (.ok false) final.disk := by
  have attempts := written.failed rfl
  obtain ⟨number, touched⟩ : ∃ number : Fin 900000, Disk.Touched
      (writePlaces before fullPath (tempPath fullPath (100000 + number.val))) before machine.disk := by
    rcases written.changed with same | ⟨_, touched⟩
    · exact ⟨0, same ▸ .refl _⟩
    · exact touched
  have target (place : List Bytes) (resolved : machine.disk.resolve fullPath = some place) :
      place ∈ writePlaces before fullPath (tempPath fullPath (100000 + number.val)) :=
    .inl (touched.resolve fullPath ▸ resolved)
  refine (remove_touched (writable_of_touched touched (writable_of_look attempts.1)) target).mono ?_
  intro _ final removed
  exact ⟨.inr ⟨attempts, number, touched.trans removed⟩, nofun, fun _ => attempts⟩

/-- What `save_file` of data at a path has done, by its result: unless it rejects the path
or fails to create the directories, it writes in the tree that has them. -/
inductive SaveResult (config : StoreConfig) (data relPath : Bytes) (before : Disk)
    (result : Except Exn Bool) (after : Disk) : Prop where
  | rejected (dots : (find relPath (bytes "..") 0).isSome) (failed : result = .ok false)
      (same : after = before)
  | uncreated (failed : result = .ok false) (grown : Disk.Grown before after)
  | written {tree : Disk} (accepted : ¬ (find relPath (bytes "..") 0).isSome)
      (created : before.created (parentPath (join config.rootDir relPath)) = some tree)
      (written : WriteResult data (join config.rootDir relPath) tree result after)

/-- Saving data at a path, whatever call fails. -/
theorem saveFileAt_result (config : StoreConfig) (relPath : Bytes) :
    Ends (saveFileAt host config data relPath) machine fun result final =>
      SaveResult config data relPath machine.disk result final.disk := by
  unfold saveFileAt
  refine Ends.ite (fun dots => .rejected dots rfl rfl) fun accepted => ?_
  apply Ends.bind ((Fs.createDirectories_ends _).and (Fs.createDirectories_created _))
  · rintro made middle ⟨⟨grown, _, returned, settled⟩, _, again, created, _⟩
    cases returned
    cases again
    cases made with
    | false => exact .uncreated rfl grown
    | true =>
        have created := created rfl
        rw [if_pos rfl]
        apply Ends.bind (writeDisk_result (settled rfl))
        · rintro success written result
          cases success with
          | true => exact .written accepted created result
          | false =>
              rw [if_neg Bool.false_ne_true]
              have removed : Ends (tryCatch (Fs.remove host (join config.rootDir relPath)) fun _ =>
                  return ⟨⟩) written fun ended final => ended = .ok ⟨⟩ ∧
                    WriteResult data (join config.rootDir relPath) middle.disk (.ok false)
                      final.disk := by
                apply Ends.tryCatch (remove_result result)
                · exact fun _ final again => ⟨rfl, again⟩
                · exact fun _ final again => ⟨rfl, again⟩
              apply Ends.bind removed
              · exact fun _ final ended => .written accepted created ended.2
              · rintro _ _ ⟨returned, _⟩
                cases returned
        · exact fun thrown final result => .written accepted created result
  · rintro thrown final ⟨⟨_, _, returned, _⟩, _⟩
    cases returned

end FileStore

end Cdfs
