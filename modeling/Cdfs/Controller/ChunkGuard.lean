import Cdfs.Basis.Below
import Cdfs.Controller.FileCtlRules
import Cdfs.Store.StoreAccesses

/-! # The guard of the chunk upload

`save_file` refuses the path of a chunk when two dots stand side by side in it. The path
starts with the temporary directory, so this test is enough: whatever the client sends as
MD5 and chunk, the target, its temporary file and the directories above them stay within
the root directory.
-/

namespace Cdfs

open Basis FsPath

namespace FileStore

variable {host : Host} {machine : Machine} {allowed : Bytes → Prop} {config : StoreConfig}
  {data relPath : Bytes}

/-- What saving a chunk accesses: its path, its temporary file and the directories above. -/
theorem saveFileAt_logs (target : allowed (join config.rootDir relPath))
    (beside : ∀ number, allowed (tempPath (join config.rootDir relPath) number))
    (above : ∀ other ∈ machine.disk.lookedAt (parentPath (join config.rootDir relPath)),
      allowed other) :
    Ends (saveFileAt host config data relPath) machine fun _ final =>
      Fs.Logs allowed machine final := by
  unfold saveFileAt
  refine Ends.ite (fun _ => Fs.Logs.refl machine) fun _ => ?_
  apply Ends.bind ((Fs.createDirectories_logs _ above).and (Fs.createDirectories_ends _))
  · rintro created middle ⟨⟨logs, _⟩, grown, _⟩
    have later : ∀ other ∈ middle.disk.lookedAt (parentPath (join config.rootDir relPath)),
        allowed other := fun other member =>
      above other (Disk.lookedAt_subset (fun _ => grown.look_eq_none) _ member)
    refine Ends.ite (fun _ => ?_) fun _ => logs
    apply Ends.bind (writeDisk_logs target beside later)
    · intro success written rest
      refine Ends.ite (fun _ => logs.trans rest) fun _ => ?_
      have removal : Fs.OnlyLogs allowed (do
          tryCatch (Fs.remove host (join config.rootDir relPath)) fun _ => return ⟨⟩
          return false) :=
        .bind (.tryCatch (.of_access (fun _ => Fs.remove_accesses _) target) fun _ => .pure _)
          fun _ => .pure _
      exact (removal written).mono fun _ _ last => (logs.trans rest).trans last
    · exact fun _ _ rest => logs.trans rest
  · exact fun _ _ ended => ended.1.1

end FileStore

namespace FileCtl

variable {env : Env} {server : Server} {md5 chunk : Bytes}

theorem chunkPath_ne_nil (env : Env) (md5 chunk : Bytes) : chunkPath env md5 chunk ≠ [] := by
  rw [chunkPath_cons]
  simp

/-- The path of a chunk that the guard lets through. -/
theorem downward_chunkPath
    (accepted : (find (chunkPath env md5 chunk) (bytes "..") 0).isSome = false) :
    Downward (chunkPath env md5 chunk) where
  relative := by
    rw [chunkPath_cons, isAbsolute_append env.config.isName_tempDir.1]
    exact isAbsolute_of_not_mem env.config.isName_tempDir.2.2.2.1
  plain := by
    intro dots
    obtain ⟨index, occurs⟩ := exists_occursAt dots
    rw [Option.isSome_eq_false_iff, Option.isNone_iff_eq_none, find, if_pos (Nat.zero_le _),
      Option.map_eq_none_iff, List.drop_zero, firstOccurrence_eq_none_iff] at accepted
    exact accepted index occurs

/-- The directory of a chunk is a shorter path of the same kind. -/
theorem exists_parentPath_chunk (down : Downward (chunkPath env md5 chunk)) :
    ∃ above, Downward above ∧ parentPath (join env.config.rootDir (chunkPath env md5 chunk)) =
      join env.config.rootDir above := by
  have name := env.config.isName_tempDir
  have parts : components (chunkPath env md5 chunk) =
      env.config.tempDir :: components (md5 ++ 47 :: chunk) := by
    rw [chunkPath_cons, components_append, components_of_not_mem name.2.2.2.1,
      List.singleton_append]
  exact down.parentPath env.config.rootDir_ne_nil parts name.1 (components_ne_nil _)

theorem within_tempPath_chunk (down : Downward (chunkPath env md5 chunk)) (cwd : List Bytes)
    (number : Nat) : Within cwd env.config.rootDir
      (FileStore.tempPath (join env.config.rootDir (chunkPath env md5 chunk)) number) := by
  have suffix := FileStore.isName_append_temp List.not_mem_nil List.not_mem_nil number
  rw [List.nil_append] at suffix
  have relative : isAbsolute (chunkPath env md5 chunk ++ (bytes ".tmp." ++ decimal number)) = false := by
    rw [isAbsolute_append (chunkPath_ne_nil env md5 chunk)]
    exact down.relative
  have same : FileStore.tempPath (join env.config.rootDir (chunkPath env md5 chunk)) number =
      join env.config.rootDir (chunkPath env md5 chunk ++ (bytes ".tmp." ++ decimal number)) := by
    rw [FileStore.tempPath, join_of_relative relative, join_of_relative down.relative]
    simp only [List.append_assoc]
  have long : 2 < (bytes ".tmp." ++ decimal number).length := by
    rw [List.length_append]
    exact Nat.lt_of_lt_of_le (by decide) (Nat.le_add_right ..)
  rw [same]
  exact down.within_append (chunkPath_ne_nil env md5 chunk) env.config.rootDir_ne_nil
    env.config.zero_not_mem_rootDir long suffix.2.2.2.1 suffix.2.2.2.2

/-- Below an existing root directory saving a chunk stays inside, refused or not. -/
theorem saveChunk_logs {host : Host} {machine : Machine} {data : Bytes}
    (found : machine.disk.look env.config.rootDir = some .dir) :
    Ends (FileStore.saveFileAt host env.config data (chunkPath env md5 chunk)) machine
      fun _ final => Fs.Logs (Within machine.disk.cwd env.config.rootDir) machine final := by
  cases rejected : (find (chunkPath env md5 chunk) (bytes "..") 0).isSome with
  | true =>
      unfold FileStore.saveFileAt
      rw [if_pos rejected]
      exact Fs.Logs.refl machine
  | false =>
      have nonempty := env.config.rootDir_ne_nil
      have plain := env.config.zero_not_mem_rootDir
      have down := downward_chunkPath rejected
      refine FileStore.saveFileAt_logs (down.within nonempty plain)
        (within_tempPath_chunk down machine.disk.cwd) ?_
      obtain ⟨above, lower, parent⟩ := exists_parentPath_chunk down
      rw [parent]
      exact fun other member => Disk.within_of_mem_lookedAt nonempty plain found lower member

/-- **The guard is sufficient.** A chunk path that is not refused, its temporary file and
every directory named by its first components lie at or below the root directory; and when
the root directory is there, as the constructor of the store leaves it, all that saving the
chunk looks at or creates does. -/
theorem chunk_within (accepted : (find (chunkPath env md5 chunk) (bytes "..") 0).isSome = false) :
    (∀ cwd, Within cwd env.config.rootDir (join env.config.rootDir (chunkPath env md5 chunk)) ∧
      (∀ number, Within cwd env.config.rootDir
        (FileStore.tempPath (join env.config.rootDir (chunkPath env md5 chunk)) number)) ∧
      ∀ front, front ≠ [] → front <+: components (chunkPath env md5 chunk) →
        Within cwd env.config.rootDir (join env.config.rootDir (render front))) ∧
    ∀ (host : Host) (machine : Machine) (data : Bytes),
      machine.disk.look env.config.rootDir = some .dir →
      Ends (FileStore.saveFileAt host env.config data (chunkPath env md5 chunk)) machine
        fun _ final => Fs.Logs (Within machine.disk.cwd env.config.rootDir) machine final := by
  have down := downward_chunkPath accepted
  have nonempty := env.config.rootDir_ne_nil
  have plain := env.config.zero_not_mem_rootDir
  constructor
  · intro cwd
    refine ⟨down.within nonempty plain, within_tempPath_chunk down cwd, ?_⟩
    exact fun front some early => (down.render some early).within nonempty plain
  · exact fun host machine data found => saveChunk_logs found

/-- An MD5 that looks absolute, and a chunk that ends in a dot. -/
theorem chunk_within_sample : Within [bytes "srv"] sampleEnv.config.rootDir
    (FileStore.tempPath (join sampleEnv.config.rootDir
      (chunkPath sampleEnv (bytes "/etc//./x") (bytes "a/."))) 123456) :=
  ((chunk_within (by decide +kernel)).1 [bytes "srv"]).2.1 123456

/-- No request for a chunk upload leaves an existing root directory. -/
theorem handleChunkUpload_logs (ctx : HttpContext)
    (found : server.machine.disk.look env.config.rootDir = some .dir) :
    Ends (handleChunkUpload env ctx) server fun _ final =>
      Fs.Logs (Within server.machine.disk.cwd env.config.rootDir) server.machine final.machine := by
  have sending {reply : Reply} {middle : Server} (logs : Fs.Logs
      (Within server.machine.disk.cwd env.config.rootDir) server.machine middle.machine) :
      Ends (send env reply) middle fun _ final =>
        Fs.Logs (Within server.machine.disk.cwd env.config.rootDir) server.machine final.machine := by
    refine (send_ends reply).mono ?_
    rintro _ _ ⟨rfl, _⟩
    exact logs
  unfold handleChunkUpload
  dsimp only
  refine Ends.ite (fun _ => sending (.refl _)) fun _ => ?_
  apply Ends.bind (onDisk_ends (saveChunk_logs found))
  · rintro success middle ⟨logs, _⟩
    exact Ends.ite (fun _ => sending logs) fun _ => sending logs
  · rintro thrown final ⟨logs, _⟩
    exact logs

end FileCtl

end Cdfs
