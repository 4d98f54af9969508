import Cdfs.Store.CalmSave
import Cdfs.Store.ReliableWrite

/-! # When a save succeeds

On a reliable file system `save_file` stores an upload, or finds it stored, exactly if the tree
lets it (`Cdfs.FileStore.Storable`): something is at the path already, or the directories above
it can be created and then the data can be written there. Whether it can depends on the suffix
drawn for the temporary file, because a directory may stand under its name.
-/

namespace Cdfs

open Basis FsPath

namespace FileStore

variable {host : Host} {machine : Machine} {fullPath data : Bytes}

/-- `write_disk` succeeds: a file of the size of the data is there, or the path leads to no
directory and the temporary file can be opened beside it. -/
def Writes (tree : Disk) (fullPath data : Bytes) (number : Nat) : Prop :=
  (∃ content, tree.look fullPath = some (.file content) ∧ content.length = data.length) ∨
    tree.look fullPath ≠ some .dir ∧ Opens tree (tempPath fullPath number)

/-- The number that `write_disk` draws after this many calls, when the directories are there. -/
def drawnNumber (host : Host) (calls : Nat) (tree : Disk) (fullPath : Bytes) : Nat :=
  100000 + (host.random (calls + checkCalls tree fullPath +
    (tree.lookedAt (parentPath fullPath)).length)).val

/-- `save_file` stores the data at the path, or finds something stored there. -/
def Storable (host : Host) (machine : Machine) (fullPath data : Bytes) : Prop :=
  machine.disk.look fullPath ≠ none ∨
    ∃ tree, machine.disk.created (parentPath fullPath) = some tree ∧
      Writes tree fullPath data (drawnNumber host
        (machine.calls + 1 + machine.disk.createCalls (parentPath fullPath)) tree fullPath)

/-- On a directory the quick check throws. -/
theorem alreadyWritten_dir (size : Nat) (directory : machine.disk.look fullPath = some .dir) :
    Ends (alreadyWritten host fullPath size) machine fun result _ => ∃ thrown, result = .error thrown := by
  refine ((alreadyWritten_ends size).and (alreadyWritten_false size)).mono ?_
  rintro result final ⟨⟨_, ended⟩, _, free⟩
  cases result with
  | error thrown => exact ⟨thrown, rfl⟩
  | ok written =>
      cases written with
      | false => exact absurd directory (free rfl).1
      | true =>
          obtain ⟨content, found, _⟩ := ended
          rw [directory] at found
          cases found

/-- Behind a quick check that fails, the suffix decides. -/
theorem writeDisk_attempts_iff (reliable : host.Reliable) (nonempty : fullPath ≠ [])
    (settled : Fs.Settled machine.disk (parentPath fullPath))
    (attempts : Attempts machine.disk fullPath data) :
    Ends (writeDisk host fullPath data) machine fun result _ => result = .ok true ↔
      Opens machine.disk (tempPath fullPath (drawnNumber host machine.calls machine.disk fullPath)) := by
  have calm (call : Nat) : host.CalmBefore call := calmBefore_of_reliable reliable call
  unfold writeDisk
  apply Ends.bind (alreadyWritten_calm_attempts attempts (calm _))
  · rintro _ checked ⟨returned, same, calls⟩
    cases returned
    rw [if_neg Bool.false_ne_true]
    rw [← same] at settled
    apply Ends.bind (Fs.createDirectories_calm_settled settled (calm _))
    · rintro _ created ⟨_, unchanged, counted⟩
      unfold Fs.randomNumber
      simp only [bind_assoc, pure_bind]
      apply Fs.ends_ask
      apply Fs.ends_begin
      have total : (Fs.begun created []).disk = machine.disk := unchanged.trans same
      rw [counted, calls, same]
      have writable : Writable (Fs.begun created []).disk fullPath :=
        total ▸ writable_of_look attempts.1
      apply Ends.tryCatch (publish_reliable reliable nonempty writable _)
      · rintro success final (⟨succeeded, opens, _⟩ | ⟨failed, closed, _⟩)
        · rw [total] at opens
          exact iff_of_true succeeded opens
        · rw [total] at closed
          cases failed
          exact iff_of_false nofun closed
      · rintro thrown final (⟨returned, _⟩ | ⟨returned, _⟩)
        · cases returned
        · cases returned
    · rintro _ _ ⟨⟨_, returned⟩, _⟩
      cases returned
  · rintro _ _ ⟨returned, _⟩
    cases returned

/-- When `write_disk` succeeds, the directories being there. -/
theorem writeDisk_writes_iff (reliable : host.Reliable) (nonempty : fullPath ≠ [])
    (settled : Fs.Settled machine.disk (parentPath fullPath)) :
    Ends (writeDisk host fullPath data) machine fun result _ => result = .ok true ↔
      Writes machine.disk fullPath data (drawnNumber host machine.calls machine.disk fullPath) := by
  by_cases attempts : Attempts machine.disk fullPath data
  · refine (writeDisk_attempts_iff reliable nonempty settled attempts).mono ?_
    rintro result _ decided
    rw [decided]
    refine ⟨fun opens => .inr ⟨attempts.1, opens⟩, ?_⟩
    rintro (⟨content, found, size⟩ | ⟨_, opens⟩)
    · exact absurd size (attempts.2 content found)
    · exact opens
  · unfold writeDisk
    cases found : machine.disk.look fullPath with
    | none => exact absurd ⟨by rw [found]; exact nofun, by rw [found]; exact nofun⟩ attempts
    | some entry =>
        cases entry with
        | dir =>
            apply Ends.bind (alreadyWritten_dir data.length found)
            · rintro _ _ ⟨_, returned⟩
              cases returned
            · rintro thrown final _
              refine iff_of_false nofun ?_
              rintro (⟨content, there, _⟩ | ⟨free, _⟩)
              · rw [found] at there
                cases there
              · exact free found
        | file content =>
            have size : content.length = data.length := by
              by_contra other
              refine attempts ⟨by rw [found]; exact nofun, fun again there => ?_⟩
              rw [found] at there
              cases there
              exact other
            apply Ends.bind (alreadyWritten_calm_file data.length found
              (calmBefore_of_reliable reliable _))
            · rintro _ checked ⟨returned, _⟩
              cases returned
              rw [decide_eq_true size, if_pos rfl]
              exact iff_of_true rfl (.inl ⟨content, found, size⟩)
            · rintro _ _ ⟨returned, _⟩
              cases returned

/-- With nothing at the path it is up to the tree with the directories. -/
theorem storable_iff {tree : Disk} (absent : machine.disk.look fullPath = none)
    (made : machine.disk.created (parentPath fullPath) = some tree) :
    Storable host machine fullPath data ↔ Writes tree fullPath data (drawnNumber host
      (machine.calls + 1 + machine.disk.createCalls (parentPath fullPath)) tree fullPath) := by
  constructor
  · rintro (present | ⟨other, again, writes⟩)
    · exact absurd absent present
    · rw [made] at again
      cases again
      exact writes
  · exact fun writes => .inr ⟨tree, made, writes⟩

/-- When `save_file` stores an upload. -/
theorem saveFile_storable_iff (reliable : host.Reliable) (digest : Bytes → Digest)
    (config : StoreConfig) {filename scene md5 rel : Bytes}
    (placed : relPath filename (if md5.isEmpty then md5Hex digest data else md5) = .ok rel)
    (nonempty : join (join config.rootDir scene) rel ≠ []) :
    Ends (saveFile host digest config filename data scene md5) machine fun result _ =>
      result = .ok (some (join scene rel)) ↔
        Storable host machine (join (join config.rootDir scene) rel) data := by
  have calm (call : Nat) : host.CalmBefore call := calmBefore_of_reliable reliable call
  unfold saveFile
  dsimp only
  rw [placed]
  dsimp only
  apply Ends.bind (Fs.exists_calm (calm (machine.calls + 1)) (Nat.lt_succ_self _) _)
  · rintro _ checked ⟨returned, begun⟩
    cases returned
    have same : checked.disk = machine.disk := by rw [begun]; rfl
    have counted : checked.calls = machine.calls + 1 := by rw [begun]; rfl
    refine Ends.ite (fun there => ?_) fun missing => ?_
    · exact iff_of_true rfl (.inl (Option.isSome_iff_ne_none.mp there))
    · have absent : machine.disk.look (join (join config.rootDir scene) rel) = none := by
        simpa using missing
      cases made : machine.disk.created (parentPath (join (join config.rootDir scene) rel)) with
      | none =>
          have unstorable : ¬ Storable host machine (join (join config.rootDir scene) rel) data := by
            rintro (present | ⟨tree, done, _⟩)
            · exact present absent
            · rw [made] at done
              cases done
          apply Ends.bind (Fs.createDirectories_created _)
          · rintro success middle ⟨_, returned, done, _⟩
            cases returned
            cases success with
            | true =>
                have created := done rfl
                rw [same, made] at created
                cases created
            | false => exact iff_of_false nofun unstorable
          · rintro thrown final ⟨_, returned, _⟩
            cases returned
      | some tree =>
          rw [storable_iff absent made]
          have makes : checked.disk.created (parentPath (join (join config.rootDir scene) rel)) =
              some tree := same ▸ made
          apply Ends.bind ((Fs.createDirectories_calm makes (calm _)).and (Fs.createDirectories_ends _))
          · rintro _ middle ⟨⟨returned, settles, calls⟩, _, _, again, settled⟩
            cases returned
            cases again
            rw [← same, ← counted, ← calls, ← settles]
            refine Ends.ite (fun _ => ?_) fun failed => absurd rfl failed
            apply Ends.bind (writeDisk_writes_iff reliable nonempty (settled rfl))
            · rintro success final written
              cases success with
              | true => exact iff_of_true rfl (written.mp rfl)
              | false => exact iff_of_false nofun fun writes => nomatch written.mpr writes
            · rintro thrown final written
              exact iff_of_false nofun fun writes => nomatch written.mpr writes
          · rintro _ _ ⟨⟨returned, _⟩, _⟩
            cases returned
  · rintro _ _ ⟨returned, _⟩
    cases returned

end FileStore

end Cdfs
