import Cdfs.Store.CalmSave

/-! # What a failed save leaves

A `save_file` of data at a path that reports failure removes what stands at the path and
under its temporary name, whoever put it there. It destroys nothing exactly where there
is nothing to destroy or no way to fail (`Cdfs.FileStore.keepsFiles_iff`).
-/

namespace Cdfs

open Basis FsPath

namespace FileStore

variable {host : Host} {machine : Machine} {config : StoreConfig} {data relPath : Bytes}

/-- Every regular file stays as it was when a save reports failure, whichever calls fail. -/
def KeepsFiles (config : StoreConfig) (machine : Machine) (data relPath : Bytes) : Prop :=
  ∀ host : Host, Ends (saveFileAt host config data relPath) machine fun result saved =>
    result = .ok false → ∀ place content, machine.disk.node place = some (.file content) →
      saved.disk.node place = some (.file content)

/-- Once the directories are there, a directory or a file of the size of the data stands at
the path; or nothing does, and no regular file under its temporary names either. -/
def NothingToLose (config : StoreConfig) (disk : Disk) (data relPath : Bytes) : Prop :=
  (find relPath (bytes "..") 0).isSome ∨
    ∀ tree, disk.created (parentPath (join config.rootDir relPath)) = some tree →
      tree.look (join config.rootDir relPath) = some .dir ∨
      (∃ content, tree.look (join config.rootDir relPath) = some (.file content) ∧
        content.length = data.length) ∨
      tree.look (join config.rootDir relPath) = none ∧ ∀ (number : Fin 900000) (content : Bytes),
        tree.look (tempPath (join config.rootDir relPath) (100000 + number.val)) ≠
          some (.file content)

/-- Where no file stands at the places of a write, none is lost. -/
theorem node_of_touched {before after : Disk} {fullPath temporary : Bytes}
    (touched : Disk.Touched (writePlaces before fullPath temporary) before after)
    (absent : before.look fullPath = none)
    (beside : ∀ content, before.look temporary ≠ some (.file content)) {place : List Bytes}
    {content : Bytes} (stored : before.node place = some (.file content)) :
    after.node place = some (.file content) := by
  rw [touched.node place, stored]
  rintro (target | temp)
  · rw [Disk.look, target, Option.bind_some, stored] at absent
    cases absent
  · refine beside content ?_
    rw [Disk.look, temp, Option.bind_some, stored]

theorem keepsFiles_of_nothingToLose (nothing : NothingToLose config machine.disk data relPath) :
    KeepsFiles config machine data relPath := by
  intro host
  refine (saveFileAt_result config relPath).mono ?_
  rintro result saved ended rfl place content stored
  cases ended with
  | rejected _ _ same => rwa [same]
  | uncreated _ grown => exact (grown.file_iff place content).mpr stored
  | written accepted created written =>
      rename_i tree
      have grown := Disk.grown_created created
      have inTree := (grown.file_iff place content).mpr stored
      have attempts := written.failed rfl
      rcases nothing.resolve_left accepted tree created with directory | ⟨other, there, size⟩ |
        ⟨absent, beside⟩
      · exact absurd directory attempts.1
      · exact absurd size (attempts.2 other there)
      · rcases written.changed with same | ⟨_, number, touched⟩
        · rwa [same]
        · exact node_of_touched touched absent (beside number) inTree

/-! ## Losing a file -/

theorem publish_unopened {fullPath temporary : Bytes}
    (fails : host.fault machine.calls = .fails 0 true) :
    Ends (publish host temporary fullPath data) machine fun result final =>
      result = .ok false ∧ final.disk = machine.disk := by
  unfold publish Fs.openTruncate
  simp only [bind_assoc]
  apply Fs.ends_begin
  rw [fails]
  exact ⟨rfl, rfl⟩

/-- A failure to write is noticed. -/
theorem append_noticed {path : Bytes} (fails : host.fault machine.calls = .fails 0 true) :
    Ends (Fs.append host path data) machine fun result _ => result = .ok false := by
  unfold Fs.append
  apply Fs.ends_begin
  rw [fails]
  apply Fs.ends_disk
  split
  · exact rfl
  · split
    · rename_i outcome
      cases outcome
    · rename_i outcome
      cases outcome
      exact rfl
    · exact rfl

theorem publish_unwritten {fullPath temporary content : Bytes} (sound : RemovesSoundly host)
    (opens : host.fault machine.calls = .none)
    (fails : host.fault (machine.calls + 1) = .fails 0 true)
    (writable : Writable machine.disk fullPath)
    (there : machine.disk.look temporary = some (.file content)) :
    Ends (publish host temporary fullPath data) machine fun result final => result = .ok false ∧
      Writable final.disk fullPath ∧
      final.disk.node (location machine.disk.cwd temporary) = none := by
  unfold publish
  apply Ends.bind (openTruncate_rewritten.and (openTruncate_calm opens temporary))
  · rintro success opened ⟨⟨_, returned, written⟩, calls, opening⟩
    cases returned
    cases opening content there
    rw [← calls] at fails
    rw [if_pos rfl]
    apply Ends.bind ((append_rewritten written).and (append_noticed fails))
    · rintro _ appended ⟨⟨_, more, _, written, _⟩, returned⟩
      cases returned
      rw [if_neg Bool.false_ne_true]
      apply Ends.bind (remove_rewritten sound written)
      · rintro _ removed ⟨_, _, gone, kept⟩
        exact ⟨rfl, kept fullPath writable, gone⟩
      · rintro _ _ ⟨returned, _⟩
        cases returned
    · rintro _ _ ⟨_, returned⟩
      cases returned
  · rintro _ _ ⟨⟨_, returned, _⟩, _⟩
    cases returned

/-- The temporary file cannot be opened: the old version at the path is removed. -/
theorem saveFileAt_of_unopened (accepted : ¬ (find relPath (bytes "..") 0).isSome) {tree : Disk}
    (created : machine.disk.created (parentPath (join config.rootDir relPath)) = some tree)
    (attempts : Attempts tree (join config.rootDir relPath) data) {content : Bytes}
    (there : tree.look (join config.rootDir relPath) = some (.file content)) :
    Ends (saveFileAt (failingHost (openCall machine tree (join config.rootDir relPath)) 0) config data
        relPath) machine fun result saved => result = .ok false ∧
      saved.disk.node (location tree.cwd (join config.rootDir relPath)) = none := by
  refine ends_saveFileAt accepted created attempts (calmBefore_failingHost _) (fun _ => rfl) ?_
  intro middle same calls
  refine (publish_unopened (if_pos calls)).mono ?_
  rintro _ left ⟨returned, unchanged⟩
  refine ⟨false, returned, ?_⟩
  rw [same] at unchanged
  rw [if_neg Bool.false_ne_true]
  refine (remove_caught_ends (fun _ => rfl) ?_).mono ?_
  · rw [unchanged]
    exact writable_of_look attempts.1
  · rw [unchanged]
    rintro _ last ⟨removed, ⟨unresolved, _⟩ | ⟨_, erased⟩⟩
    · rw [(hasFile_of_look there).1] at unresolved
      cases unresolved
    · refine ⟨removed, rfl, ?_⟩
      rw [erased, Disk.node_erase_self]

/-- The temporary file cannot be written: what stood under its name is gone. -/
theorem saveFileAt_of_unwritten (accepted : ¬ (find relPath (bytes "..") 0).isSome) {tree : Disk}
    (created : machine.disk.created (parentPath (join config.rootDir relPath)) = some tree)
    (attempts : Attempts tree (join config.rootDir relPath) data) {number : Fin 900000}
    {content : Bytes}
    (there : tree.look (tempPath (join config.rootDir relPath) (100000 + number.val)) =
      some (.file content)) :
    Ends (saveFileAt (failingHost (openCall machine tree (join config.rootDir relPath) + 1) number)
        config data relPath) machine fun result saved => result = .ok false ∧
      saved.disk.node (location tree.cwd
        (tempPath (join config.rootDir relPath) (100000 + number.val))) = none := by
  have calm : (failingHost (openCall machine tree (join config.rootDir relPath) + 1)
      number).CalmBefore (openCall machine tree (join config.rootDir relPath) + 1) :=
    calmBefore_failingHost _
  refine ends_saveFileAt accepted created attempts (calm.mono (Nat.le_succ _)) (fun _ => rfl) ?_
  intro middle same calls
  have opens := calm middle.calls (calls ▸ Nat.lt_succ_self _)
  have writable : Writable middle.disk (join config.rootDir relPath) :=
    same ▸ writable_of_look attempts.1
  have beside : middle.disk.look (tempPath (join config.rootDir relPath) (100000 + number.val)) =
      some (.file content) := same ▸ there
  refine (publish_unwritten (fun _ => rfl) opens (if_pos (congrArg (· + 1) calls)) writable
    beside).mono ?_
  rintro _ left ⟨returned, free, gone⟩
  refine ⟨false, returned, ?_⟩
  rw [same] at gone
  rw [if_neg Bool.false_ne_true]
  refine (remove_caught_ends (fun _ => rfl) free).mono ?_
  rintro _ last ⟨ended, ⟨_, unchanged⟩ | ⟨_, erased⟩⟩
  · exact ⟨ended, rfl, unchanged ▸ gone⟩
  · refine ⟨ended, rfl, ?_⟩
    rw [erased]
    exact Disk.node_erase_of_none gone

theorem nothingToLose_of_keepsFiles (keeps : KeepsFiles config machine data relPath) :
    NothingToLose config machine.disk data relPath := by
  by_cases accepted : (find relPath (bytes "..") 0).isSome
  · exact .inl accepted
  · refine .inr fun tree created => ?_
    have grown := Disk.grown_created created
    have lost {host : Host} {path content : Bytes} (there : tree.look path = some (.file content))
        (run : Ends (saveFileAt host config data relPath) machine fun result saved =>
          result = .ok false ∧ saved.disk.node (location tree.cwd path) = none) : False := by
      refine ((keeps host).and run).const fun result saved ⟨kept, failed, gone⟩ => ?_
      have stored := (grown.file_iff _ content).mp (Disk.node_location_of_look there)
      have still := kept failed _ content stored
      rw [gone] at still
      cases still
    cases there : tree.look (join config.rootDir relPath) with
    | none =>
        refine .inr (.inr ⟨rfl, fun number content beside => ?_⟩)
        have attempts : Attempts tree (join config.rootDir relPath) data := by
          unfold Attempts
          rw [there]
          exact ⟨nofun, nofun⟩
        exact lost beside (saveFileAt_of_unwritten accepted created attempts beside)
    | some entry =>
        cases entry with
        | dir => exact .inl rfl
        | file content =>
            refine .inr (.inl ⟨content, rfl, ?_⟩)
            by_contra other
            have attempts : Attempts tree (join config.rootDir relPath) data := by
              unfold Attempts
              rw [there]
              refine ⟨nofun, ?_⟩
              rintro _ same
              cases same
              exact other
            exact lost there (saveFileAt_of_unopened accepted created attempts there)

/-- A save that reports failure destroys nothing if and only if there is nothing to lose. -/
theorem keepsFiles_iff (config : StoreConfig) (machine : Machine) (data relPath : Bytes) :
    KeepsFiles config machine data relPath ↔ NothingToLose config machine.disk data relPath :=
  ⟨nothingToLose_of_keepsFiles, keepsFiles_of_nothingToLose⟩

/-- A chunk sent again with fewer bytes: if the temporary file cannot be opened, the chunk
that was there is gone. -/
theorem not_keepsFiles_of_shorter_chunk :
    ¬ KeepsFiles {} { disk := chunkDisk } (bytes "hi") (bytes "_tmp/abc/0") := by
  intro keeps
  have created : chunkDisk.created (parentPath (join (bytes "./data/store") (bytes "_tmp/abc/0"))) =
      some chunkDisk := by rfl
  have there : chunkDisk.look (join (bytes "./data/store") (bytes "_tmp/abc/0")) =
      some (.file (bytes "hello")) := by rfl
  rcases nothingToLose_of_keepsFiles keeps with dots | nothing
  · exact absurd dots (by decide +kernel)
  · rcases nothing chunkDisk created with directory | ⟨content, found, size⟩ | ⟨absent, _⟩
    · rw [there] at directory
      cases directory
    · rw [there] at found
      cases found
      exact absurd size (by decide)
    · rw [there] at absent
      cases absent

end FileStore

end Cdfs
