import Cdfs.Store.CalmSave
import Cdfs.Store.ReliableWrite

/-! # Reading back what has been saved

`get_file` right after a successful `save_file` of data at a path. The quick check of
`write_disk` takes a file of the right size for the data, and a file under a temporary
name is overwritten: the save stores the data where neither happens
(`Cdfs.FileStore.storesData_iff`).
-/

namespace Cdfs

open Basis FsPath

namespace FileStore

variable {host : Host} {machine : Machine} {config : StoreConfig} {data relPath : Bytes}

/-! ## Reading -/

theorem quiet_ends {α : Type} {query : FsOp α} {value : α} {final : Machine}
    (ends : Ends query machine fun result last => result = .ok value ∧ last = final) :
    Ends (quiet query) machine fun result last => result = .ok (some value) ∧ last = final := by
  have returned : Ends (do return some (← query) : FsOp (Option α)) machine fun result last =>
      result = .ok (some value) ∧ last = final := by
    apply Ends.bind ends
    · rintro _ _ ⟨returned, same⟩
      cases returned
      exact ⟨rfl, same⟩
    · rintro _ _ ⟨returned, _⟩
      cases returned
  unfold quiet
  apply Ends.tryCatch returned
  · exact fun _ _ ended => ended
  · rintro _ _ ⟨returned, _⟩
    cases returned

theorem openRead_reliable (reliable : host.Reliable) {path content : Bytes}
    (found : machine.disk.look path = some (.file content)) :
    Ends (Fs.openRead host path) machine fun result _ => result = .ok (.opened (.file content)) := by
  unfold Fs.openRead
  apply Fs.ends_begin
  rw [reliable.fault]
  apply Fs.ends_disk
  have same : (Fs.begun machine [path]).disk.look path = some (.file content) := found
  rw [same]
  rfl

theorem readDisk_reliable (reliable : host.Reliable) {path content : Bytes}
    (found : machine.disk.look path = some (.file content)) :
    Ends (readDisk host path) machine fun result _ => result = .ok (some content) := by
  have calm := fun call => calmBefore_of_reliable reliable call
  unfold readDisk
  apply Ends.bind (quiet_ends (Fs.exists_calm (calm _) (Nat.lt_succ_self _) path))
  · rintro _ first ⟨returned, same⟩
    cases returned
    rw [found, Option.isSome_some, if_neg (by simp)]
    have found : first.disk.look path = some (.file content) := same ▸ found
    apply Ends.bind (quiet_ends (Fs.isRegularFile_calm (calm _) (Nat.lt_succ_self _) found))
    · rintro _ second ⟨returned, again⟩
      cases returned
      rw [if_neg (by simp)]
      have found : second.disk.look path = some (.file content) := again ▸ found
      apply Ends.bind (quiet_ends (Fs.fileSize_calm (calm _) (Nat.lt_succ_self _) found))
      · rintro _ third ⟨returned, kept⟩
        cases returned
        have found : third.disk.look path = some (.file content) := kept ▸ found
        cases content with
        | nil => exact rfl
        | cons byte rest =>
            apply Ends.bind (openRead_reliable reliable found)
            · rintro _ last returned
              cases returned
              dsimp only
              rw [if_pos le_rfl, List.take_length]
              exact rfl
            · rintro _ _ returned
              cases returned
      · rintro _ _ ⟨returned, _⟩
        cases returned
    · rintro _ _ ⟨returned, _⟩
      cases returned
  · rintro _ _ ⟨returned, _⟩
    cases returned

/-- A file that is there can be read. -/
theorem getFile_reliable (reliable : host.Reliable) {content : Bytes}
    (found : machine.disk.look (join config.rootDir relPath) = some (.file content)) :
    Ends (getFile host config relPath) machine fun result _ => result = .ok (some content) := by
  have calm := fun call => calmBefore_of_reliable reliable call
  unfold getFile
  apply Ends.bind (Fs.exists_calm (calm _) (Nat.lt_succ_self _) _)
  · rintro _ first ⟨returned, same⟩
    cases returned
    rw [found, Option.isSome_some, if_pos rfl]
    have found : first.disk.look (join config.rootDir relPath) = some (.file content) :=
      same ▸ found
    apply Ends.bind (Fs.isRegularFile_calm (calm _) (Nat.lt_succ_self _) found)
    · rintro _ second ⟨returned, again⟩
      cases returned
      rw [if_pos rfl]
      exact readDisk_reliable reliable (again ▸ found)
    · rintro _ _ ⟨returned, _⟩
      cases returned
  · rintro _ _ ⟨returned, _⟩
    cases returned

/-! ## Saving and reading -/

/-- A save that reports success stores the data: it is read back right afterwards, and the
other regular files are the same. -/
def StoresData (config : StoreConfig) (machine : Machine) (data relPath : Bytes) : Prop :=
  ∀ host reader : Host, reader.Reliable →
    Ends (saveFileAt host config data relPath) machine fun result saved => result = .ok true →
      Ends (getFile reader config relPath) saved (fun found _ => found = .ok (some data)) ∧
      ∀ place ≠ location machine.disk.cwd (join config.rootDir relPath), ∀ content,
        saved.disk.node place = some (.file content) ↔
          machine.disk.node place = some (.file content)

/-- Under no temporary name of the path stands a regular file, unless the name leads to
the path itself. -/
def NoTemporary (disk : Disk) (fullPath : Bytes) : Prop :=
  ∀ number : Fin 900000, ∀ content,
    disk.look (tempPath fullPath (100000 + number.val)) = some (.file content) →
      location disk.cwd (tempPath fullPath (100000 + number.val)) = location disk.cwd fullPath

/-- Once the directories are there, no file of the size of the data stands at the path
with other bytes, and when the data is written nothing stands under its temporary names. -/
def Replaces (config : StoreConfig) (disk : Disk) (data relPath : Bytes) : Prop :=
  (find relPath (bytes "..") 0).isSome ∨
    ∀ tree, disk.created (parentPath (join config.rootDir relPath)) = some tree →
      (∀ content, tree.look (join config.rootDir relPath) = some (.file content) →
        content.length = data.length → content = data) ∧
      (Attempts tree (join config.rootDir relPath) data →
        NoTemporary tree (join config.rootDir relPath))

/-- What has been placed under a temporary name beside no other file leaves the files
elsewhere. -/
theorem Placed.file_iff {before after : Disk} {fullPath : Bytes} {number : Fin 900000}
    (placed : Placed data fullPath (tempPath fullPath (100000 + number.val)) before after)
    (free : NoTemporary before fullPath) {place : List Bytes}
    (other : place ≠ location before.cwd fullPath) (content : Bytes) :
    after.node place = some (.file content) ↔ before.node place = some (.file content) := by
  by_cases temporary : place = location before.cwd (tempPath fullPath (100000 + number.val))
  · have apart := temporary ▸ other
    rw [temporary, placed.gone apart]
    refine ⟨nofun, fun stored => absurd (free number content ?_) apart⟩
    exact Option.bind_eq_some_iff.mpr ⟨_, placed.resolved, stored⟩
  · rw [placed.touched.node place]
    rintro (target | beside)
    · exact other target
    · exact temporary (Set.mem_singleton_iff.mp beside)

theorem storesData_of_replaces (replaces : Replaces config machine.disk data relPath) :
    StoresData config machine data relPath := by
  intro host reader reliable
  refine (saveFileAt_result config relPath).mono ?_
  rintro result saved ended rfl
  cases ended with
  | rejected _ failed _ => cases failed
  | uncreated failed _ => cases failed
  | written accepted created written =>
      rename_i tree
      have grown := Disk.grown_created created
      obtain ⟨same, free⟩ := (replaces.resolve_left accepted) tree created
      rcases written.succeeded rfl with ⟨kept, content, there, size⟩ | ⟨attempts, number, placed⟩
      · refine ⟨getFile_reliable reliable ?_, fun place _ content => ?_⟩
        · rw [kept, there, same content there size]
        · rw [kept]
          exact grown.file_iff place content
      · refine ⟨getFile_reliable reliable placed.hasFile.look, fun place other content => ?_⟩
        rw [← grown.cwd] at other
        exact (placed.file_iff (free attempts) other content).trans (grown.file_iff place content)

/-- A file of the right size is taken for the data. -/
theorem saveFileAt_of_same_size (accepted : ¬ (find relPath (bytes "..") 0).isSome) {tree : Disk}
    (created : machine.disk.created (parentPath (join config.rootDir relPath)) = some tree)
    (reliable : host.Reliable) {content : Bytes}
    (there : tree.look (join config.rootDir relPath) = some (.file content))
    (size : content.length = data.length) :
    Ends (saveFileAt host config data relPath) machine fun result saved => result = .ok true ∧
      saved.disk = tree := by
  refine ends_saveFileAt_created accepted created (calmBefore_of_reliable reliable _) ?_
  intro middle same _ _
  unfold writeDisk
  rw [← same] at there
  apply Ends.bind (alreadyWritten_calm_file data.length there (calmBefore_of_reliable reliable _))
  · rintro _ final ⟨returned, kept, _⟩
    cases returned
    rw [decide_eq_true size, if_pos rfl]
    exact ⟨true, rfl, rfl, kept.trans same⟩
  · rintro _ _ ⟨returned, _⟩
    cases returned

/-- A file under a temporary name that is drawn is gone after the save. -/
theorem saveFileAt_of_temporary (accepted : ¬ (find relPath (bytes "..") 0).isSome) {tree : Disk}
    (created : machine.disk.created (parentPath (join config.rootDir relPath)) = some tree)
    (attempts : Attempts tree (join config.rootDir relPath) data) {number : Fin 900000}
    {content : Bytes}
    (there : tree.look (tempPath (join config.rootDir relPath) (100000 + number.val)) =
      some (.file content))
    (apart : location tree.cwd (tempPath (join config.rootDir relPath) (100000 + number.val)) ≠
      location tree.cwd (join config.rootDir relPath)) :
    Ends (saveFileAt (steadyHost number) config data relPath) machine fun result saved =>
      result = .ok true ∧ saved.disk.node
        (location tree.cwd (tempPath (join config.rootDir relPath) (100000 + number.val))) = none := by
  have reliable := steadyHost_reliable number
  have nonempty : join config.rootDir relPath ≠ [] := join_ne_nil config.rootDir_ne_nil relPath
  refine ends_saveFileAt accepted created attempts (calmBefore_of_reliable reliable _) (fun _ => rfl) ?_
  intro middle same _
  rw [← same] at attempts there apart ⊢
  refine ((publish_reliable reliable nonempty (writable_of_look attempts.1) _).and
    (publish_touched (writable_of_look attempts.1))).mono ?_
  rintro result final ⟨⟨succeeded, _⟩ | ⟨_, closed, _⟩, _, placed⟩
  · exact ⟨true, succeeded, rfl, (placed succeeded).gone apart⟩
  · exact absurd (hasFile_of_look there).opens closed

theorem replaces_of_storesData (stores : StoresData config machine data relPath) :
    Replaces config machine.disk data relPath := by
  by_cases accepted : (find relPath (bytes "..") 0).isSome
  · exact .inl accepted
  · refine .inr fun tree created => ⟨fun content there size => ?_, fun attempts number content there => ?_⟩
    · have reliable := steadyHost_reliable 0
      have run := saveFileAt_of_same_size accepted created reliable there size
      refine ((stores _ _ reliable).and run).const fun result saved ⟨stored, succeeded, same⟩ => ?_
      have still : saved.disk.look (join config.rootDir relPath) = some (.file content) := same ▸ there
      have read := getFile_reliable reliable still
      refine ((stored succeeded).1.and read).const fun found _ ⟨expected, returned⟩ => ?_
      rw [returned] at expected
      cases expected
      rfl
    · by_contra apart
      have run := saveFileAt_of_temporary accepted created attempts there apart
      refine ((stores _ _ (steadyHost_reliable 0)).and run).const
        fun result saved ⟨stored, succeeded, gone⟩ => ?_
      have grown := Disk.grown_created created
      rw [grown.cwd] at apart
      have same := (stored succeeded).2 _ apart content
      rw [← grown.cwd, gone, ← grown.file_iff] at same
      cases same.mpr (Disk.node_location_of_look there)

/-- Saving stores the data unless a file of the same size with other bytes stands at the
path, or another file under a temporary name. -/
theorem storesData_iff (config : StoreConfig) (machine : Machine) (data relPath : Bytes) :
    StoresData config machine data relPath ↔ Replaces config machine.disk data relPath :=
  ⟨replaces_of_storesData, storesData_of_replaces⟩

/-- Other bytes of the same length do not replace a chunk. -/
theorem not_storesData_of_resent_chunk :
    ¬ StoresData {} { disk := chunkDisk } (bytes "world") (bytes "_tmp/abc/0") := by
  intro stores
  rcases replaces_of_storesData stores with dots | replaces
  · exact absurd dots (by decide +kernel)
  · have created : chunkDisk.created (parentPath (join (bytes "./data/store") (bytes "_tmp/abc/0"))) =
        some chunkDisk := by rfl
    have there : chunkDisk.look (join (bytes "./data/store") (bytes "_tmp/abc/0")) =
        some (.file (bytes "hello")) := by rfl
    exact absurd ((replaces chunkDisk created).1 _ there rfl) (by decide)

end FileStore

end Cdfs
