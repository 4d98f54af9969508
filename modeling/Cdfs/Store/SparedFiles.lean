import Cdfs.Store.WritePlaces

/-! # Files that a save leaves alone

A save writes at its path and under a temporary name, and only when it finds no file of the
right size. The files elsewhere stay (`Cdfs.FileStore.Spares`). What it does find it takes
for the data unread (`Cdfs.FileStore.Trusted`).
-/

namespace Cdfs

open Basis FsPath

namespace FileStore

variable {host : Host} {machine : Machine} {config : StoreConfig} {data fullPath : Bytes}

/-- Saving data at a path leaves the places alone: once the directories are there and the
data has to be written, neither the path nor its temporary names lead to one of them. -/
def Spares (disk : Disk) (fullPath data : Bytes) (places : Set (List Bytes)) : Prop :=
  ∀ tree, disk.created (parentPath fullPath) = some tree → Attempts tree fullPath data →
    ∀ number : Fin 900000, ∀ place ∈ places,
      place ∉ writePlaces tree fullPath (tempPath fullPath (100000 + number.val))

/-- What a save takes for the data unread: whatever is at the path or, once the directories
are there, a file of the right size. -/
inductive Trusted (disk : Disk) (fullPath data : Bytes) : Node → Prop where
  | present {entry : Node} (there : disk.look fullPath = some entry) :
      Trusted disk fullPath data entry
  | sameSize {tree : Disk} {content : Bytes} (absent : disk.look fullPath = none)
      (created : disk.created (parentPath fullPath) = some tree)
      (there : tree.look fullPath = some (.file content))
      (size : content.length = data.length) : Trusted disk fullPath data (.file content)

/-- A file at a spared place is found as before. -/
theorem WriteResult.look_file {before tree after : Disk} {result : Except Exn Bool}
    {places : Set (List Bytes)} (written : WriteResult data fullPath tree result after)
    (created : before.created (parentPath fullPath) = some tree)
    (spares : Spares before fullPath data places) {path content : Bytes}
    (member : location before.cwd path ∈ places)
    (found : before.look path = some (.file content)) : after.look path = some (.file content) := by
  have grown := Disk.grown_created created
  have there : tree.look path = some (.file content) := grown.look_file found
  rcases written.changed with same | ⟨attempts, number, touched⟩
  · rw [same, there]
  · have evolved : Disk.Evolved ∅ (writePlaces tree fullPath
        (tempPath fullPath (100000 + number.val))) tree after := touched.evolved
    refine evolved.look_file ?_ there
    rw [grown.cwd]
    exact spares tree created attempts number _ member

theorem SaveResult.look_file {before after : Disk} {result : Except Exn Bool} {relPath : Bytes}
    {places : Set (List Bytes)} (saved : SaveResult config data relPath before result after)
    (spares : (find relPath (bytes "..") 0).isSome = false →
      Spares before (join config.rootDir relPath) data places) {path content : Bytes}
    (member : location before.cwd path ∈ places)
    (found : before.look path = some (.file content)) : after.look path = some (.file content) := by
  cases saved with
  | rejected _ _ same => rw [same, found]
  | uncreated _ grown => exact grown.look_file found
  | written accepted created written =>
      exact written.look_file created (spares (Bool.eq_false_iff.mpr accepted)) member found

/-- What `save_file` of an upload has done, by its result: it finds something at the path,
fails to create the directories, or writes in the tree that has them. -/
inductive UploadResult (data fullPath path : Bytes) (before : Disk)
    (result : Except Exn (Option Bytes)) (after : Disk) : Prop where
  | unread (failed : ∀ returned, result ≠ .ok (some returned)) (same : after = before)
  | present (succeeded : result = .ok (some path)) (there : (before.look fullPath).isSome = true)
      (same : after = before)
  | uncreated (failed : ∀ returned, result ≠ .ok (some returned)) (grown : Disk.Grown before after)
  | written {tree : Disk} {success : Except Exn Bool} (absent : before.look fullPath = none)
      (created : before.created (parentPath fullPath) = some tree)
      (written : WriteResult data fullPath tree success after)
      (succeeded : ∀ returned, result = .ok (some returned) → returned = path ∧ success = .ok true)

/-- Saving an upload, whatever call fails. -/
theorem saveFile_result (digest : Bytes → Digest) (config : StoreConfig)
    {filename scene md5 rel : Bytes}
    (placed : relPath filename (if md5.isEmpty then md5Hex digest data else md5) = .ok rel) :
    Ends (saveFile host digest config filename data scene md5) machine fun result final =>
      UploadResult data (join (join config.rootDir scene) rel) (join scene rel) machine.disk result
        final.disk := by
  unfold saveFile
  dsimp only
  rw [placed]
  dsimp only
  apply Ends.bind (Fs.exists_ends _)
  · intro found checked ended
    obtain ⟨same, rfl⟩ := ended
    refine Ends.ite (fun there => .present rfl there same) fun missing => ?_
    have absent : machine.disk.look (join (join config.rootDir scene) rel) = none := by
      simpa using missing
    apply Ends.bind ((Fs.createDirectories_ends _).and (Fs.createDirectories_created _))
    · intro made middle ended
      obtain ⟨⟨grown, _, returned, settled⟩, _, again, created, _⟩ := ended
      cases returned
      cases again
      rw [same] at grown created
      cases made with
      | false => exact .uncreated nofun grown
      | true =>
          have created := created rfl
          rw [if_pos rfl]
          apply Ends.bind (writeDisk_result (settled rfl))
          · intro success final written
            cases success with
            | true =>
                refine .written absent created written fun returned succeeded => ⟨?_, rfl⟩
                exact (Option.some.inj (Except.ok.inj succeeded)).symm
            | false => exact .written absent created written nofun
          · intro thrown final written
            exact .written absent created written nofun
    · intro thrown final ended
      obtain ⟨⟨_, _, returned, _⟩, _⟩ := ended
      cases returned
  · intro thrown final ended
    obtain ⟨same, _⟩ := ended
    exact .unread nofun same

namespace UploadResult

variable {path : Bytes} {before after : Disk} {result : Except Exn (Option Bytes)}

/-- A file at a spared place is found as before. -/
theorem look_file {places : Set (List Bytes)}
    (saved : UploadResult data fullPath path before result after)
    (spares : before.look fullPath = none → Spares before fullPath data places)
    {other content : Bytes} (member : location before.cwd other ∈ places)
    (found : before.look other = some (.file content)) : after.look other = some (.file content) := by
  cases saved with
  | unread _ same => rw [same, found]
  | present _ _ same => rw [same, found]
  | uncreated _ grown => exact grown.look_file found
  | written absent created written _ =>
      exact written.look_file created (spares absent) member found

/-- A successful save returns the path. -/
theorem eq_path {returned : Bytes}
    (saved : UploadResult data fullPath path before (.ok (some returned)) after) :
    returned = path := by
  cases saved with
  | unread failed _ => exact absurd rfl (failed returned)
  | present succeeded _ _ => exact Option.some.inj (Except.ok.inj succeeded)
  | uncreated failed _ => exact absurd rfl (failed returned)
  | written _ _ _ succeeded => exact (succeeded returned rfl).1

/-- The data is at the path behind a successful save, if nothing else was taken for it. -/
theorem look_data {returned : Bytes}
    (saved : UploadResult data fullPath path before (.ok (some returned)) after)
    (genuine : ∀ entry, Trusted before fullPath data entry → entry = .file data) :
    after.look fullPath = some (.file data) := by
  cases saved with
  | unread failed _ => exact absurd rfl (failed returned)
  | present _ there same =>
      obtain ⟨entry, found⟩ := Option.isSome_iff_exists.mp there
      rw [same, found, genuine entry (.present found)]
  | uncreated failed _ => exact absurd rfl (failed returned)
  | written absent created written succeeded =>
      have success := (succeeded returned rfl).2
      rcases written.succeeded success with ⟨same, content, there, size⟩ | ⟨_, _, placed⟩
      · rw [same, there, genuine _ (.sameSize absent created there size)]
      · exact placed.hasFile.look

end UploadResult

end FileStore

end Cdfs
