import Cdfs.Store.WriteDisk

/-! # Writing when no call fails

On a file system without faults of its own `write_disk` writes the data, finds a file of
the right size, or changes nothing; and saving an upload has one of four outcomes
(`Cdfs.FileStore.Saved`).
-/

namespace Cdfs

open Basis FsPath

namespace FileStore

variable {host : Host} {machine : Machine} {fullPath data : Bytes}

/-- Renaming a file that is there to a place that is free. -/
theorem rename_faultless (faultless : host.Faultless) {source target content : Bytes}
    {origin place : List Bytes} (found : machine.disk.resolve source = some origin)
    (stored : machine.disk.node origin = some (.file content))
    (resolved : machine.disk.resolve target = some place)
    (free : machine.disk.node place ≠ some .dir) :
    Ends (Fs.rename host source target) machine fun result _ => result = .ok ⟨⟩ := by
  unfold Fs.rename
  apply Fs.ends_begin
  rw [faultless _]
  apply Fs.ends_disk
  have same : (Fs.begun machine [source, target]).disk = machine.disk := rfl
  rw [same, found, resolved]
  dsimp only
  rw [stored]
  dsimp only
  rw [if_neg free]
  exact rfl

/-- A path leads somewhere if its temporary file does. -/
theorem isSome_resolve_of_tempPath {disk : Disk} (nonempty : fullPath ≠ []) {number : Nat}
    {place : List Bytes} (found : disk.resolve (tempPath fullPath number) = some place) :
    (disk.resolve fullPath).isSome = true := by
  by_cases zero : (0 : UInt8) ∈ fullPath
  · rw [← resolve_of_cString_eq (cString_append_of_mem zero (bytes ".tmp." ++ decimal number)),
      show fullPath ++ (bytes ".tmp." ++ decimal number) = tempPath fullPath number from rfl, found]
    rfl
  · have suffix := isName_append_temp List.not_mem_nil List.not_mem_nil number
    rw [List.nil_append] at suffix
    rw [tempPath] at found
    rw [← Disk.isSome_resolve_append nonempty zero suffix.2.2.2.1 suffix.2.2.2.2, found]
    rfl

/-- A file of the right size passes the check. -/
theorem verifyWritten_reliable (reliable : host.Reliable) {content : Bytes}
    (found : machine.disk.look fullPath = some (.file content)) :
    Ends (verifyWritten host fullPath content.length) machine fun result final =>
      result = .ok true ∧ final.disk = machine.disk := by
  unfold verifyWritten
  apply Ends.bind (Fs.status_ends fullPath)
  · rintro entry middle ⟨same, rfl⟩
    rw [found]
    refine Ends.ite (fun _ => ?_) fun absent => absurd rfl absent
    apply Ends.bind (Fs.fileSize_ends fullPath)
    · rintro size final ⟨unchanged, other, there, rfl⟩
      rw [same, found] at there
      cases there
      exact Ends.ite (fun _ => ⟨rfl, unchanged.trans same⟩) fun different => absurd rfl different
    · rintro thrown final ⟨_, failed | missing⟩
      · exact absurd reliable.fault failed
      · exact absurd (same ▸ found) (missing content)
  · rintro thrown final ⟨_, failed⟩
    exact absurd reliable.fault failed

/-- The data is written, or the temporary file cannot be opened and nothing happens. -/
theorem publish_reliable (reliable : host.Reliable) (nonempty : fullPath ≠ [])
    (writable : Writable machine.disk fullPath) (number : Nat) :
    Ends (publish host (tempPath fullPath number) fullPath data) machine fun result final =>
      result = .ok true ∧ Opens machine.disk (tempPath fullPath number) ∧
          final.disk.look fullPath = some (.file data) ∧
          (machine.disk.resolve fullPath).isSome = true ∨
        result = .ok false ∧ ¬ Opens machine.disk (tempPath fullPath number) ∧
          final.disk = machine.disk := by
  unfold publish
  apply Ends.bind (openTruncate_rewritten.and (openTruncate_opens (reliable.fault _) _))
  · rintro success opened ⟨⟨_, returned, ended⟩, _, opens⟩
    cases returned
    cases success with
    | false =>
        refine .inr ⟨rfl, fun can => ?_, ended⟩
        cases opens can.resolves can.free
    | true =>
        rw [if_pos rfl]
        have opened_ : Rewritten (tempPath fullPath number) [] machine.disk opened.disk := ended
        apply Ends.bind (append_rewritten ended)
        · rintro good appended ⟨_, more, returned, written, _, complete⟩
          cases returned
          obtain ⟨rfl, rfl⟩ := complete reliable.fault
          rw [List.nil_append] at written
          obtain ⟨place, resolved⟩ := Option.isSome_iff_exists.mp
            (isSome_resolve_of_tempPath nonempty written.hasFile.1)
          have before : machine.disk.resolve fullPath = some place :=
            written.resolve fullPath ▸ resolved
          have free : appended.disk.node place ≠ some .dir := fun directory =>
            writable place before ((written.dir_iff place).mp directory)
          rw [if_pos rfl]
          apply Ends.bind ((rename_faultless reliable.fault written.hasFile.1 written.hasFile.2 resolved
            free).and (rename_rewritten written))
          · rintro _ renamed ⟨_, present, _⟩
            refine (verifyWritten_reliable reliable present.look).mono ?_
            rintro result final ⟨succeeded, same⟩
            exact .inl ⟨succeeded, opened_.opens, same ▸ present.look, before ▸ rfl⟩
          · rintro _ _ ⟨returned, _⟩
            cases returned
        · rintro _ _ ⟨_, _, returned, _⟩
          cases returned
  · rintro _ _ ⟨⟨_, returned, _⟩, _⟩
    cases returned

/-- What `write_disk` does without faults, the directories being there. -/
inductive WrittenReliably (data fullPath : Bytes) (before : Disk) (result : Except Exn Bool)
    (after : Disk) : Prop where
  | found {content : Bytes} (succeeded : result = .ok true) (same : after = before)
      (there : before.look fullPath = some (.file content)) (size : content.length = data.length)
  | written (succeeded : result = .ok true) (there : after.look fullPath = some (.file data))
      (resolved : (before.resolve fullPath).isSome = true)
      (other : ∀ content, before.look fullPath = some (.file content) →
        content.length ≠ data.length)
  | failed (failed : result ≠ .ok true) (same : after = before)

/-- `write_disk` without faults, the directories being there. -/
theorem writeDisk_reliable (reliable : host.Reliable) (nonempty : fullPath ≠ [])
    (settled : Fs.Settled machine.disk (parentPath fullPath)) :
    Ends (writeDisk host fullPath data) machine fun result final =>
      WrittenReliably data fullPath machine.disk result final.disk := by
  unfold writeDisk
  apply Ends.bind ((alreadyWritten_ends data.length).and
    (alreadyWritten_false data.length))
  · rintro written checked ⟨⟨same, found⟩, _, different⟩
    cases written with
    | true =>
        obtain ⟨content, file, size⟩ := found
        exact .found rfl same file size
    | false =>
        obtain ⟨free, other⟩ := different rfl
        have writable := writable_of_look free
        rw [← same] at settled writable other ⊢
        apply Ends.bind (Fs.createDirectories_settled settled)
        · rintro _ created ⟨unchanged, _⟩
          rw [← unchanged] at writable other ⊢
          unfold Fs.randomNumber
          simp only [bind_assoc, pure_bind]
          apply Fs.ends_ask
          apply Fs.ends_begin
          generalize 100000 + (host.random created.calls).val = number
          have kept : (Fs.begun created []).disk = created.disk := rfl
          rw [← kept] at writable other ⊢
          apply Ends.tryCatch (publish_reliable reliable nonempty writable number)
          · rintro success final (⟨succeeded, _, there, resolved⟩ | ⟨failed, _, unmoved⟩)
            · exact .written succeeded there resolved other
            · cases failed
              exact .failed nofun unmoved
          · rintro thrown final (⟨returned, _⟩ | ⟨returned, _⟩)
            · cases returned
            · cases returned
        · rintro _ _ ⟨_, _, returned⟩
          cases returned
  · rintro thrown final ⟨⟨same, _⟩, _⟩
    exact .failed nofun same

/-- How saving an upload ends without faults: something is at the path, or a file of the
right size is at the place the path leads to once its directories are there, or the data
is written there, or the save fails and leaves the files alone. -/
inductive Saved (data fullPath path : Bytes) (before : Disk) (result : Except Exn (Option Bytes))
    (after : Disk) : Prop where
  | present (succeeded : result = .ok (some path)) (same : after = before)
      (there : (before.look fullPath).isSome = true)
  | deduplicated {content : Bytes} (succeeded : result = .ok (some path))
      (grown : Disk.Grown before after)
      (there : before.node (location before.cwd fullPath) = some (.file content))
      (size : content.length = data.length)
  | written (succeeded : result = .ok (some path)) (absent : before.look fullPath = none)
      (there : after.look fullPath = some (.file data))
      (other : ∀ content, before.node (location before.cwd fullPath) = some (.file content) →
        content.length ≠ data.length)
  | failed (failed : ∀ returned, result ≠ .ok (some returned)) (grown : Disk.Grown before after)

/-- A file at the lexical place of a path whose directories have been created. -/
theorem look_of_node {disk : Disk} (resolved : (disk.resolve fullPath).isSome = true)
    {entry : Node} (stored : disk.node (location disk.cwd fullPath) = some entry) :
    disk.look fullPath = some entry := by
  obtain ⟨place, here⟩ := Option.isSome_iff_exists.mp resolved
  rw [Disk.location_of_resolve here] at here
  exact Option.bind_eq_some_iff.mpr ⟨_, here, stored⟩

/-- A save whose directories have been created, by what `write_disk` did. -/
theorem WrittenReliably.saved {before middle after : Disk} {path : Bytes} {success : Bool}
    (written : WrittenReliably data fullPath middle (.ok success) after)
    (absent : before.look fullPath = none) (grown : Disk.Grown before middle) :
    Saved data fullPath path before (.ok (if success then some path else none)) after := by
  cases written with
  | found succeeded same there size =>
      cases succeeded
      have stored := Disk.node_location_of_look there
      rw [grown.cwd, grown.file_iff] at stored
      exact .deduplicated rfl (same ▸ grown) stored size
  | written succeeded there resolved other =>
      cases succeeded
      refine .written rfl absent there fun content stored => other content ?_
      rw [← grown.file_iff, ← grown.cwd] at stored
      exact look_of_node resolved stored
  | failed failed same =>
      cases success with
      | true => exact absurd rfl failed
      | false => exact .failed nofun (same ▸ grown)

/-- Saving an upload without faults. -/
theorem saveFile_reliable (reliable : host.Reliable) (digest : Bytes → Digest)
    (config : StoreConfig) {filename scene md5 rel : Bytes}
    (placed : relPath filename (if md5.isEmpty then md5Hex digest data else md5) = .ok rel)
    (nonempty : join (join config.rootDir scene) rel ≠ []) :
    Ends (saveFile host digest config filename data scene md5) machine fun result final =>
      Saved data (join (join config.rootDir scene) rel) (join scene rel) machine.disk result
        final.disk := by
  unfold saveFile
  dsimp only
  rw [placed]
  dsimp only
  apply Ends.bind (Fs.exists_ends _)
  · rintro found checked ⟨same, rfl⟩
    refine Ends.ite (fun there => .present rfl same there) fun missing => ?_
    have absent : checked.disk.look (join (join config.rootDir scene) rel) = none := by
      rw [same]
      simpa using missing
    rw [← same]
    apply Ends.bind (Fs.createDirectories_ends _)
    · rintro created middle ⟨grown, _, returned, settled⟩
      cases returned
      cases created with
      | false => exact .failed nofun grown
      | true =>
          rw [if_pos rfl]
          apply Ends.bind (writeDisk_reliable reliable nonempty (settled rfl))
          · rintro success final written
            have saved : Saved data _ (join scene rel) _ _ final.disk := written.saved absent grown
            cases success with
            | true => exact saved
            | false => exact saved
          · rintro thrown final written
            cases written with
            | found succeeded _ _ _ => cases succeeded
            | written succeeded _ _ _ => cases succeeded
            | failed _ same => exact .failed nofun (same ▸ grown)
    · rintro thrown final ⟨_, _, returned, _⟩
      cases returned
  · rintro thrown final ⟨_, failed⟩
    exact absurd reliable.fault failed

end FileStore

end Cdfs
