import Cdfs.Basis.Created
import Cdfs.Basis.Throws
import Cdfs.Store.ReliableWrite

/-! # The exceptions of the file store

Writing a file guards its attempt to publish but not its quick check, which asks for the
size of whatever stands at the path. Without faults this is the one exception: saving data
at a path throws exactly where a directory stands (`Cdfs.FileStore.saveFileAt_throws_iff`).
-/

namespace Cdfs

open Basis FsPath

namespace FileStore

variable {host : Host} {allowed : Exn → Prop} {fullPath : Bytes}

theorem throws_alreadyWritten (permitted : allowed (.filesystem [fullPath])) (size : Nat) :
    Throws allowed (alreadyWritten host fullPath size) := by
  refine .bind (Fs.throws_exists permitted) fun found => .ite (fun _ => ?_) fun _ => .pure _
  exact .bind (Fs.throws_fileSize permitted) fun _ => .pure _

/-- Writing throws when it looks at its target or takes it away again. -/
theorem throws_writeDisk (permitted : allowed (.filesystem [fullPath])) (data : Bytes) :
    Throws allowed (writeDisk host fullPath data) := by
  refine .bind (throws_alreadyWritten permitted _) fun written => .ite (fun _ => .pure _) fun _ => ?_
  refine .bind (Fs.returns_createDirectories _).throws fun _ => ?_
  refine .bind Fs.returns_randomNumber.throws fun number => ?_
  refine .tryCatch (.any _) fun _ _ => ?_
  exact .bind (Fs.throws_remove permitted) fun _ => .pure _

theorem throws_saveFile {digest : Bytes → Digest} {config : StoreConfig}
    {filename data scene md5 rel : Bytes}
    (located : relPath filename (if md5.isEmpty then md5Hex digest data else md5) = .ok rel)
    (permitted : allowed (.filesystem [join (join config.rootDir scene) rel])) :
    Throws allowed (saveFile host digest config filename data scene md5) := by
  unfold saveFile
  dsimp only
  rw [located]
  dsimp only
  refine .bind (Fs.throws_exists permitted) fun found => .ite (fun _ => .pure _) fun _ => ?_
  refine .bind (Fs.returns_createDirectories _).throws fun made => .ite (fun _ => ?_) fun _ => .pure _
  exact .bind (throws_writeDisk permitted data) fun _ => .ite (fun _ => .pure _) fun _ => .pure _

/-- Without faults the quick check throws exactly where a directory stands. -/
theorem alreadyWritten_throws_iff (faultless : host.Faultless) {machine : Machine} (size : Nat) :
    Ends (alreadyWritten host fullPath size) machine fun result _ =>
      result.isOk = false ↔ machine.disk.look fullPath = some .dir := by
  unfold alreadyWritten
  apply Ends.bind (Fs.exists_ends fullPath)
  · rintro found middle ⟨same, isSome⟩
    rw [← same] at isSome ⊢
    refine Ends.ite (fun there => ?_) fun absent => ?_
    · apply Ends.bind (Fs.fileSize_ends fullPath)
      · rintro written final ⟨_, content, file, _⟩
        rw [file]
        exact iff_of_false Bool.false_ne_true.symm (by rintro ⟨⟩)
      · rintro thrown final ⟨_, failed | noFile⟩
        · exact absurd faultless failed
        · refine iff_of_true rfl ?_
          rw [there] at isSome
          obtain ⟨entry, stored⟩ := Option.isSome_iff_exists.mp isSome.symm
          cases entry with
          | dir => exact stored
          | file content => exact absurd stored (noFile content)
    · have missing : middle.disk.look fullPath = none := by simpa [isSome] using absent
      rw [missing]
      exact iff_of_false Bool.false_ne_true.symm (by rintro ⟨⟩)
  · rintro thrown final ⟨_, failed⟩
    exact absurd faultless failed

/-- Without faults writing throws exactly where a directory stands. -/
theorem writeDisk_throws_iff (reliable : host.Reliable) {machine : Machine} {data : Bytes}
    (nonempty : fullPath ≠ []) (settled : Fs.Settled machine.disk (parentPath fullPath)) :
    Ends (writeDisk host fullPath data) machine fun result _ =>
      result.isOk = false ↔ machine.disk.look fullPath = some .dir := by
  unfold writeDisk
  apply Ends.bind ((alreadyWritten_throws_iff reliable.fault data.length).and
    (alreadyWritten_ends data.length))
  · rintro written checked ⟨throws, same, found⟩
    have free : ¬ machine.disk.look fullPath = some .dir :=
      fun directory => Bool.false_ne_true.symm (throws.mpr directory)
    refine Ends.ite (fun _ => iff_of_false Bool.false_ne_true.symm free) fun _ => ?_
    rw [← same] at settled free ⊢
    apply Ends.bind (Fs.createDirectories_settled settled)
    · rintro _ created ⟨unchanged, _⟩
      rw [← unchanged] at free ⊢
      unfold Fs.randomNumber
      simp only [bind_assoc, pure_bind]
      apply Fs.ends_ask
      apply Fs.ends_begin
      have writable : Writable (Fs.begun created []).disk fullPath := writable_of_look free
      apply Ends.tryCatch (publish_reliable reliable nonempty writable _)
      · exact fun _ _ _ => iff_of_false Bool.false_ne_true.symm free
      · rintro thrown final (⟨failed, _⟩ | ⟨failed, _⟩)
        · cases failed
        · cases failed
    · rintro _ _ ⟨_, _, failed⟩
      cases failed
  · rintro thrown final ⟨throws, _⟩
    exact iff_of_true rfl (throws.mp rfl)

/-- Once its directories are there, a directory stands at the path that data is saved at. -/
def hitsDirectory (config : StoreConfig) (disk : Disk) (relPath : Bytes) : Bool :=
  !(find relPath (bytes "..") 0).isSome &&
    (disk.created (parentPath (join config.rootDir relPath))).any fun tree =>
      tree.look (join config.rootDir relPath) = some .dir

theorem saveFileAt_throws_iff (reliable : host.Reliable) {machine : Machine} (config : StoreConfig)
    (data relPath : Bytes) :
    Ends (saveFileAt host config data relPath) machine fun result _ =>
      result.isOk = false ↔ hitsDirectory config machine.disk relPath = true := by
  unfold saveFileAt hitsDirectory
  refine Ends.ite (fun rejected => ?_) fun accepted => ?_
  · rw [rejected]
    exact iff_of_false Bool.false_ne_true.symm Bool.false_ne_true
  · rw [Bool.eq_false_iff.mpr accepted, Bool.not_false, Bool.true_and]
    apply Ends.bind ((Fs.createDirectories_ends _).and (Fs.createDirectories_created _))
    · rintro made middle ⟨⟨_, _, again, settled⟩, _, same, created, throws⟩
      cases again
      cases same
      have made := throws reliable.fault
      refine Ends.ite (fun done => ?_) fun failed => ?_
      · subst done
        rw [created rfl, Option.any_some, decide_eq_true_eq]
        apply Ends.bind (writeDisk_throws_iff reliable (join_ne_nil config.rootDir_ne_nil relPath)
          (settled rfl))
        · rintro success written throws
          have free : ¬ middle.disk.look (join config.rootDir relPath) = some .dir :=
            fun directory => Bool.false_ne_true.symm (throws.mpr directory)
          refine Ends.ite (fun _ => iff_of_false Bool.false_ne_true.symm free) fun _ => ?_
          have removes : Returns (tryCatch (Fs.remove host (join config.rootDir relPath)) fun _ =>
              return ⟨⟩) := .tryCatch (.any _) fun _ _ => .pure _
          apply Ends.bind (removes written)
          · exact fun _ _ _ => iff_of_false Bool.false_ne_true.symm free
          · exact fun thrown _ none => (none thrown rfl).elim
        · rintro thrown final throws
          exact iff_of_true rfl (throws.mp rfl)
      · have none : machine.disk.created (parentPath (join config.rootDir relPath)) = none := by
          rw [← Option.not_isSome_iff_eq_none, ← made]
          exact failed
        rw [none]
        exact iff_of_false Bool.false_ne_true.symm Bool.false_ne_true
    · rintro _ _ ⟨⟨_, _, failed, _⟩, _⟩
      cases failed

end FileStore

end Cdfs
