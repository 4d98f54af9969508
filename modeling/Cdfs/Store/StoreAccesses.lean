import Cdfs.Basis.Accesses
import Cdfs.Store.WriteDisk

/-! # What the file store accesses

Writing a file accesses its path, its temporary file and the directories that have to be
created for it; asking for the chunks accesses their directory and its entries.
-/

namespace Cdfs

open Basis FsPath

namespace FileStore

variable {host : Host} {machine : Machine} {allowed : Bytes → Prop} {fullPath data : Bytes}

section Write

variable (target : allowed fullPath)

include target

theorem alreadyWritten_logs (size : Nat) :
    Fs.OnlyLogs allowed (alreadyWritten host fullPath size) := by
  refine .bind (.of_access (fun _ => Fs.exists_accesses fullPath) target) fun _ => .ite ?_ (.pure _)
  exact .bind (.of_access (fun _ => Fs.fileSize_accesses fullPath) target) fun _ => .pure _

theorem discard_logs : Fs.OnlyLogs allowed (discard host fullPath) := by
  refine .bind (.of_access (fun _ => Fs.remove_accesses fullPath) target) fun _ => ?_
  exact .bind (.of_access (fun _ => Fs.fileSize_accesses fullPath) target) fun _ => .pure _

theorem verifyWritten_logs (size : Nat) :
    Fs.OnlyLogs allowed (verifyWritten host fullPath size) := by
  have again : Fs.OnlyLogs allowed (discard host fullPath) := discard_logs target
  refine .bind (.of_access (fun _ => Fs.status_accesses fullPath) target) fun _ => .ite ?_ again
  refine .bind (.of_access (fun _ => Fs.fileSize_accesses fullPath) target) fun _ => ?_
  exact .ite (.pure _) again

theorem publish_logs {temporary : Bytes} (beside : allowed temporary) :
    Fs.OnlyLogs allowed (publish host temporary fullPath data) := by
  refine .bind (.of_access (fun _ => Fs.openTruncate_accesses temporary) beside) fun _ =>
    .ite ?_ (.pure _)
  refine .bind (.of_access (fun _ => Fs.append_accesses temporary data) beside) fun _ => .ite ?_ ?_
  · refine .bind (.of_accesses (fun _ => Fs.rename_accesses temporary fullPath) ?_) fun _ =>
      verifyWritten_logs target _
    simpa using ⟨beside, target⟩
  · exact .bind (.of_access (fun _ => Fs.remove_accesses temporary) beside) fun _ => .pure _

/-- What `write_disk` accesses. -/
theorem writeDisk_logs (beside : ∀ number, allowed (tempPath fullPath number))
    (above : ∀ other ∈ machine.disk.lookedAt (parentPath fullPath), allowed other) :
    Ends (writeDisk host fullPath data) machine fun _ final => Fs.Logs allowed machine final := by
  unfold writeDisk
  apply Ends.bind ((alreadyWritten_ends data.length).and (alreadyWritten_logs target _ machine))
  · rintro written checked ⟨⟨same, _⟩, logs⟩
    refine Ends.ite (fun _ => logs) fun _ => ?_
    rw [← same] at above
    apply Ends.bind (Fs.createDirectories_logs (parentPath fullPath) above)
    · rintro _ created ⟨further, _⟩
      have rest : Fs.OnlyLogs allowed (do
          let number ← Fs.randomNumber host
          tryCatch (publish host (tempPath fullPath number) fullPath data) fun _ => do
            Fs.remove host fullPath
            return false) := by
        have drawn : Fs.OnlyLogs allowed (Fs.randomNumber host) := fun _ => ⟨[], rfl, nofun⟩
        refine .bind drawn fun number => .tryCatch (publish_logs target (beside number)) fun _ => ?_
        exact .bind (.of_access (fun _ => Fs.remove_accesses fullPath) target) fun _ => .pure _
      exact (rest created).mono fun _ _ later => (logs.trans further).trans later
    · exact fun _ _ ended => logs.trans ended.1
  · exact fun _ _ ended => ended.2

end Write

section Save

variable {digest : Bytes → Digest} {config : StoreConfig} {filename scene md5 rel : Bytes}
  (placed : relPath filename (if md5.isEmpty then md5Hex digest data else md5) = .ok rel)

include placed

/-- What saving an upload accesses: its path, and if nothing is there, the temporary file
and the directories above, all of these if no call fails. -/
theorem saveFile_logs (target : allowed (join (join config.rootDir scene) rel))
    (missing : machine.disk.look (join (join config.rootDir scene) rel) = none →
      (∀ number, allowed (tempPath (join (join config.rootDir scene) rel) number)) ∧
      ∀ other ∈ machine.disk.lookedAt (parentPath (join (join config.rootDir scene) rel)),
        allowed other) :
    Ends (saveFile host digest config filename data scene md5) machine fun _ final =>
      Fs.Logs allowed machine final ∧
      Fs.Notes (join (join config.rootDir scene) rel) machine final ∧
      (host.Reliable → machine.disk.look (join (join config.rootDir scene) rel) = none →
        ∀ other ∈ machine.disk.lookedAt (parentPath (join (join config.rootDir scene) rel)),
          Fs.Notes other machine final) := by
  unfold saveFile
  dsimp only
  rw [placed]
  dsimp only
  let fullPath := join (join config.rootDir scene) rel
  have asked {checked : Machine} (noted : checked.accesses = machine.accesses ++ [fullPath]) :
      Fs.Logs allowed machine checked ∧ Fs.Notes fullPath machine checked :=
    ⟨.of_eq noted (by simpa using target), .of_eq noted (List.mem_singleton_self _)⟩
  apply Ends.bind ((Fs.exists_ends _).and (Fs.exists_accesses _))
  · rintro present checked ⟨⟨same, found⟩, noted⟩
    obtain ⟨start, here⟩ := asked noted
    refine Ends.ite (fun there => ⟨start, here, fun _ absent => ?_⟩) fun unfound => ?_
    · rw [found, absent] at there
      cases there
    · obtain ⟨beside, above⟩ := missing (by simpa [found] using unfound)
      rw [← same] at above ⊢
      apply Ends.bind ((Fs.createDirectories_logs _ above).and (Fs.createDirectories_ends _))
      · rintro created middle ⟨⟨further, all⟩, grown, _⟩
        have ending {final : Machine} (rest : Fs.Logs allowed middle final) :
            Fs.Logs allowed machine final ∧ Fs.Notes fullPath machine final ∧
            (host.Reliable → checked.disk.look fullPath = none →
              ∀ other ∈ checked.disk.lookedAt (parentPath fullPath), Fs.Notes other machine final) :=
          ⟨(start.trans further).trans rest, here.extend (further.trans rest).extends,
            fun reliable _ other member =>
              ((all reliable other member).extend rest.extends).behind start.extends⟩
        have later : ∀ other ∈ middle.disk.lookedAt (parentPath fullPath), allowed other :=
          fun other member =>
            above other (Disk.lookedAt_subset (fun _ => grown.look_eq_none) _ member)
        refine Ends.ite (fun _ => ?_) fun _ => ending (.refl _)
        apply Ends.bind (writeDisk_logs target beside later)
        · intro success written rest
          exact Ends.ite (fun _ => ending rest) fun _ => ending rest
        · exact fun _ _ rest => ending rest
      · rintro thrown final ⟨⟨further, all⟩, _⟩
        exact ⟨start.trans further, here.extend further.extends, fun reliable _ other member =>
          (all reliable other member).behind start.extends⟩
  · rintro thrown final ⟨⟨_, failed⟩, noted⟩
    obtain ⟨logs, notes⟩ := asked noted
    exact ⟨logs, notes, fun reliable => absurd reliable.fault failed⟩

end Save

/-! ## Chunks -/

/-- The indices are asked for at the entries of the directory. -/
theorem numberedFiles_logs (directory : Bytes) {names : List Bytes}
    (all : ∀ name ∈ names, allowed (join directory name)) :
    Fs.OnlyLogs allowed (numberedFiles host directory names) := by
  induction names with
  | nil => exact .pure _
  | cons name rest ih =>
      refine .bind (.of_access (fun _ => Fs.isRegularFile_accesses _)
        (all name (List.mem_cons_self ..))) fun regular => ?_
      refine .bind (ih fun other member => all other (List.mem_cons_of_mem _ member)) fun later => ?_
      split
      · exact .pure _
      · exact .pure _

/-- Asking for the chunks accesses their directory and its entries. -/
theorem getShardIndex_logs {directory : Bytes} (named : machine.disk.Named)
    (inside : allowed directory) (entries : ∀ name, IsName name → allowed (join directory name)) :
    Ends (getShardIndex host directory) machine fun _ final =>
      Fs.Logs allowed machine final ∧ Fs.Notes directory machine final := by
  have once {before after : Machine} (noted : after.accesses = before.accesses ++ [directory]) :
      Fs.Logs allowed before after := .of_eq noted (by simpa using inside)
  unfold getShardIndex
  apply Ends.bind ((Fs.exists_ends directory).and (Fs.exists_accesses directory))
  · rintro present checked ⟨⟨same, _⟩, noted⟩
    have start := once noted
    have here : Fs.Notes directory machine checked := .of_eq noted (List.mem_singleton_self _)
    have ending {final : Machine} (rest : Fs.Logs allowed checked final) :
        Fs.Logs allowed machine final ∧ Fs.Notes directory machine final :=
      ⟨start.trans rest, here.extend rest.extends⟩
    refine Ends.ite (fun _ => ?_) fun _ => ending (.refl _)
    apply Ends.bind ((Fs.isDirectory_ends directory).and (Fs.isDirectory_accesses directory))
    · rintro directory_ seen ⟨unchanged, again⟩
      refine Ends.ite (fun _ => ?_) fun _ => ending (once again)
      apply Ends.bind ((Fs.list_ends directory).and (Fs.list_accesses directory))
      · rintro names listed ⟨⟨_, ⟨_, returned, _, perm⟩ | ⟨⟨_, failed⟩, _⟩⟩, more⟩
        · cases returned
          rw [unchanged, same] at perm
          have all : ∀ name ∈ names, allowed (join directory name) := fun name member =>
            entries name (named.isName (perm.subset member))
          exact (numberedFiles_logs directory all listed).mono fun _ _ rest =>
            ending (((once again).trans (once more)).trans rest)
        · cases failed
      · rintro thrown final ⟨_, more⟩
        exact ending ((once again).trans (once more))
    · rintro thrown final ⟨_, again⟩
      exact ending (once again)
  · rintro thrown final ⟨_, noted⟩
    exact ⟨once noted, .of_eq noted (List.mem_singleton_self _)⟩

end FileStore

end Cdfs
