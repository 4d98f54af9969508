import Cdfs.Controller.MergeSuccess

/-! # Checking what a merge publishes

`handleMerge` never computes the MD5 of what it has put together: it takes the one from the
form. So a merge that goes through publishes content of the MD5 exactly if the chunks in the
directory happen to add up to it.
-/

namespace Cdfs

open Basis FsPath

namespace FileCtl

variable {env : Env} {ctx : HttpContext} {server : Server}

/-- The reply is a success. -/
def Succeeds (result : Except Exn Reply) : Prop := ∃ message data, result = .ok (.success message data)

/-- The file that the merge has published has the MD5 of the form. -/
def PublishesVerified (env : Env) (ctx : HttpContext) (after : Server) : Prop :=
  ∃ relPath data, FileStore.relPath (mergeName ctx) (mergeMd5 ctx) = .ok relPath ∧
    after.machine.disk.look (publishedPath env (sentScene ctx) relPath) = some (.file data) ∧
    md5Hex env.digest data = mergeMd5 ctx

/-- If no call fails, removals apart, the merge replies success only when the published file
has the MD5 of the form. -/
def VerifiesMerge (env : Env) (ctx : HttpContext) (server : Server) : Prop :=
  ∀ host : Host, host.Faultless →
    Ends (handleMerge { env with host } ctx) server fun result final =>
      Succeeds result → PublishesVerified env ctx final

/-- The merge goes through and its reply can be printed. -/
def Publishes (env : Env) (ctx : HttpContext) (disk : Disk) : Prop :=
  ∃ relPath, GoesThrough env ctx disk relPath ∧
    PrintableFile env
      (mergedRecord env (mergeMd5 ctx) (mergeName ctx) (sentScene ctx) relPath 0 0)

/-- A success is sent from inside the handler of exceptions. -/
theorem Replied.eq_of_succeeds {inner result : Except Exn Reply} (replied : Replied env inner result)
    (succeeded : Succeeds result) : inner = result := by
  obtain ⟨message, data, succeeded⟩ := succeeded
  rcases replied with ⟨same, _⟩ | ⟨thrown, _, ⟨_, sent⟩ | ⟨_, sent⟩⟩
  · exact same.symm
  · rw [sent] at succeeded
    cases succeeded
  · rw [sent] at succeeded
    cases succeeded

/-- A success comes from a merge that has published the chunks, put together. -/
theorem publishes_of_succeeds (faultless : env.host.Faultless) :
    Ends (handleMerge env ctx) server fun result final => Succeeds result →
      Publishes env ctx server.machine.disk ∧
      ∃ relPath, FileStore.relPath (mergeName ctx) (mergeMd5 ctx) = .ok relPath ∧
        final.machine.disk.look (publishedPath env (sentScene ctx) relPath) =
          some (.file (chunkBytes env server.machine.disk (mergeMd5 ctx))) := by
  refine (handleMerge_ends ctx).mono fun result final ended succeeded => ?_
  obtain ⟨message, data, sent⟩ := succeeded
  cases ended with
  | refused _ _ silent _ => exact absurd sent (silent message data)
  | attempted given named ended replied =>
      have same := replied.eq_of_succeeds ⟨message, data, sent⟩
      subst same
      cases ended with
      | idle _ _ silent _ => exact absurd sent (silent message data)
      | kept _ _ _ _ silent _ => exact absurd sent (silent message data)
      | removed _ _ _ _ _ _ failed =>
          rw [failed] at sent
          cases sent
      | merged reaches placed written complete created removed clears _ found _ _ _ ended =>
          have stored := found
          rw [removed] at stored
          have held := content_of_moved stored
          rw [complete faultless] at held
          rw [held] at found
          have survives := survives_of_found placed written created stored
          refine ⟨⟨_, ⟨given, named, reaches, clears, survives⟩, ?_⟩, _, placed, found⟩
          rcases ended with ⟨printable, _⟩ | ⟨_, failed⟩
          · exact (printable_mergedReply_iff ..).mp printable
          · rw [failed] at sent
            cases sent

/-- A merge that goes through publishes what the chunks add up to, and says so. -/
theorem not_verifiesMerge (publishes : Publishes env ctx server.machine.disk)
    (other : md5Hex env.digest (chunkBytes env server.machine.disk (mergeMd5 ctx)) ≠
      mergeMd5 ctx) : ¬ VerifiesMerge env ctx server := by
  intro verifies
  obtain ⟨relPath, through, printable⟩ := publishes
  refine ((verifies calmHost calmHost_reliable.fault).and
    (handleMerge_through calmHost_reliable (through.onHost calmHost))).const ?_
  rintro result final ⟨verified, mtime, stored, merged⟩
  have prints := (printable_mergedReply_iff (mergeMd5 ctx) (mergeName ctx) (sentScene ctx) relPath
    (chunkBytes env server.machine.disk (mergeMd5 ctx)).length mtime).mpr printable
  obtain ⟨inner, replied, ⟨_, rfl⟩ | ⟨unprintable, _⟩⟩ := merged.replied
  · have succeeded : Succeeds result := by
      rcases replied with ⟨same, _⟩ | ⟨thrown, failed, _⟩
      · exact ⟨_, _, same⟩
      · cases failed
    obtain ⟨place, data, placed, found, hashed⟩ := verified succeeded
    rw [through.survives.placed] at placed
    cases placed
    have there := merged.found
    rw [show publishedPath { env with host := calmHost } (sentScene ctx) relPath =
      publishedPath env (sentScene ctx) relPath from rfl, found] at there
    cases there
    exact other hashed
  · exact absurd (prints.symm.trans unprintable) Bool.false_ne_true

/-- The removal that ends a merge whose MD5 is a dot fails, as the path it removes ends in the
dot. -/
example : (stagedDisk (bytes "other")).clears (mergeDir sampleEnv (bytes ".")) = false := by
  decide +kernel

/-- What the one chunk adds up to. -/
theorem chunkBytes_staged : chunkBytes sampleEnv (stagedServer (bytes "other")).machine.disk
    (mergeMd5 sampleMerge) = bytes "other" := by
  have indices : chunkIndices sampleEnv (stagedServer (bytes "other")).machine.disk
      (mergeMd5 sampleMerge) = [0] := by
    rw [mergeMd5_sampleMerge]
    decide +kernel
  rw [chunkBytes, indices, List.mergeSort_singleton, mergeMd5_sampleMerge]
  decide +kernel

end FileCtl

end Cdfs
