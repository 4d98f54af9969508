import Cdfs.Controller.MergeOutcome

/-! # A merge that goes through

On a reliable file system a merge succeeds when it comes to the removal of the chunks, their
directory can be removed and the merged file is still there behind it
(`Cdfs.FileCtl.GoesThrough`). Then the chunks stand at the place of the file, put together, and
their directory is gone. The directory cannot be removed when the MD5 of the form makes its path
end in `.`: the chunks go, and then the removal throws.
-/

namespace Cdfs

open Basis FsPath

namespace FileCtl

variable {env : Env} {ctx : HttpContext} {server : Server}

/-- A file moved to the path is still there once the chunks have been removed. -/
def Left (env : Env) (disk : Disk) (md5 path : Bytes) : Prop :=
  ∃ grown, (openedTree env disk md5).created (parentPath path) = some grown ∧
    ((moved grown (mergedFile env md5) path []).removed (mergeDir env md5)).look path ≠ none

instance (env : Env) (disk : Disk) (md5 path : Bytes) : Decidable (Left env disk md5 path) :=
  decidable_of_iff (((openedTree env disk md5).created (parentPath path)).any fun grown =>
      decide (((moved grown (mergedFile env md5) path []).removed (mergeDir env md5)).look path ≠
        none)) <| by
    simp only [Option.any_eq_true, decide_eq_true_eq, Left]

/-- The merged file has a place, and is still there in the end. -/
structure Survives (env : Env) (disk : Disk) (md5 filename scene relPath : Bytes) : Prop where
  placed : FileStore.relPath filename md5 = .ok relPath
  left : Left env disk md5 (publishedPath env scene relPath)

/-- On a reliable file system the merge goes through. -/
structure GoesThrough (env : Env) (ctx : HttpContext) (disk : Disk) (relPath : Bytes) : Prop where
  given : mergeMd5 ctx ≠ []
  named : mergeName ctx ≠ []
  reaches : Reaches env disk (mergeMd5 ctx) (mergeName ctx) (sentScene ctx)
  clears : disk.clears (mergeDir env (mergeMd5 ctx)) = true
  survives : Survives env disk (mergeMd5 ctx) (mergeName ctx) (sentScene ctx) relPath

/-! ## Other hosts -/

/-- Whether a merge comes to the removal does not depend on the host. -/
theorem Reaches.onHost {disk : Disk} {md5 filename scene : Bytes} (host : Host)
    (reaches : Reaches env disk md5 filename scene) :
    Reaches { env with host } disk md5 filename scene :=
  ⟨reaches.found, reaches.assembles, reaches.movable⟩

/-- The converse: the host does not matter. -/
theorem Reaches.ofHost {disk : Disk} {md5 filename scene : Bytes} {host : Host}
    (reaches : Reaches { env with host } disk md5 filename scene) :
    Reaches env disk md5 filename scene :=
  ⟨reaches.found, reaches.assembles, reaches.movable⟩

/-- Neither does it for what a merge finds in the tree. -/
theorem GoesThrough.onHost {disk : Disk} {relPath : Bytes} (host : Host)
    (through : GoesThrough env ctx disk relPath) :
    GoesThrough { env with host } ctx disk relPath :=
  ⟨through.given, through.named, through.reaches.onHost host, through.clears,
    ⟨through.survives.placed, through.survives.left⟩⟩

/-! ## The tree behind the removal -/

/-- Moving files of any content leaves trees of one shape. -/
theorem sameShape_moved {first second : Disk} (same : Disk.SameShape first second)
    (source target one other : Bytes) :
    Disk.SameShape (moved first source target one) (moved second source target other) := by
  unfold moved
  rw [same.cwd]
  exact (same.erase _).put_file _ _ _

/-- What is found at the place of the merged file has been moved there. -/
theorem content_of_moved {tree : Disk} {source target content data chunkDir : Bytes}
    (found : ((moved tree source target content).removed chunkDir).look target =
      some (.file data)) : data = content := by
  have there := Disk.node_of_removed (Disk.node_location_of_look found)
  rw [Disk.cwd_removed, show (moved tree source target content).cwd = tree.cwd from rfl, moved,
    Disk.node_put_self] at there
  cases there
  rfl

/-- A file that survives does so whatever has been written to it. -/
theorem Survives.look {disk tree grown : Disk} {md5 filename scene relPath content : Bytes}
    (survives : Survives env disk md5 filename scene relPath)
    (written : FileStore.Rewritten (mergedFile env md5) content disk tree)
    (created : tree.created (parentPath (publishedPath env scene relPath)) = some grown) :
    ((moved grown (mergedFile env md5) (publishedPath env scene relPath) content).removed
      (mergeDir env md5)).look (publishedPath env scene relPath) = some (.file content) := by
  obtain ⟨opened, made, left⟩ := survives.left
  obtain ⟨other, again, alike⟩ := (sameShape_openedTree written).created made
  rw [created] at again
  cases again
  have shape := (sameShape_moved alike (mergedFile env md5) (publishedPath env scene relPath) []
    content).removed (mergeDir env md5)
  have there := (shape.look_none_iff _).not.mpr left
  obtain ⟨place, resolved, stored⟩ := Option.bind_eq_some_iff.mp
    (Option.ne_none_iff_exists'.mp there).choose_spec
  have here := Disk.location_of_resolve resolved
  subst here
  refine Option.bind_eq_some_iff.mpr ⟨_, resolved, ?_⟩
  rw [stored, ← Disk.node_of_removed stored, Disk.cwd_removed,
    show (moved grown (mergedFile env md5) (publishedPath env scene relPath) content).cwd =
      grown.cwd from rfl, moved, Disk.node_put_self]

/-- A file that is found behind the removal survives. -/
theorem survives_of_found {disk tree grown : Disk} {md5 filename scene relPath content data : Bytes}
    (placed : FileStore.relPath filename md5 = .ok relPath)
    (written : FileStore.Rewritten (mergedFile env md5) content disk tree)
    (created : tree.created (parentPath (publishedPath env scene relPath)) = some grown)
    (found : ((moved grown (mergedFile env md5) (publishedPath env scene relPath) content).removed
      (mergeDir env md5)).look (publishedPath env scene relPath) = some (.file data)) :
    Survives env disk md5 filename scene relPath := by
  obtain ⟨opened, made, alike⟩ := (sameShape_openedTree written).symm.created created
  have shape := (sameShape_moved alike (mergedFile env md5) (publishedPath env scene relPath)
    content []).removed (mergeDir env md5)
  refine ⟨placed, opened, made, (shape.look_none_iff _).not.mpr ?_⟩
  rw [found]
  exact Option.some_ne_none _

/-! ## The merge -/

/-- The reply for a merged file is printed whatever its size and time. -/
theorem printable_mergedReply_iff (md5 filename scene relPath : Bytes) (size : Nat) (mtime : Int64) :
    (mergedReply env (mergedRecord env md5 filename scene relPath size mtime)).unprintable env.codec =
      false ↔ PrintableFile env (mergedRecord env md5 filename scene relPath 0 0) :=
  printable_fileData_iff (by decide +kernel) _

/-- What a merge leaves behind that has gone through. -/
structure Merged (env : Env) (ctx : HttpContext) (before : Server) (relPath : Bytes) (mtime : Int64)
    (stored : Bool) (result : Except Exn Reply) (after : Server) : Prop where
  reported : (∀ call, env.writes call = true) → stored = true
  found : after.machine.disk.look (publishedPath env (sentScene ctx) relPath) =
    some (.file (chunkBytes env before.machine.disk (mergeMd5 ctx)))
  gone : ∀ place, before.machine.disk.Sweeps (mergeDir env (mergeMd5 ctx)) place →
    after.machine.disk.node place = none
  metaStore : after.metaStore = (before.metaStore.saveMeta env.codec
    (mergedRecord env (mergeMd5 ctx) (mergeName ctx) (sentScene ctx) relPath
      (chunkBytes env before.machine.disk (mergeMd5 ctx)).length mtime) stored).2
  replied : ∃ inner, Replied env inner result ∧
    let reply := mergedReply env (mergedRecord env (mergeMd5 ctx) (mergeName ctx) (sentScene ctx)
      relPath (chunkBytes env before.machine.disk (mergeMd5 ctx)).length mtime)
    (reply.unprintable env.codec = false ∧ inner = .ok reply ∨
      reply.unprintable env.codec = true ∧ inner = .error invalidUtf8)

/-- A merge that goes through, on a reliable file system. -/
theorem handleMerge_through (reliable : env.host.Reliable) {relPath : Bytes}
    (through : GoesThrough env ctx server.machine.disk relPath) :
    Ends (handleMerge env ctx) server fun result final =>
      ∃ mtime stored, Merged env ctx server relPath mtime stored result final := by
  have faultless : env.host.Faultless := reliable.fault
  refine (handleMerge_ends ctx).mono fun result final ended => ?_
  cases ended with
  | refused _ _ _ unreached =>
      exact absurd through.reaches (unreached faultless through.given through.named)
  | attempted _ _ ended replied =>
      cases ended with
      | idle _ _ _ unreached => exact absurd through.reaches (unreached faultless)
      | kept _ _ _ _ _ unreached => exact absurd through.reaches (unreached faultless)
      | removed _ placed written _ lost =>
          rw [through.survives.placed] at placed
          cases placed
          obtain ⟨grown, created, tree, absent⟩ := lost reliable
          rw [tree] at absent
          exact absurd (through.survives.look written created) (absent through.clears _)
      | @merged content other data tree grown mtime stored _ placed written complete created removed
          _ gone found _ reported metaStore sent =>
          rw [through.survives.placed] at placed
          cases placed
          have same := found
          rw [removed] at same
          have held := content_of_moved same
          rw [complete faultless] at held
          subst held
          exact ⟨mtime, stored, reported, found, gone, metaStore, _, replied, sent⟩

/-! ## A server with a chunk -/

/-- A store with one chunk where the merge looks for those of `hello`. -/
def stagedDisk (chunk : Bytes) : Disk where
  cwd := [bytes "srv"]
  tree := ((sampleDisk.tree.put [bytes "srv", bytes "data", bytes "store", bytes " _tmp"] .dir).put
    [bytes "srv", bytes "data", bytes "store", bytes " _tmp",
      bytes "5d41402abc4b2a76b9719d911017c592"] .dir).put
    [bytes "srv", bytes "data", bytes "store", bytes " _tmp",
      bytes "5d41402abc4b2a76b9719d911017c592", bytes "0"] (.file chunk)

/-- A server with this store. -/
def stagedServer (chunk : Bytes) : Server :=
  { sampleServer with machine := { disk := stagedDisk chunk } }

/-- Where the merge puts the file below the directory of its scene. -/
def stagedPath : Bytes := bytes "5d/41/5d41402abc4b2a76b9719d911017c592.txt"

theorem asked_sampleMerge : mergeMd5 sampleMerge = bytes "5d41402abc4b2a76b9719d911017c592" ∧
    mergeName sampleMerge = bytes "a.txt" ∧ sentScene sampleMerge = bytes "default" := by
  decide +kernel

theorem mergeMd5_sampleMerge :
    mergeMd5 sampleMerge = bytes "5d41402abc4b2a76b9719d911017c592" := asked_sampleMerge.1

theorem mergeName_sampleMerge : mergeName sampleMerge = bytes "a.txt" := asked_sampleMerge.2.1

theorem sentScene_sampleMerge : sentScene sampleMerge = bytes "default" := asked_sampleMerge.2.2

/-- The file that the chunk makes can be moved to the path below the default scene, and is
left there. -/
def TakesChunk (relPath : Bytes) : Prop :=
  let md5 := bytes "5d41402abc4b2a76b9719d911017c592"
  let path := publishedPath sampleEnv (bytes "default") relPath
  Movable (openedTree sampleEnv (stagedDisk (bytes "other")) md5) path ∧
    Left sampleEnv (stagedDisk (bytes "other")) md5 path

instance (relPath : Bytes) : Decidable (TakesChunk relPath) := inferInstanceAs (Decidable (_ ∧ _))

theorem takesChunk_stagedPath : TakesChunk stagedPath := by decide +kernel

/-- A merge of the chunk goes through under every name with such a path. -/
theorem goesThrough_of_takesChunk {ctx : HttpContext} {relPath : Bytes}
    (md5 : mergeMd5 ctx = bytes "5d41402abc4b2a76b9719d911017c592") (named : mergeName ctx ≠ [])
    (scene : sentScene ctx = bytes "default") (takes : TakesChunk relPath)
    (placed : FileStore.relPath (mergeName ctx) (bytes "5d41402abc4b2a76b9719d911017c592") =
      .ok relPath) :
    GoesThrough sampleEnv ctx (stagedDisk (bytes "other")) relPath := by
  obtain ⟨given, found, assembles, clears⟩ :
      let md5 := bytes "5d41402abc4b2a76b9719d911017c592"
      md5 ≠ [] ∧ chunkIndices sampleEnv (stagedDisk (bytes "other")) md5 ≠ [] ∧
        Assembles sampleEnv (stagedDisk (bytes "other")) md5 ∧
        (stagedDisk (bytes "other")).clears (mergeDir sampleEnv md5) = true := by
    decide +kernel
  obtain ⟨movable, left⟩ := takes
  rw [← md5] at given found assembles movable clears left placed
  rw [← scene] at movable left
  exact ⟨given, named, ⟨found, assembles, relPath, placed, movable⟩, clears, placed, left⟩

/-- The sample merge goes through. -/
theorem goesThrough_staged :
    GoesThrough sampleEnv sampleMerge (stagedDisk (bytes "other")) stagedPath := by
  obtain ⟨md5, name, scene⟩ := asked_sampleMerge
  refine goesThrough_of_takesChunk md5 ?_ scene takesChunk_stagedPath ?_ <;> rw [name] <;> decide +kernel

end FileCtl

end Cdfs
