import Cdfs.Basis.Removal
import Cdfs.Basis.Shape
import Cdfs.Controller.MergePlaces
import Cdfs.Store.ReliableWrite

/-! # How a merge ends

Whatever calls fail, `handleMerge` ends in one of four ways (`Cdfs.FileCtl.MergeOutcome`):
nothing has been written, the merged file has been but the chunks are still there, the
removal of the chunks has begun and something failed then, or the merged file is at its
place and its record saved. Whether the removal can be reached is decided by the tree
before the merge (`Cdfs.FileCtl.Reaches`).
-/

namespace Cdfs

open Basis FsPath

namespace FileCtl

variable {env : Env} {machine : Machine}

/-! ## Moving the merged file -/

/-- A file can be moved to the path: its directories can be created, and it leads to no
directory then. -/
def Movable (disk : Disk) (path : Bytes) : Prop :=
  ∃ tree, disk.created (parentPath path) = some tree ∧ (tree.resolve path).isSome = true ∧
    tree.look path ≠ some .dir

instance (disk : Disk) (path : Bytes) : Decidable (Movable disk path) :=
  decidable_of_iff ((disk.created (parentPath path)).any fun tree =>
      decide ((tree.resolve path).isSome = true ∧ tree.look path ≠ some .dir)) <| by
    simp only [Option.any_eq_true, decide_eq_true_eq, Movable]

/-- The tree after a file with the content has been moved. -/
def moved (tree : Disk) (source target content : Bytes) : Disk :=
  (tree.erase (location tree.cwd source)).put (location tree.cwd target) (.file content)

/-- Moving a file keeps the directories. -/
theorem touched_moved {tree : Disk} {source target content : Bytes}
    (origin : tree.node (location tree.cwd source) ≠ some .dir)
    (free : tree.node (location tree.cwd target) ≠ some .dir) :
    Disk.Touched {location tree.cwd target, location tree.cwd source} tree
      (moved tree source target content) := by
  refine Disk.Touched.trans (.erase (Set.mem_insert_of_mem _ rfl) origin) ?_
  refine .put (Set.mem_insert ..) (fun directory => ?_) content
  by_cases same : location tree.cwd source = location tree.cwd target
  · rw [← same, Disk.node_erase_self] at directory
    cases directory
  · rw [Disk.node_erase_of_ne _ same] at directory
    exact free directory

/-- How moving the merged file and removing the chunks ends. -/
inductive Moving (env : Env) (merged chunkDir finalPath content : Bytes) (before : Disk)
    (result : Except Exn Nat) (after : Disk) : Prop where
  | unmoved {thrown : Exn} (failed : result = .error thrown) (grown : Disk.Grown before after)
      (stuck : env.host.Faultless → ¬ Movable before finalPath)
  | removed {thrown : Exn} (movable : Movable before finalPath) (failed : result = .error thrown)
      (stopped : (∀ call, env.host.removeFault call = true) →
        (∀ call place, env.host.removedFirst call place = true) →
        thrown = .filesystem [chunkDir] ∧
          ∀ name, after.node (location before.cwd chunkDir ++ [name]) = none)
      (lost : env.host.Reliable → ∃ tree, before.created (parentPath finalPath) = some tree ∧
        after = (moved tree merged finalPath content).removed chunkDir ∧
        (before.clears chunkDir = true → ∀ data, after.look finalPath ≠ some (.file data)))
  | finished {tree : Disk} {data : Bytes}
      (created : before.created (parentPath finalPath) = some tree)
      (resolved : (tree.resolve finalPath).isSome = true) (free : tree.look finalPath ≠ some .dir)
      (removed : after = (moved tree merged finalPath content).removed chunkDir)
      (clears : before.clears chunkDir = true)
      (gone : ∀ place, before.Sweeps chunkDir place → after.node place = none)
      (found : after.look finalPath = some (.file data)) (succeeded : result = .ok data.length)
      (working : ¬ ∀ call, env.host.removeFault call = true)

/-- Removing the chunks after the move, and asking for the size. -/
theorem removeChunks_ends {merged chunkDir finalPath content : Bytes} {before tree : Disk}
    (created : before.created (parentPath finalPath) = some tree)
    (resolved : (tree.resolve finalPath).isSome = true) (free : tree.look finalPath ≠ some .dir)
    (renamed : machine.disk = moved tree merged finalPath content)
    (kept : Disk.KeepsDirs before machine.disk)
    (chunks : before.resolve chunkDir = some (location before.cwd chunkDir)) :
    Ends (Fs.removeAll env.host chunkDir >>= fun _ => Fs.fileSize env.host finalPath) machine
      fun result final => Moving env merged chunkDir finalPath content before result final.disk := by
  have movable : Movable before finalPath := ⟨tree, created, resolved, free⟩
  have reached : (before.resolve chunkDir).isSome = true := by rw [chunks]; rfl
  have there := kept.resolve chunks
  apply Ends.bind (Fs.removeAll_ends chunkDir)
  · rintro _ middle (⟨_, removed, clears, working⟩ | ⟨returned, _⟩)
    · rw [kept.clears reached] at clears
      have works : ¬ ∀ call, env.host.removeFault call = true := fun failing => by
        have here := working (by rw [there]; rfl)
        rw [failing] at here
        cases here
      apply Ends.mono (Fs.fileSize_ends finalPath)
      rintro result final ⟨same, ended⟩
      have tree_eq : final.disk = (moved tree merged finalPath content).removed chunkDir := by
        rw [same, removed, renamed]
      cases result with
      | ok size =>
          obtain ⟨data, found, rfl⟩ := ended
          refine .finished created resolved free tree_eq clears (fun place sweeps => ?_)
            (same ▸ found) rfl works
          rw [same, removed]
          exact Disk.node_removed_of_sweeps (by rw [there]; rfl) (kept.sweeps reached sweeps)
      | error thrown =>
          refine .removed movable rfl (fun failing => absurd failing works) fun reliable => ?_
          refine ⟨tree, created, tree_eq, fun _ data found => ?_⟩
          rcases ended with failed | absent
          · exact failed reliable.fault
          · exact absent data (same ▸ found)
    · cases returned
  · rintro thrown final (⟨returned, _⟩ | ⟨returned, stays, complete⟩)
    · cases returned
    · cases returned
      refine .removed movable rfl (fun _ all => ⟨rfl, fun name => ?_⟩) fun reliable => ?_
      · rw [complete _ there (all _)]
        have apart := (Disk.sweeps_entry before chunkDir name)
        refine Disk.node_emptied_below apart.inside fun same => ?_
        simp at same
      · obtain ⟨unclear, removed⟩ := stays (reliable.removeFault _)
        rw [kept.clears reached] at unclear
        refine ⟨tree, created, by rw [removed, renamed], fun clears => ?_⟩
        rw [unclear] at clears
        cases clears

/-- Moving the merged file, whatever calls fail. -/
theorem moveMerged_ends {merged chunkDir finalPath content : Bytes} {start : Disk}
    (written : FileStore.Rewritten merged content start machine.disk)
    (chunks : machine.disk.look chunkDir = some .dir) :
    Ends (moveMerged env merged chunkDir finalPath) machine fun result final =>
      Moving env merged chunkDir finalPath content machine.disk result final.disk := by
  unfold moveMerged
  apply Ends.bind ((Fs.createDirectories_ends _).and (Fs.createDirectories_created _))
  · rintro made middle ⟨⟨grown, _, returned, _⟩, _, again, created, exact⟩
    cases returned
    cases again
    cases made with
    | false =>
        refine .unmoved rfl grown ?_
        rintro faultless ⟨tree, some, _⟩
        rw [some] at exact
        cases exact faultless
    | true =>
        have created := created rfl
        rw [if_pos rfl]
        have source := grown.keepsDirs.resolve written.hasFile.1
        have stored := (grown.file_iff _ content).mpr written.hasFile.2
        have cwd := grown.cwd
        have moves : Ends (Fs.rename env.host merged finalPath) middle fun result _ =>
            env.host.Faultless → (middle.disk.resolve finalPath).isSome = true →
              middle.disk.look finalPath ≠ some .dir → result = .ok ⟨⟩ := by
          by_cases can : env.host.Faultless ∧ (middle.disk.resolve finalPath).isSome = true ∧
              middle.disk.look finalPath ≠ some .dir
          · obtain ⟨faultless, resolved, free⟩ := can
            obtain ⟨place, here⟩ := Option.isSome_iff_exists.mp resolved
            have other : middle.disk.node place ≠ some .dir := fun directory =>
              free (Option.bind_eq_some_iff.mpr ⟨place, here, directory⟩)
            exact (FileStore.rename_faultless faultless source stored here other).mono
              fun _ _ ended _ _ _ => ended
          · exact (Ends.any _ _).mono fun _ _ _ one two three => absurd ⟨one, two, three⟩ can
        apply Ends.bind ((Fs.rename_ends merged finalPath).and moves)
        · rintro _ renamed ⟨⟨moving, found, resolved, free, tree⟩, _⟩
          have entry : middle.disk.look merged = some (.file content) := by
            refine Option.bind_eq_some_iff.mpr ⟨_, source, stored⟩
          rw [entry] at found
          cases found
          have origin : middle.disk.node (location middle.disk.cwd merged) ≠ some .dir := by
            rw [cwd, stored]
            exact nofun
          have touched : Disk.Touched {location middle.disk.cwd finalPath,
              location middle.disk.cwd merged} middle.disk
              (moved middle.disk merged finalPath content) := touched_moved origin free
          obtain ⟨place, before, _⟩ := Option.bind_eq_some_iff.mp chunks
          have here := Disk.location_of_resolve before
          subst here
          refine removeChunks_ends created (by rw [resolved]; rfl) ?_ tree ?_ before
          · exact fun directory => free (Disk.node_location_of_look directory)
          · rw [tree]
            exact grown.keepsDirs.trans touched.keepsDirs
        · rintro thrown final ⟨same, succeeds⟩
          refine .unmoved rfl (same ▸ grown) ?_
          rintro faultless ⟨tree, some, resolved, free⟩
          rw [created] at some
          cases some
          cases succeeds faultless resolved free
  · rintro thrown final ⟨⟨_, _, returned, _⟩, _⟩
    cases returned

/-! ## From the chunks to the reply -/

/-- Where the merged file goes. -/
def publishedPath (env : Env) (scene relPath : Bytes) : Bytes :=
  join (join env.config.rootDir scene) relPath

/-- A merge without faults comes to the removal of the chunks. -/
structure Reaches (env : Env) (disk : Disk) (md5 filename scene : Bytes) : Prop where
  found : chunkIndices env disk md5 ≠ []
  assembles : Assembles env disk md5
  movable : ∃ relPath, FileStore.relPath filename md5 = .ok relPath ∧
    Movable (openedTree env disk md5) (publishedPath env scene relPath)

/-- What the chunks add up to, in increasing order of their indices. -/
def chunkBytes (env : Env) (disk : Disk) (md5 : Bytes) : Bytes :=
  chunkData disk (mergeDir env md5) ((chunkIndices env disk md5).mergeSort (· ≤ ·)) true

theorem mergeSort_eq_of_perm {first second : List Int} (perm : first.Perm second) :
    first.mergeSort (· ≤ ·) = second.mergeSort (· ≤ ·) :=
  (((List.mergeSort_perm first _).trans perm).trans
    (List.mergeSort_perm second _).symm).eq_of_pairwise' (List.pairwise_mergeSort' _ _)
    (List.pairwise_mergeSort' _ _)

theorem look_mergeDir_of_found {disk : Disk} {md5 : Bytes} (found : chunkIndices env disk md5 ≠ []) :
    disk.look (mergeDir env md5) = some .dir := by
  by_contra other
  exact found (if_neg other)

/-- However much has been written to the merged file, the tree has the same shape. -/
theorem sameShape_openedTree {disk after : Disk} {md5 content : Bytes}
    (written : FileStore.Rewritten (mergedFile env md5) content disk after) :
    Disk.SameShape (openedTree env disk md5) after := by
  refine ⟨written.cwd, fun place => ?_, fun place => ?_⟩
  · by_cases here : location disk.cwd (mergedFile env md5) = place
    · subst here
      rw [written.node_self, openedTree, Disk.node_put_self]
      exact iff_of_false nofun nofun
    · rw [openedTree, Disk.node_put_of_ne _ _ here, written.touched.node place (Ne.symm here)]
  · by_cases here : location disk.cwd (mergedFile env md5) = place
    · subst here
      rw [written.node_self, openedTree, Disk.node_put_self]
      exact iff_of_false nofun nofun
    · rw [openedTree, Disk.node_put_of_ne _ _ here, written.touched.node place (Ne.symm here)]

theorem Movable.of_sameShape {first second : Disk} (same : Disk.SameShape first second) {path : Bytes}
    (movable : Movable first path) : Movable second path := by
  obtain ⟨tree, created, resolved, free⟩ := movable
  obtain ⟨other, again, alike⟩ := same.created created
  refine ⟨other, again, ?_, fun directory => free ((alike.look_dir_iff path).mp directory)⟩
  rw [alike.resolve]
  exact resolved

/-- The result is no success. -/
def Silent (result : Except Exn Reply) : Prop := ∀ message data, result ≠ .ok (.success message data)

/-- The record of a merged file. -/
def mergedRecord (env : Env) (md5 filename scene relPath : Bytes) (size : Nat) (mtime : Int64) :
    MetaFile where
  md5 := md5
  path := join scene relPath
  name := filename
  scene := scene
  size := Int64.ofNat size
  mtime := mtime
  peers := [env.metaConfig.peerId]

/-- The reply for a merged file. -/
def mergedReply (env : Env) (record : MetaFile) : Reply :=
  .success (bytes "Merge success") (fileData env record)

/-- How the part of the merge inside its handler of exceptions ends. -/
inductive MergeResult (env : Env) (md5 filename scene : Bytes) (before : Disk)
    (store : MetadataStore) (result : Except Exn Reply) (after : Server) : Prop where
  | idle (same : after.machine.disk = before)
      (metaStore : after.metaStore = store) (silent : Silent result)
      (unreached : env.host.Faultless → ¬ Reaches env before md5 filename scene)
  | kept {content : Bytes} {tree : Disk} (found : chunkIndices env before md5 ≠ [])
      (written : FileStore.Rewritten (mergedFile env md5) content before tree)
      (grown : Disk.Grown tree after.machine.disk) (metaStore : after.metaStore = store)
      (silent : Silent result)
      (unreached : env.host.Faultless → ¬ Reaches env before md5 filename scene)
  | removed {content relPath : Bytes} {tree : Disk} {thrown : Exn}
      (reaches : Reaches env before md5 filename scene)
      (placed : FileStore.relPath filename md5 = .ok relPath)
      (written : FileStore.Rewritten (mergedFile env md5) content before tree)
      (stopped : (∀ call, env.host.removeFault call = true) →
        (∀ call place, env.host.removedFirst call place = true) →
        thrown = .filesystem [mergeDir env md5] ∧
          ∀ name, after.machine.disk.node (location before.cwd (mergeDir env md5) ++ [name]) = none)
      (lost : env.host.Reliable → ∃ grown,
        tree.created (parentPath (publishedPath env scene relPath)) = some grown ∧
        after.machine.disk = (moved grown (mergedFile env md5) (publishedPath env scene relPath)
          content).removed (mergeDir env md5) ∧
        (before.clears (mergeDir env md5) = true →
          ∀ data, after.machine.disk.look (publishedPath env scene relPath) ≠ some (.file data)))
      (metaStore : after.metaStore = store) (failed : result = .error thrown)
  | merged {content relPath data : Bytes} {tree grown : Disk} {mtime : Int64} {stored : Bool}
      (reaches : Reaches env before md5 filename scene)
      (placed : FileStore.relPath filename md5 = .ok relPath)
      (written : FileStore.Rewritten (mergedFile env md5) content before tree)
      (complete : env.host.Faultless → content = chunkBytes env before md5)
      (created : tree.created (parentPath (publishedPath env scene relPath)) = some grown)
      (removed : after.machine.disk = (moved grown (mergedFile env md5)
        (publishedPath env scene relPath) content).removed (mergeDir env md5))
      (clears : before.clears (mergeDir env md5) = true)
      (gone : ∀ place, before.Sweeps (mergeDir env md5) place → after.machine.disk.node place = none)
      (found : after.machine.disk.look (publishedPath env scene relPath) = some (.file data))
      (working : ¬ ∀ call, env.host.removeFault call = true)
      (reported : (∀ call, env.writes call = true) → stored = true)
      (metaStore : after.metaStore = (store.saveMeta env.codec
        (mergedRecord env md5 filename scene relPath data.length mtime) stored).2)
      (sent : let reply := mergedReply env (mergedRecord env md5 filename scene relPath data.length mtime)
        reply.unprintable env.codec = false ∧ result = .ok reply ∨
          reply.unprintable env.codec = true ∧ result = .error invalidUtf8)

theorem silent_of_error {result : Except Exn Reply} {message : Bytes} {status : Nat}
    (sent : result = .ok (.error message status) ∨ result = .error invalidUtf8) : Silent result := by
  rintro text data rfl
  rcases sent with sent | thrown
  · cases sent
  · cases thrown

/-- The part of the merge behind putting the chunks together. -/
theorem moveMerged_result {server assembled : Server} {md5 filename scene relPath content : Bytes}
    (found : chunkIndices env server.machine.disk md5 ≠ [])
    (assembles : Assembles env server.machine.disk md5)
    (placed : FileStore.relPath filename md5 = .ok relPath)
    (written : FileStore.Rewritten (mergedFile env md5) content server.machine.disk
      assembled.machine.disk)
    (complete : env.host.Faultless → content = chunkBytes env server.machine.disk md5)
    (metaStore : assembled.metaStore = server.metaStore) :
    Ends (onDisk (moveMerged env (mergedFile env md5) (mergeDir env md5)
        (publishedPath env scene relPath)) >>= fun size =>
          replyStored env (bytes "Merge success") filename scene md5 (join scene relPath) size)
      assembled fun result final =>
        MergeResult env md5 filename scene server.machine.disk server.metaStore result final := by
  have shape := sameShape_openedTree written
  have reaches (movable : Movable assembled.machine.disk (publishedPath env scene relPath)) :
      Reaches env server.machine.disk md5 filename scene :=
    ⟨found, assembles, relPath, placed, movable.of_sameShape shape.symm⟩
  have directory := look_mergeDir_of_found found
  have chunks := written.touched.keepsDirs.look_dir directory
  have dirs := written.touched.keepsDirs
  have reached : (server.machine.disk.resolve (mergeDir env md5)).isSome = true := by
    obtain ⟨place, resolved, _⟩ := Option.bind_eq_some_iff.mp directory
    rw [resolved]
    rfl
  apply Ends.bind (onDisk_ends (moveMerged_ends written chunks))
  · rintro size moved ⟨moving, rest⟩
    have kept : moved.metaStore = server.metaStore := by rw [rest, metaStore]
    cases moving with
    | unmoved failed _ _ => cases failed
    | removed _ failed _ _ => cases failed
    | finished created resolved free removed clears gone there succeeded working =>
        cases succeeded
        refine (replyStored_ends ..).mono ?_
        rintro result final ⟨machine, mtime, stored, reported, saved, sent⟩
        rw [kept] at saved
        rw [← machine] at removed there gone
        rw [dirs.clears reached] at clears
        exact .merged (reaches ⟨_, created, resolved, free⟩) placed written complete created removed
          clears (fun place sweeps => gone place (dirs.sweeps reached sweeps)) there working reported
          saved sent
  · rintro thrown final ⟨moving, rest⟩
    have kept : final.metaStore = server.metaStore := by rw [rest, metaStore]
    cases moving with
    | unmoved failed grown stuck =>
        refine .kept found written grown kept nofun fun faultless reached => stuck faultless ?_
        obtain ⟨other, again, movable⟩ := reached.movable
        rw [placed] at again
        cases again
        exact movable.of_sameShape shape
    | removed movable failed stopped lost =>
        cases failed
        rw [written.cwd] at stopped
        rw [dirs.clears reached] at lost
        exact .removed (reaches movable) placed written stopped lost kept rfl
    | finished _ _ _ _ _ _ _ succeeded _ => cases succeeded

/-- The part of the merge inside its handler of exceptions, whatever calls fail. -/
theorem mergeChunks_ends {server : Server} {md5 : Bytes} (given : md5 ≠ []) (filename scene : Bytes) :
    Ends (mergeChunks env md5 filename scene) server fun result final =>
      MergeResult env md5 filename scene server.machine.disk server.metaStore result final := by
  unfold mergeChunks
  apply Ends.bind (onDisk_ends (readIndices_ends md5))
  · rintro indices listed ⟨⟨same, ⟨_, returned, perm⟩ | ⟨⟨_, returned⟩, _⟩⟩, rest⟩
    · cases returned
      have metaStore : listed.metaStore = server.metaStore := by rw [rest]
      refine Ends.ite (fun none => ?_) fun some => ?_
      · refine (send_ends _).mono ?_
        rintro result final ⟨rfl, sent⟩
        refine .idle same metaStore (silent_of_error sent) fun _ reaches => reaches.found ?_
        exact List.nil_perm.mp (none ▸ perm)
      · have found : chunkIndices env server.machine.disk md5 ≠ [] := fun none =>
          some (List.perm_nil.mp (none ▸ perm))
        have members (index : Int) : index ∈ indices.mergeSort (· ≤ ·) ↔
            index ∈ chunkIndices env listed.machine.disk md5 := by
          rw [List.mem_mergeSort, same]
          exact perm.mem_iff
        apply Ends.bind (onDisk_ends (assemble_ends members))
        · rintro _ assembled ⟨⟨assembles, _, ⟨_, failed⟩ | ⟨content, written, complete⟩⟩, last⟩
          · exact absurd rfl failed
          · have assembles := assembles rfl
            rw [same] at assembles written complete
            have kept : assembled.metaStore = server.metaStore := by rw [last, metaStore]
            cases placed : FileStore.relPath filename md5 with
            | error thrown =>
                refine .kept found written (.refl _) kept nofun fun _ reaches => ?_
                obtain ⟨other, again, _⟩ := reaches.movable
                rw [placed] at again
                cases again
            | ok relPath =>
                refine moveMerged_result found assembles placed written (fun faultless => ?_) kept
                rw [chunkBytes, ← mergeSort_eq_of_perm perm]
                exact complete faultless rfl fun index _ => location_chunkFile_ne given
                  (look_mergeDir_of_found found) assembles.1 index
        · rintro thrown final ⟨⟨_, assembling, wrote⟩, last⟩
          have kept : final.metaStore = server.metaStore := by rw [last, metaStore]
          rw [same] at assembling wrote
          have unreached (faultless : env.host.Faultless) :
              ¬ Reaches env server.machine.disk md5 filename scene := fun reaches => by
            cases assembling faultless reaches.assembles
          rcases wrote with ⟨unchanged, _⟩ | ⟨content, written, _⟩
          · exact .idle unchanged kept nofun unreached
          · exact .kept found written (.refl _) kept nofun unreached
    · cases returned
  · rintro thrown final ⟨⟨same, ⟨_, returned, _⟩ | ⟨_, none⟩⟩, rest⟩
    · cases returned
    · exact .idle same (by rw [rest]) nofun fun faultless reaches => reaches.found (none faultless)

/-! ## The whole request -/

/-- The MD5 sent with a request to merge. -/
def mergeMd5 (ctx : HttpContext) : Bytes := ctx.getForm.getParam (bytes "md5")

/-- The file name sent with a request to merge. -/
def mergeName (ctx : HttpContext) : Bytes := ctx.getForm.getParam (bytes "filename")

/-- The reply for an exception. -/
def mergeFailure (thrown : Exn) : Reply :=
  .error (bytes "Merge failed: " ++ thrown.what) badRequest

/-- What the handler of exceptions makes of a result. -/
def Replied (env : Env) (inner result : Except Exn Reply) : Prop :=
  result = inner ∧ (∃ reply, inner = .ok reply) ∨
    ∃ thrown, inner = .error thrown ∧
      ((mergeFailure thrown).unprintable env.codec = false ∧ result = .ok (mergeFailure thrown) ∨
        (mergeFailure thrown).unprintable env.codec = true ∧ result = .error invalidUtf8)

/-- How a request to merge ends. -/
inductive MergeOutcome (env : Env) (ctx : HttpContext) (before : Server) (result : Except Exn Reply)
    (after : Server) : Prop where
  | refused (same : after.machine.disk = before.machine.disk)
      (metaStore : after.metaStore = before.metaStore) (silent : Silent result)
      (unreached : env.host.Faultless → mergeMd5 ctx ≠ [] → mergeName ctx ≠ [] →
        ¬ Reaches env before.machine.disk (mergeMd5 ctx) (mergeName ctx) (sentScene ctx))
  | attempted {inner : Except Exn Reply} (given : mergeMd5 ctx ≠ []) (named : mergeName ctx ≠ [])
      (ended : MergeResult env (mergeMd5 ctx) (mergeName ctx) (sentScene ctx) before.machine.disk
        before.metaStore inner after)
      (replied : Replied env inner result)

/-- A request to merge, whatever calls fail. -/
theorem handleMerge_ends {server : Server} (ctx : HttpContext) :
    Ends (handleMerge env ctx) server fun result final =>
      MergeOutcome env ctx server result final := by
  unfold handleMerge
  refine Ends.ite (fun empty => ?_) fun both => ?_
  · refine (send_ends _).mono ?_
    rintro result final ⟨rfl, sent⟩
    refine .refused rfl rfl (silent_of_error sent) fun _ given named => ?_
    exact absurd empty (not_or.mpr ⟨given, named⟩)
  · obtain ⟨given, named⟩ := not_or.mp both
    apply Ends.bind (onDisk_ends (Fs.exists_ends _))
    · rintro there middle ⟨⟨same, found⟩, rest⟩
      have metaStore : middle.metaStore = server.metaStore := by rw [rest]
      refine Ends.ite (fun _ => ?_) fun absent => ?_
      · apply Ends.tryCatch (mergeChunks_ends given (mergeName ctx) (sentScene ctx))
        · rintro reply final ended
          rw [same, metaStore] at ended
          exact .attempted given named ended (.inl ⟨rfl, reply, rfl⟩)
        · rintro thrown left ended
          rw [same, metaStore] at ended
          refine (send_printed_ends _).mono ?_
          rintro result final ⟨rfl, sent⟩
          exact .attempted given named ended (.inr ⟨thrown, rfl, sent⟩)
      · refine (send_ends _).mono ?_
        rintro result final ⟨rfl, sent⟩
        refine .refused same metaStore (silent_of_error sent) fun _ _ _ reaches => ?_
        have directory := look_mergeDir_of_found reaches.found
        rw [show mergeDir env (mergeMd5 ctx) = mergeDir env (ctx.getForm.getParam (bytes "md5"))
          from rfl] at directory
        rw [directory] at found
        exact absent found
    · rintro thrown final ⟨⟨same, failed⟩, rest⟩
      exact .refused same (by rw [rest]) nofun fun faultless => absurd faultless failed

end FileCtl

end Cdfs
