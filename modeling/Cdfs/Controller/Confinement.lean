import Cdfs.Controller.MergeOutcome
import Cdfs.Controller.UploadPlaces
import Cdfs.Controller.UploadTrace
import Cdfs.Store.StoreAccesses

/-! # Which paths the handlers access

`save_file` refuses a path with `..` for a chunk. The other handlers build their paths from
what the client sends without looking at it. `Cdfs.FileCtl.confines_iff` says for each of
them when every path it hands to the file system stays within the root directory.
-/

namespace Cdfs

open Basis FsPath

namespace FileCtl

variable {env : Env} {server : Server} {machine : Machine} {allowed : Bytes → Prop}

/-- A request whose handler reaches files by a path that the client has a part in. -/
inductive FileRequest where
  | upload (ctx : HttpContext)
  | merge (ctx : HttpContext)
  | checkChunk (ctx : HttpContext)
  | download (ctx : HttpContext)

def FileRequest.handler (env : Env) : FileRequest → Handler Reply
  | upload ctx => handleUpload env ctx
  | merge ctx => handleMerge env ctx
  | checkChunk ctx => handleCheckChunk env ctx
  | download ctx => handleDownload env ctx

/-- On every host the handler accesses only paths at or below the root directory. -/
def Confines (env : Env) (server : Server) (request : FileRequest) : Prop :=
  ∀ host, Fs.Logs (Within server.machine.disk.cwd env.config.rootDir) server.machine
    (after (request.handler { env with host }) server).machine

/-- What an upload accesses, as a property of paths: its path, and when nothing is there,
the directories above up to the first that exists. -/
def UploadAccess (env : Env) (ctx : HttpContext) (disk : Disk) (allowed : Bytes → Prop) : Prop :=
  allowed (storedPath env ctx) ∧ (disk.look (storedPath env ctx) = none →
    ∀ other ∈ disk.lookedAt (parentPath (storedPath env ctx)), allowed other)

/-- What a merge accesses behind its chunk directory, as a property of paths: the merged
file when there are chunks; when they can be put together, the directories above the final
path up to the first that exists; and when these can be created, the final path. -/
def MergeAccess (env : Env) (disk : Disk) (md5 filename scene : Bytes) (allowed : Bytes → Prop) :
    Prop :=
  chunkIndices env disk md5 ≠ [] → allowed (mergedFile env md5) ∧
    (Assembles env disk md5 → ∀ relPath, FileStore.relPath filename md5 = .ok relPath →
      (∀ other ∈ (openedTree env disk md5).lookedAt (parentPath (publishedPath env scene relPath)),
        allowed other) ∧
      (((openedTree env disk md5).created (parentPath (publishedPath env scene relPath))).isSome →
        allowed (publishedPath env scene relPath)))

/-- More paths may be accessed by an upload. -/
theorem UploadAccess.mono {ctx : HttpContext} {disk : Disk} {other : Bytes → Prop}
    (accesses : UploadAccess env ctx disk allowed) (weaker : ∀ path, allowed path → other path) :
    UploadAccess env ctx disk other :=
  ⟨weaker _ accesses.1, fun absent path member => weaker _ (accesses.2 absent path member)⟩

/-- More paths may be accessed by a merge. -/
theorem MergeAccess.mono {disk : Disk} {md5 filename scene : Bytes} {other : Bytes → Prop}
    (accesses : MergeAccess env disk md5 filename scene allowed)
    (weaker : ∀ path, allowed path → other path) : MergeAccess env disk md5 filename scene other := by
  intro found
  obtain ⟨merged, moving⟩ := accesses found
  refine ⟨weaker _ merged, fun assembles relPath placed => ?_⟩
  obtain ⟨above, final⟩ := moving assembles relPath placed
  exact ⟨fun path member => weaker _ (above path member), fun created => weaker _ (final created)⟩

/-- The paths that the handler makes of the request lie within the root directory, as far as
it comes. -/
def StaysInside (env : Env) (server : Server) : FileRequest → Prop
  | .upload ctx => Admitted env ctx server →
      UploadAccess env ctx server.machine.disk (Within server.machine.disk.cwd env.config.rootDir)
  | .merge ctx => mergeMd5 ctx ≠ [] → mergeName ctx ≠ [] →
      Within server.machine.disk.cwd env.config.rootDir (mergeDir env (mergeMd5 ctx)) ∧
      MergeAccess env server.machine.disk (mergeMd5 ctx) (mergeName ctx) (sentScene ctx)
        (Within server.machine.disk.cwd env.config.rootDir)
  | .checkChunk ctx => ctx.queryParam (bytes "md5") ≠ [] →
      Within server.machine.disk.cwd env.config.rootDir (checkDir env (ctx.queryParam (bytes "md5")))
  | .download ctx => ctx.pathSuffix ≠ [] →
      Within server.machine.disk.cwd env.config.rootDir (env.config.rootDir ++ ctx.pathSuffix)

/-! ## Uploads -/

/-- A path that does not start with a zero byte is not empty for the system. -/
theorem cString_cons_ne_nil {first : UInt8} (seen : first ≠ 0) (rest : Bytes) :
    cString (first :: rest) ≠ [] := by
  unfold cString
  rw [List.takeWhile_cons_of_pos (by simpa using seen)]
  exact List.cons_ne_nil _ _

/-- A path below the root directory starts with a byte that the system sees. -/
theorem exists_join_rootDir (config : StoreConfig) (path : Bytes) :
    ∃ first rest, join config.rootDir path = first :: rest ∧ first ≠ 0 := by
  obtain ⟨first, rest, root⟩ := List.exists_cons_of_ne_nil config.rootDir_ne_nil
  have seen : first ≠ 0 := fun zero => config.zero_not_mem_rootDir (by
    rw [root, zero]
    exact List.mem_cons_self ..)
  unfold join
  split
  · rename_i absolute
    obtain ⟨rest, rfl⟩ := List.head?_eq_some_iff.mp (beq_iff_eq.mp absolute)
    exact ⟨47, rest, rfl, by decide⟩
  · rw [root]
    split
    · exact ⟨first, rest ++ 47 :: path, rfl, seen⟩
    · exact ⟨first, rest ++ path, rfl, seen⟩

/-- The path of an upload is an entry of a directory whose path the system sees. -/
theorem exists_parentPath_storedPath (env : Env) (ctx : HttpContext) :
    ∃ front, storedPath env ctx = front ++ 47 :: uploadName env ctx ∧
      parentPath (storedPath env ctx) = front ∧ cString front ≠ [] := by
  let md5 := md5Hex env.digest ctx.getForm.content
  let above := join env.config.rootDir (sentScene ctx)
  let front := above ++ ((if hasFilename above then [47] else []) ++
    (md5.take 2 ++ 47 :: (md5.drop 2).take 2))
  have path : storedPath env ctx = front ++ 47 :: uploadName env ctx := by
    rw [storedPath, ← join_contentPath, join_of_relative (isAbsolute_contentPath ..), contentPath]
    simp only [front, above, md5, uploadName, List.append_assoc, List.cons_append]
  have last := isName_md5_part env.digest ctx.getForm.content (by decide : 2 < 32)
  have named : hasFilename front = true := by
    have split : front = (above ++ ((if hasFilename above then [47] else []) ++ md5.take 2)) ++
        47 :: (md5.drop 2).take 2 := by
      simp only [front, List.append_assoc]
    rw [split, List.append_cons]
    exact hasFilename_append last.1 last.2.2.2.1 _
  refine ⟨front, path, ?_, ?_⟩
  · rw [path, parentPath_append named (slash_not_mem_uploadName env ctx)]
  · obtain ⟨first, rest, start, seen⟩ := exists_join_rootDir env.config (sentScene ctx)
    rw [show front = first :: (rest ++ ((if hasFilename above then [47] else []) ++
      (md5.take 2 ++ 47 :: (md5.drop 2).take 2))) by simp only [front, above, start]; rfl]
    exact cString_cons_ne_nil seen _

/-- When the directories above the path of an upload lie within a directory, so do its
temporary files. -/
theorem within_tempPath {ctx : HttpContext} {disk : Disk} {root : Bytes}
    (inside : ∀ other ∈ disk.lookedAt (parentPath (storedPath env ctx)), Within disk.cwd root other)
    (number : Nat) : Within disk.cwd root (FileStore.tempPath (storedPath env ctx) number) := by
  obtain ⟨front, path, parent, seen⟩ := exists_parentPath_storedPath env ctx
  rw [parent] at inside
  obtain ⟨other, member, here⟩ := @Disk.exists_lookedAt disk front seen
  have above : Within disk.cwd root front := by
    unfold Within
    rw [← here]
    exact inside other member
  have nonempty : front ≠ [] := by
    rintro rfl
    exact seen rfl
  have suffix := FileStore.isName_append_temp List.not_mem_nil List.not_mem_nil number
  rw [FileStore.tempPath, path, List.append_assoc, List.cons_append]
  refine within_slash nonempty ?_ ?_ above
  · rw [List.mem_append, not_or]
    exact ⟨slash_not_mem_uploadName env ctx, suffix.2.2.2.1⟩
  · rw [uploadName, List.append_assoc, cString_append (isName_md5Hex ..).2.2.2.2]
    intro same
    have length := congrArg List.length same
    rw [List.length_append, length_md5Hex] at length
    change _ = 2 at length
    omega

/-- Storing an upload accesses the paths of `UploadAccess`, on a reliable host all of
them. -/
theorem storeUpload_logs {ctx : HttpContext}
    (accesses : UploadAccess env ctx server.machine.disk allowed)
    (beside : server.machine.disk.look (storedPath env ctx) = none →
      ∀ number, allowed (FileStore.tempPath (storedPath env ctx) number)) :
    Ends (storeUpload env ctx.getForm (sentScene ctx) (sentName env ctx)) server fun _ final =>
      Fs.Logs allowed server.machine final.machine ∧ (env.host.Reliable →
        UploadAccess env ctx server.machine.disk
          fun path => Fs.Notes path server.machine final.machine) := by
  have saving := @FileStore.saveFile_logs env.host server.machine allowed ctx.getForm.content
    env.digest env.config _ (sentScene ctx) _ _ (relPath_upload env ctx)
  rw [join_contentPath] at saving
  unfold storeUpload
  apply Ends.bind (onDisk_ends (saving accesses.1 fun absent =>
    ⟨beside absent, accesses.2 absent⟩))
  · rintro filePath middle ⟨⟨logs, notes, above⟩, _⟩
    have complete : Fs.Logs allowed server.machine middle.machine ∧ (env.host.Reliable →
        UploadAccess env ctx server.machine.disk
          fun path => Fs.Notes path server.machine middle.machine) :=
      ⟨logs, fun reliable => ⟨notes, above reliable⟩⟩
    refine Ends.ite (fun _ => complete) fun _ => ?_
    cases filePath with
    | none => exact complete
    | some path =>
        refine (replyStored_ends ..).mono ?_
        rintro result final ⟨same, _⟩
        rw [same]
        exact complete
  · rintro thrown final ⟨⟨logs, notes, above⟩, _⟩
    exact ⟨logs, fun reliable => ⟨notes, above reliable⟩⟩

/-- What an upload accesses that reaches `save_file`. -/
theorem handleUpload_logs {ctx : HttpContext} (admitted : Admitted env ctx server)
    (accesses : UploadAccess env ctx server.machine.disk allowed)
    (beside : server.machine.disk.look (storedPath env ctx) = none →
      ∀ number, allowed (FileStore.tempPath (storedPath env ctx) number)) :
    Ends (handleUpload env ctx) server fun _ final =>
      Fs.Logs allowed server.machine final.machine ∧ (env.host.Reliable →
        UploadAccess env ctx server.machine.disk
          fun path => Fs.Notes path server.machine final.machine) := by
  apply handleUpload_admitted admitted
  apply Ends.tryCatch (@storeUpload_logs env
    { server with concurrentUploads := (enterUpload server.concurrentUploads).2 } allowed ctx
    accesses beside)
  · exact fun _ _ ended => ended
  · rintro thrown middle ended
    refine (send_ends _).mono ?_
    rintro result final ⟨rfl, _⟩
    exact ended

/-! ## Merges -/

/-- What reading the indices of the chunks accesses. -/
theorem readIndices_logs {md5 : Bytes} (named : machine.disk.Named)
    (inside : allowed (mergeDir env md5))
    (entries : ∀ name, IsName name → allowed (join (mergeDir env md5) name)) :
    Ends (Fs.list env.host (mergeDir env md5) >>= fun names =>
        FileStore.numberedFiles env.host (mergeDir env md5) names) machine fun _ final =>
      Fs.Logs allowed machine final := by
  have once {final : Machine} (noted : final.accesses = machine.accesses ++ [mergeDir env md5]) :
      Fs.Logs allowed machine final := .of_eq noted (by simpa using inside)
  apply Ends.bind ((Fs.list_ends (mergeDir env md5)).and (Fs.list_accesses (mergeDir env md5)))
  · rintro names middle ⟨⟨_, ⟨_, listed, _, perm⟩ | ⟨⟨_, failed⟩, _⟩⟩, noted⟩
    · cases listed
      have all : ∀ name ∈ names, allowed (join (mergeDir env md5) name) := fun name member =>
        entries name (named.isName (perm.subset member))
      exact (FileStore.numberedFiles_logs _ all middle).mono fun _ _ rest => (once noted).trans rest
    · cases failed
  · rintro thrown final ⟨_, noted⟩
    exact once noted

/-- What putting the chunks together accesses. -/
theorem appendChunks_logs {merged chunkDir : Bytes} (target : allowed merged)
    (chunks : ∀ index : Int, allowed (join chunkDir (decimalInt index))) (indices : List Int)
    (good : Bool) : Fs.OnlyLogs allowed (appendChunks env merged chunkDir indices good) := by
  induction indices generalizing good with
  | nil => exact .pure _
  | cons index rest ih =>
      rw [appendChunks]
      refine .bind (.of_access (fun _ => Fs.openRead_accesses _) (chunks index)) fun opened => ?_
      cases opened with
      | notFound => exact .throw _
      | failed => exact .throw _
      | opened entry =>
          cases entry with
          | dir => exact ih false
          | file content =>
              refine .ite ?_ (ih false)
              exact .bind (.of_access (fun _ => Fs.append_accesses merged content) target)
                fun good => ih good

/-- Putting the chunks together accesses the merged file and the chunks. -/
theorem assemble_logs {merged chunkDir : Bytes} (target : allowed merged)
    (chunks : ∀ index : Int, allowed (join chunkDir (decimalInt index))) (indices : List Int) :
    Ends (assemble env merged chunkDir indices) machine fun _ final =>
      Fs.Logs allowed machine final ∧ Fs.Notes merged machine final := by
  have once {final : Machine} (noted : final.accesses = machine.accesses ++ [merged]) :
      Fs.Logs allowed machine final ∧ Fs.Notes merged machine final :=
    ⟨.of_eq noted (by simpa using target), .of_eq noted (List.mem_singleton_self _)⟩
  unfold assemble
  apply Ends.bind (Fs.openTruncate_accesses merged)
  · intro opened middle noted
    obtain ⟨logs, notes⟩ := once noted
    refine Ends.ite (fun _ => ?_) fun _ => ⟨logs, notes⟩
    exact (appendChunks_logs target chunks indices true middle).mono fun _ _ rest =>
      ⟨logs.trans rest, notes.extend rest.extends⟩
  · exact fun _ _ noted => once noted

/-- What moving the merged file and removing the chunks accesses. -/
theorem moveMerged_logs {merged chunkDir finalPath : Bytes} (source : allowed merged)
    (chunks : allowed chunkDir)
    (above : ∀ other ∈ machine.disk.lookedAt (parentPath finalPath), allowed other)
    (target : (machine.disk.created (parentPath finalPath)).isSome → allowed finalPath) :
    Ends (moveMerged env merged chunkDir finalPath) machine fun _ final =>
      Fs.Logs allowed machine final ∧ (env.host.Reliable →
        (∀ other ∈ machine.disk.lookedAt (parentPath finalPath), Fs.Notes other machine final) ∧
        ((machine.disk.created (parentPath finalPath)).isSome → Fs.Notes finalPath machine final)) := by
  unfold moveMerged
  apply Ends.bind ((Fs.createDirectories_logs _ above).and (Fs.createDirectories_created _))
  · rintro made middle ⟨⟨logs, notes⟩, _, returned, created, exact⟩
    cases returned
    cases made with
    | false =>
        refine ⟨logs, fun reliable => ⟨notes reliable, fun can => ?_⟩⟩
        rw [← exact reliable.fault] at can
        cases can
    | true =>
        have here : allowed finalPath := target (by rw [created rfl]; rfl)
        rw [if_pos rfl]
        -- the rename notes the final path, and what follows stays allowed
        have ending {renamed final : Machine}
            (noted : renamed.accesses = middle.accesses ++ [merged, finalPath])
            (rest : Fs.Logs allowed renamed final) :
            Fs.Logs allowed machine final ∧ (env.host.Reliable →
              (∀ other ∈ machine.disk.lookedAt (parentPath finalPath),
                Fs.Notes other machine final) ∧
              ((machine.disk.created (parentPath finalPath)).isSome →
                Fs.Notes finalPath machine final)) := by
          have moved : Fs.Logs allowed middle renamed :=
            .of_eq noted (by simpa using ⟨source, here⟩)
          have last : Fs.Notes finalPath middle renamed := .of_eq noted (by simp)
          refine ⟨(logs.trans moved).trans rest, fun reliable => ⟨fun other member => ?_, fun _ => ?_⟩⟩
          · exact (notes reliable other member).extend (moved.trans rest).extends
          · exact (last.extend rest.extends).behind logs.extends
        apply Ends.bind (Fs.rename_accesses merged finalPath)
        · intro _ renamed noted
          have removing : Fs.OnlyLogs allowed (do
              Fs.removeAll env.host chunkDir
              Fs.fileSize env.host finalPath) :=
            .bind (.of_access (fun _ => Fs.removeAll_accesses chunkDir) chunks) fun _ =>
              .of_access (fun _ => Fs.fileSize_accesses finalPath) here
          exact (removing renamed).mono fun _ _ rest => ending noted rest
        · exact fun _ final noted => ending noted (.refl final)
  · rintro thrown final ⟨_, _, returned, _⟩
    cases returned

/-- While the merged file is written, the same directories are looked at and created. -/
theorem accessed_of_rewritten {disk tree : Disk} {md5 content path : Bytes}
    (written : FileStore.Rewritten (mergedFile env md5) content disk tree) :
    tree.lookedAt path ⊆ (openedTree env disk md5).lookedAt path ∧
      (openedTree env disk md5).lookedAt path ⊆ tree.lookedAt path ∧
      (tree.created path).isSome = ((openedTree env disk md5).created path).isSome := by
  have shape := sameShape_openedTree written
  refine ⟨Disk.lookedAt_subset (fun other => (shape.look_none_iff other).mp) path,
    Disk.lookedAt_subset (fun other => (shape.look_none_iff other).mpr) path, ?_⟩
  cases made : tree.created path with
  | some grown =>
      obtain ⟨other, again, _⟩ := shape.symm.created made
      rw [again]
      rfl
  | none =>
      cases again : (openedTree env disk md5).created path with
      | none => rfl
      | some grown =>
          obtain ⟨other, impossible, _⟩ := shape.created again
          rw [made] at impossible
          cases impossible

/-- What a merge accesses once its chunk directory is found. -/
theorem mergeChunks_logs {md5 filename scene : Bytes} (named : server.machine.disk.Named)
    (inside : allowed (mergeDir env md5))
    (entries : ∀ name, IsName name → allowed (join (mergeDir env md5) name))
    (accesses : MergeAccess env server.machine.disk md5 filename scene allowed) :
    Ends (mergeChunks env md5 filename scene) server fun _ final =>
      Fs.Logs allowed server.machine final.machine ∧ (env.host.Reliable →
        MergeAccess env server.machine.disk md5 filename scene
          fun path => Fs.Notes path server.machine final.machine) := by
  unfold mergeChunks
  apply Ends.bind (onDisk_ends ((readIndices_ends md5).and
    (@readIndices_logs env server.machine allowed md5 named inside entries)))
  · rintro indices listed ⟨⟨⟨same, ⟨_, returned, perm⟩ | ⟨⟨_, returned⟩, _⟩⟩, reading⟩, rest⟩
    · cases returned
      refine Ends.ite (fun none => ?_) fun some => ?_
      · refine (send_ends _).mono ?_
        rintro result final ⟨rfl, _⟩
        exact ⟨reading, fun _ found => absurd (List.nil_perm.mp (none ▸ perm)) found⟩
      · have found : chunkIndices env server.machine.disk md5 ≠ [] := fun none =>
          some (List.perm_nil.mp (none ▸ perm))
        obtain ⟨target, assembling⟩ := accesses found
        have members (index : Int) : index ∈ indices.mergeSort (· ≤ ·) ↔
            index ∈ chunkIndices env listed.machine.disk md5 := by
          rw [List.mem_mergeSort, same]
          exact perm.mem_iff
        apply Ends.bind (onDisk_ends ((assemble_ends members).and (assemble_logs target
          (fun index => entries _ (isName_decimalInt index)) _)))
        · rintro _ assembled ⟨⟨⟨assembles, _, ⟨_, failed⟩ | ⟨content, written, _⟩⟩, logs, notes⟩, _⟩
          · exact absurd rfl failed
          · have assembles := assembles rfl
            rw [same] at assembles written
            have start := reading.trans logs
            have opened := notes.behind reading.extends
            cases placed : FileStore.relPath filename md5 with
            | error thrown =>
                refine ⟨start, fun _ _ => ⟨opened, fun _ relPath again => ?_⟩⟩
                rw [placed] at again
                cases again
            | ok relPath =>
                obtain ⟨above, final⟩ := assembling assembles relPath placed
                obtain ⟨fewer, more, creatable⟩ :=
                  @accessed_of_rewritten env _ _ md5 content
                    (parentPath (publishedPath env scene relPath)) written
                have moving := @moveMerged_logs env assembled.machine allowed (mergedFile env md5)
                  (mergeDir env md5) (publishedPath env scene relPath) target inside
                  (fun other member => above other (fewer member)) (creatable ▸ final)
                -- what the move notes is what the merge accesses
                have ending {moved : Machine} (ended : Fs.Logs allowed assembled.machine moved ∧
                    (env.host.Reliable → (∀ other ∈ assembled.machine.disk.lookedAt
                        (parentPath (publishedPath env scene relPath)),
                        Fs.Notes other assembled.machine moved) ∧
                      ((assembled.machine.disk.created
                        (parentPath (publishedPath env scene relPath))).isSome →
                        Fs.Notes (publishedPath env scene relPath) assembled.machine moved))) :
                    Fs.Logs allowed server.machine moved ∧ (env.host.Reliable →
                      MergeAccess env server.machine.disk md5 filename scene
                        fun path => Fs.Notes path server.machine moved) := by
                  obtain ⟨further, noted⟩ := ended
                  refine ⟨start.trans further, fun reliable _ =>
                    ⟨opened.extend further.extends, fun _ other again => ?_⟩⟩
                  rw [placed] at again
                  cases again
                  obtain ⟨all, last⟩ := noted reliable
                  refine ⟨fun other member => (all other (more member)).behind start.extends,
                    fun can => (last ?_).behind start.extends⟩
                  rw [creatable]
                  exact can
                apply Ends.bind (onDisk_ends moving)
                · rintro size moved ⟨ended, _⟩
                  refine (replyStored_ends ..).mono ?_
                  rintro result last ⟨machine, _⟩
                  rw [machine]
                  exact ending ended
                · rintro thrown moved ⟨ended, _⟩
                  exact ending ended
        · rintro thrown final ⟨⟨⟨_, complete, _⟩, logs, notes⟩, _⟩
          refine ⟨reading.trans logs, fun reliable _ => ⟨notes.behind reading.extends, ?_⟩⟩
          intro assembles
          rw [same] at complete
          cases complete reliable.fault assembles
    · cases returned
  · rintro thrown final ⟨⟨⟨_, ⟨_, returned, _⟩ | ⟨_, none⟩⟩, reading⟩, _⟩
    · cases returned
    · exact ⟨reading, fun reliable found => absurd (none reliable.fault) found⟩

/-- What a merge accesses whose MD5 and file name are given. -/
theorem handleMerge_logs {ctx : HttpContext} (given : mergeMd5 ctx ≠ []) (called : mergeName ctx ≠ [])
    (named : server.machine.disk.Named) (inside : allowed (mergeDir env (mergeMd5 ctx)))
    (entries : ∀ name, IsName name → allowed (join (mergeDir env (mergeMd5 ctx)) name))
    (accesses : MergeAccess env server.machine.disk (mergeMd5 ctx) (mergeName ctx) (sentScene ctx)
      allowed) :
    Ends (handleMerge env ctx) server fun _ final =>
      Fs.Logs allowed server.machine final.machine ∧
      Fs.Notes (mergeDir env (mergeMd5 ctx)) server.machine final.machine ∧ (env.host.Reliable →
        MergeAccess env server.machine.disk (mergeMd5 ctx) (mergeName ctx) (sentScene ctx)
          fun path => Fs.Notes path server.machine final.machine) := by
  let chunkDir := mergeDir env (mergeMd5 ctx)
  have once {middle : Machine} (noted : middle.accesses = server.machine.accesses ++ [chunkDir]) :
      Fs.Logs allowed server.machine middle ∧ Fs.Notes chunkDir server.machine middle :=
    ⟨.of_eq noted (by simpa using inside), .of_eq noted (List.mem_singleton_self _)⟩
  unfold handleMerge
  refine Ends.ite (fun empty => absurd empty (not_or.mpr ⟨given, called⟩)) fun _ => ?_
  apply Ends.bind (onDisk_ends ((Fs.exists_ends chunkDir).and (Fs.exists_accesses chunkDir)))
  · rintro there middle ⟨⟨⟨same, found⟩, noted⟩, _⟩
    obtain ⟨start, notes⟩ := once noted
    refine Ends.ite (fun _ => ?_) fun absent => ?_
    · rw [← same] at named accesses ⊢
      -- the part inside the handler of exceptions, from the state behind the question
      have ending {final : Machine} (ended : Fs.Logs allowed middle.machine final ∧
          (env.host.Reliable → MergeAccess env middle.machine.disk (mergeMd5 ctx) (mergeName ctx)
            (sentScene ctx) fun path => Fs.Notes path middle.machine final)) :
          Fs.Logs allowed server.machine final ∧ Fs.Notes chunkDir server.machine final ∧
            (env.host.Reliable → MergeAccess env middle.machine.disk (mergeMd5 ctx) (mergeName ctx)
              (sentScene ctx) fun path => Fs.Notes path server.machine final) := by
        obtain ⟨rest, further⟩ := ended
        exact ⟨start.trans rest, notes.extend rest.extends, fun reliable =>
          (further reliable).mono fun _ later => later.behind start.extends⟩
      apply Ends.tryCatch (mergeChunks_logs named inside entries accesses)
      · exact fun _ _ ended => ending ended
      · rintro thrown left ended
        refine (send_ends _).mono ?_
        rintro result final ⟨rfl, _⟩
        exact ending ended
    · refine (send_ends _).mono ?_
      rintro result final ⟨rfl, _⟩
      refine ⟨start, notes, fun _ chunks => ?_⟩
      rw [look_mergeDir_of_found chunks] at found
      exact absurd found absent
  · rintro thrown final ⟨⟨⟨_, failed⟩, noted⟩, _⟩
    obtain ⟨logs, notes⟩ := once noted
    exact ⟨logs, notes, fun reliable => absurd reliable.fault failed⟩

/-! ## The other handlers -/

/-- What asking for the chunks accesses. -/
theorem handleCheckChunk_logs {ctx : HttpContext} (given : ctx.queryParam (bytes "md5") ≠ [])
    (named : server.machine.disk.Named)
    (inside : allowed (checkDir env (ctx.queryParam (bytes "md5"))))
    (entries : ∀ name, IsName name →
      allowed (join (checkDir env (ctx.queryParam (bytes "md5"))) name)) :
    Ends (handleCheckChunk env ctx) server fun _ final =>
      Fs.Logs allowed server.machine final.machine ∧
      Fs.Notes (checkDir env (ctx.queryParam (bytes "md5"))) server.machine final.machine := by
  unfold handleCheckChunk
  dsimp only
  rw [if_neg given]
  apply Ends.bind (onDisk_ends (FileStore.getShardIndex_logs named inside entries))
  · rintro uploaded middle ⟨ended, _⟩
    refine (send_ends _).mono ?_
    rintro result final ⟨rfl, _⟩
    exact ended
  · rintro thrown final ⟨ended, _⟩
    exact ended

/-- What a download accesses. -/
theorem handleDownload_accesses {ctx : HttpContext} (given : ctx.pathSuffix ≠ []) :
    Ends (handleDownload env ctx) server fun _ final => final.machine.accesses =
      server.machine.accesses ++ [env.config.rootDir ++ ctx.pathSuffix] := by
  unfold handleDownload
  rw [if_neg given]
  apply Ends.bind (onDisk_ends (Fs.openRead_accesses _))
  · rintro opened middle ⟨noted, _⟩
    have sending (answer : Reply) : Ends (send env answer) middle fun _ final =>
        final.machine.accesses =
          server.machine.accesses ++ [env.config.rootDir ++ ctx.pathSuffix] := by
      refine (send_ends _).mono ?_
      rintro result final ⟨rfl, _⟩
      exact noted
    cases opened with
    | notFound => exact sending _
    | failed => exact sending _
    | opened entry => exact noted
  · rintro thrown final ⟨noted, _⟩
    exact noted

/-! ## Confinement -/

/-- Whether an upload reaches `save_file` does not depend on the host. -/
theorem admitted_onHost_iff (host : Host) {ctx : HttpContext} :
    Admitted { env with host } ctx server ↔ Admitted env ctx server :=
  ⟨fun admitted => ⟨admitted.goesOn, admitted.unknown, admitted.multipart, admitted.content,
    admitted.allowed⟩, fun admitted => ⟨admitted.goesOn, admitted.unknown, admitted.multipart,
    admitted.content, admitted.allowed⟩⟩

theorem checkDir_ne_nil (env : Env) (md5 : Bytes) : checkDir env md5 ≠ [] :=
  List.append_ne_nil_of_left_ne_nil env.config.rootDir_ne_nil _

/-- A handler that does not touch the file system accesses nothing. -/
theorem logs_of_untouched {handler : Handler Reply}
    (untouched : Ends handler server fun _ final => final.machine = server.machine) :
    Fs.Logs allowed server.machine (after handler server).machine := by
  rw [reply_after_of_ends untouched]
  exact .refl _

/-- A merge without MD5 or file name accesses nothing. -/
theorem handleMerge_empty {ctx : HttpContext} (empty : mergeMd5 ctx = [] ∨ mergeName ctx = []) :
    Ends (handleMerge env ctx) server fun _ final => final.machine = server.machine := by
  unfold handleMerge
  refine Ends.ite (fun _ => ?_) fun both => absurd empty both
  exact (send_ends _).mono fun _ _ sent => congrArg _ sent.1

/-- A request without MD5 accesses nothing. -/
theorem handleCheckChunk_empty {ctx : HttpContext} (empty : ctx.queryParam (bytes "md5") = []) :
    Ends (handleCheckChunk env ctx) server fun _ final => final.machine = server.machine := by
  unfold handleCheckChunk
  refine Ends.ite (fun _ => ?_) fun given => absurd empty given
  exact (send_ends _).mono fun _ _ sent => congrArg _ sent.1

/-- A download of nothing accesses nothing. -/
theorem handleDownload_empty {ctx : HttpContext} (empty : ctx.pathSuffix = []) :
    Ends (handleDownload env ctx) server fun _ final => final.machine = server.machine := by
  unfold handleDownload
  refine Ends.ite (fun _ => ?_) fun given => absurd empty given
  exact (send_ends _).mono fun _ _ sent => congrArg _ sent.1

/-- A request whose paths stay inside is confined. -/
theorem confines_of_staysInside (named : server.machine.disk.Named) {request : FileRequest}
    (stays : StaysInside env server request) : Confines env server request := by
  intro host
  cases request with
  | upload ctx =>
      by_cases admitted : Admitted env ctx server
      · have inside := stays admitted
        exact (reply_after_of_ends (@handleUpload_logs { env with host } server _ ctx
          ((admitted_onHost_iff host).mpr admitted) inside
          fun absent => within_tempPath (inside.2 absent))).1
      · have refused := fun other => admitted ((admitted_onHost_iff host).mp other)
        exact logs_of_untouched ((@handleUpload_refused { env with host } ctx server refused).mono
          fun _ _ same => same.1)
  | merge ctx =>
      by_cases both : mergeMd5 ctx ≠ [] ∧ mergeName ctx ≠ []
      · obtain ⟨inside, accesses⟩ := stays both.1 both.2
        have entries (name : Bytes) (valid : IsName name) :=
          within_join (mergeDir_ne_nil env (mergeMd5 ctx)) valid inside
        exact (reply_after_of_ends (@handleMerge_logs { env with host } server _ ctx both.1 both.2
          named inside entries accesses)).1
      · refine logs_of_untouched (handleMerge_empty ?_)
        by_contra neither
        exact both (not_or.mp neither)
  | checkChunk ctx =>
      by_cases given : ctx.queryParam (bytes "md5") = []
      · exact logs_of_untouched (handleCheckChunk_empty given)
      · have inside := stays given
        have entries (name : Bytes) (valid : IsName name) :=
          within_join (checkDir_ne_nil env (ctx.queryParam (bytes "md5"))) valid inside
        exact (reply_after_of_ends (@handleCheckChunk_logs { env with host } server _ ctx given named
          inside entries)).1
  | download ctx =>
      by_cases given : ctx.pathSuffix = []
      · exact logs_of_untouched (handleDownload_empty given)
      · have noted := reply_after_of_ends (@handleDownload_accesses { env with host } server ctx given)
        exact .of_eq noted (by simpa using stays given)

/-- A download whose path leads outside is not confined. -/
theorem not_confines_download {ctx : HttpContext} (given : ctx.pathSuffix ≠ [])
    (outside : ¬ Within server.machine.disk.cwd env.config.rootDir
      (env.config.rootDir ++ ctx.pathSuffix)) : ¬ Confines env server (.download ctx) := by
  intro confines
  have noted := reply_after_of_ends (@handleDownload_accesses { env with host := calmHost } server
    ctx given)
  exact outside ((confines calmHost).of_notes (.of_eq noted (List.mem_singleton_self _)))

/-- Where no call fails, a confined request has accessed every path it makes. -/
theorem staysInside_of_confines (named : server.machine.disk.Named) {request : FileRequest}
    (confines : Confines env server request) : StaysInside env server request := by
  have confined := confines calmHost
  cases request with
  | upload ctx =>
      intro admitted
      obtain ⟨_, notes⟩ := reply_after_of_ends (@handleUpload_logs { env with host := calmHost } server
        (fun _ => True) ctx ((admitted_onHost_iff calmHost).mpr admitted)
        ⟨trivial, fun _ _ _ => trivial⟩ fun _ _ => trivial)
      exact (notes calmHost_reliable).mono fun _ noted => confined.of_notes noted
  | merge ctx =>
      intro given called
      obtain ⟨_, here, notes⟩ := reply_after_of_ends (@handleMerge_logs { env with host := calmHost }
        server (fun _ => True) ctx given called named trivial (fun _ _ => trivial)
        fun _ => ⟨trivial, fun _ _ _ => ⟨fun _ _ => trivial, fun _ => trivial⟩⟩)
      exact ⟨confined.of_notes here,
        (notes calmHost_reliable).mono fun _ noted => confined.of_notes noted⟩
  | checkChunk ctx =>
      intro given
      obtain ⟨_, here⟩ := reply_after_of_ends (@handleCheckChunk_logs { env with host := calmHost }
        server (fun _ => True) ctx given named trivial fun _ _ => trivial)
      exact confined.of_notes here
  | download ctx =>
      intro given
      by_contra outside
      exact not_confines_download given outside confines

/-- A request for a file below the root directory. -/
def plainDownload : HttpContext := { HttpContext.ofParts [] with pathSuffix := bytes "/docs/a.txt" }

/-- A request for the file of passwords. -/
def climbingDownload : HttpContext :=
  { HttpContext.ofParts [] with pathSuffix := bytes "/../../../etc/passwd" }

end FileCtl

end Cdfs
