import Cdfs.Controller.MergeVerify
import Cdfs.Controller.UploadTrace

/-! # The policy for published files

`handleUpload` checks the extension of a file against the list of the settings and cleans
its name. `handleMerge` brings files into the store too, and does neither. A run of both
keeps the policy (`Cdfs.FileCtl.PolicyKept`) as long as the requests to merge respect it
on their own (`Cdfs.FileCtl.policyKept_of_permitted`).
-/

namespace Cdfs

open Basis FsPath

namespace FileCtl

variable {env : Env} {server : Server}

/-- A request that brings a file into the store. -/
inductive Publication where
  | upload (ctx : HttpContext)
  | merge (ctx : HttpContext)

namespace Publication

def ctx : Publication → HttpContext
  | upload ctx => ctx
  | merge ctx => ctx

def handler (env : Env) : Publication → Handler Reply
  | upload ctx => handleUpload env ctx
  | merge ctx => handleMerge env ctx

/-- The MD5 under which the file is recorded. -/
def md5 (env : Env) : Publication → Bytes
  | upload ctx => md5Hex env.digest ctx.getForm.content
  | merge ctx => mergeMd5 ctx

/-- The file name that the client sends. -/
def filename : Publication → Bytes
  | upload ctx => ctx.getForm.filename
  | merge ctx => mergeName ctx

/-- The final path of the file. -/
def finalPath (env : Env) (request : Publication) : Option Bytes :=
  match FileStore.relPath request.filename (request.md5 env) with
  | .ok relPath => some (publishedPath env (sentScene request.ctx) relPath)
  | .error _ => none

end Publication

/-- The state after the request. -/
def publicationStep (env : Env) (server : Server) (request : Publication) : Server :=
  after (request.handler env) server

/-- The extension of the file that the system finds at the path is in the list. -/
def AllowedExt (config : StoreConfig) (path : Bytes) : Prop :=
  (extension (cString path)).map toLower ∈ config.allowExtensions

instance (config : StoreConfig) (path : Bytes) : Decidable (AllowedExt config path) :=
  inferInstanceAs (Decidable (_ ∈ _))

/-- The reply of a merge that has published its file. -/
def IsMergeSuccess (result : Except Exn Reply) : Prop :=
  ∃ data, result = .ok (.success (bytes "Merge success") data)

/-- The request puts a file at the path: one stands there that did not before, or a merge
reports its success. -/
def PlacesFile (env : Env) (server : Server) (request : Publication) (path : Bytes) : Prop :=
  (∃ content,
    (publicationStep env server request).machine.disk.node
        (location server.machine.disk.cwd path) = some (.file content) ∧
      server.machine.disk.node (location server.machine.disk.cwd path) ≠ some (.file content)) ∨
    IsMergeSuccess (reply (request.handler env) server)

/-- The request records its file: a record is stored under the MD5 that was not before. -/
def RecordsFile (env : Env) (server : Server) (request : Publication) (record : MetaFile) : Prop :=
  ∃ text, (publicationStep env server request).metaStore.db.get (request.md5 env) = some text ∧
    server.metaStore.db.get (request.md5 env) ≠ some text ∧
    deserialize env.codec text = some record

/-- What the policy asks of a request: the file has an extension of the list and its record
a clean name. -/
structure PolicyKept (env : Env) (server : Server) (request : Publication) : Prop where
  ext : ∀ path, request.finalPath env = some path → PlacesFile env server request path →
    AllowedExt env.config path
  name : ∀ record, RecordsFile env server request record →
    trimFilenameSpecialChar record.name = record.name

/-- The merge writes a file at the final path: it comes to moving the merged file there, or
the merged file is opened at the very same place. -/
def Moves (env : Env) (ctx : HttpContext) (disk : Disk) (path : Bytes) : Prop :=
  mergeMd5 ctx ≠ [] ∧ mergeName ctx ≠ [] ∧
    (Reaches env disk (mergeMd5 ctx) (mergeName ctx) (sentScene ctx) ∨
      chunkIndices env disk (mergeMd5 ctx) ≠ [] ∧ Openable env disk (mergeMd5 ctx) ∧
        location disk.cwd (mergedFile env (mergeMd5 ctx)) = location disk.cwd path)

/-- The request respects the policy where its handler does not look: a merge that moves its
file has an allowed extension and, unless its MD5 is known, a clean name; an upload hides no
other extension behind a NUL byte. -/
def Respects (env : Env) (server : Server) : Publication → Prop
  | .upload ctx => (0 : UInt8) ∈ storedPath env ctx →
      checkFileExt ctx.getForm.filename env.config.allowExtensions = true →
      AllowedExt env.config (storedPath env ctx)
  | .merge ctx => ∀ path, (Publication.merge ctx).finalPath env = some path →
      Moves env ctx server.machine.disk path → AllowedExt env.config path ∧
        (server.metaStore.db.contains (mergeMd5 ctx) = false →
          trimFilenameSpecialChar (mergeName ctx) = mergeName ctx)

/-! ## Uploads -/

/-- What an upload does whatever calls fail: nothing, or it has checked the extension and
then perhaps saves its record. -/
inductive Guarded (env : Env) (ctx : HttpContext) (before : Disk) (store : MetadataStore)
    (after : Server) : Prop where
  | refused (disk : after.machine.disk = before) (metaStore : after.metaStore = store)
  | checked (allowed : checkFileExt ctx.getForm.filename env.config.allowExtensions = true)
      (metaStore : after.metaStore = store ∨ ∃ record written,
        record.md5 = md5Hex env.digest ctx.getForm.content ∧ record.name = sentName env ctx ∧
        after.metaStore = (store.saveMeta env.codec record written).2)

theorem not_isMergeSuccess_of_error {message : Bytes} {status : Nat} {result : Except Exn Reply}
    (sent : result = .ok (.error message status) ∨ result = .error invalidUtf8) :
    ¬ IsMergeSuccess result := fun ⟨data, same⟩ => silent_of_error sent _ data same

/-- Another success is none of a merge. -/
theorem not_isMergeSuccess_of_success {message : Bytes} {value : Json} {result : Except Exn Reply}
    (other : message ≠ bytes "Merge success")
    (sent : result = .ok (.success message value) ∨ result = .error invalidUtf8) :
    ¬ IsMergeSuccess result := by
  rintro ⟨data, rfl⟩
  rcases sent with sent | thrown
  · exact other (Reply.success.inj (Except.ok.inj sent)).1.symm
  · cases thrown

/-- Storing an upload publishes an allowed file at most. -/
theorem storeUpload_guarded {ctx : HttpContext}
    (allowed : checkFileExt ctx.getForm.filename env.config.allowExtensions = true) :
    Ends (storeUpload env ctx.getForm (sentScene ctx) (sentName env ctx)) server
      fun result final => Guarded env ctx server.machine.disk server.metaStore final ∧
        ¬ IsMergeSuccess result := by
  have failing {thrown : Exn} : ¬ IsMergeSuccess (.error thrown) := by
    rintro ⟨data, same⟩
    cases same
  unfold storeUpload
  apply Ends.bind (onDisk_ends (Ends.any _ _))
  · rintro filePath middle ⟨_, rest⟩
    have unsaved : middle.metaStore = server.metaStore := by rw [rest]
    refine Ends.ite (fun _ => ⟨.checked allowed (.inl unsaved), failing⟩) fun _ => ?_
    cases filePath with
    | none => exact ⟨.checked allowed (.inl unsaved), failing⟩
    | some path =>
        refine (replyStored_ends ..).mono ?_
        rintro result final ⟨_, mtime, written, _, saved, sent⟩
        rw [unsaved] at saved
        have replied := Or.imp And.right And.right sent
        exact ⟨.checked allowed (.inr ⟨_, written, rfl, rfl, saved⟩),
          not_isMergeSuccess_of_success (by decide +kernel) replied⟩
  · rintro thrown final ⟨_, rest⟩
    exact ⟨.checked allowed (.inl (by rw [rest])), failing⟩

/-- An upload that changes anything has checked the extension. -/
theorem handleUpload_guarded (ctx : HttpContext) :
    Ends (handleUpload env ctx) server fun result final =>
      Guarded env ctx server.machine.disk server.metaStore final ∧ ¬ IsMergeSuccess result := by
  have turned {message : Bytes} {status : Nat} {middle : Server}
      (disk : middle.machine.disk = server.machine.disk)
      (metaStore : middle.metaStore = server.metaStore) :
      Ends (send env (.error message status)) middle fun result final =>
        Guarded env ctx server.machine.disk server.metaStore final ∧ ¬ IsMergeSuccess result := by
    refine (send_ends _).mono ?_
    rintro result final ⟨rfl, sent⟩
    exact ⟨.refused disk metaStore, not_isMergeSuccess_of_error sent⟩
  unfold handleUpload
  apply ends_get
  dsimp only
  apply ends_modify
  refine Ends.ite (fun _ => ?_) fun _ => ?_
  · apply ends_modify
    exact turned rfl rfl
  · apply ends_get
    split
    · refine (send_ends _).mono ?_
      rintro result final ⟨rfl, sent⟩
      exact ⟨.refused rfl rfl, not_isMergeSuccess_of_success (by decide +kernel) sent⟩
    · unfold uploadForm
      refine Ends.ite (fun _ => turned rfl rfl) fun _ => ?_
      refine Ends.ite (fun _ => turned rfl rfl) fun _ => ?_
      refine Ends.ite (fun _ => turned rfl rfl) fun refused => ?_
      have allowed : checkFileExt ctx.getForm.filename env.config.allowExtensions = true := by
        simpa only [Bool.not_eq_true', Bool.not_eq_false] using refused
      apply Ends.tryCatch (storeUpload_guarded allowed)
      · exact fun _ _ guarded => guarded
      · rintro thrown middle ⟨guarded, _⟩
        refine (send_ends _).mono ?_
        rintro result final ⟨rfl, sent⟩
        exact ⟨guarded, not_isMergeSuccess_of_error sent⟩

/-! ## Records -/

/-- A path ends in what is joined to it. -/
theorem suffix_join (left right : Bytes) : right <:+ join left right := by
  unfold join
  split
  · exact List.suffix_refl _
  · split
    · exact ⟨left ++ [47], by rw [List.append_assoc]; rfl⟩
    · exact List.suffix_append _ _

/-- The MD5 is part of the path made of it. -/
theorem md5_infix_path {filename md5 relPath : Bytes}
    (placed : FileStore.relPath filename md5 = .ok relPath) (scene : Bytes) :
    md5 <:+: join scene relPath := by
  unfold FileStore.relPath md5ToRelPath at placed
  split at placed
  · cases placed
  · cases placed
    exact ((suffix_join _ md5).isInfix.trans (List.prefix_append ..).isInfix).trans
      (suffix_join scene _).isInfix

/-- The keys of the indices of a record are longer than its MD5. -/
theorem get_saveBatch_self {codec : JsonCodec} {db : LevelDB} {record : MetaFile}
    (inside : record.md5 <:+: record.path) :
    (db.write (MetadataStore.saveBatch codec record) true).get record.md5 =
      some (serialize codec record) := by
  have scene : sceneKey record.scene record.mtime record.md5 ≠ record.md5 := by
    intro same
    have length := congrArg List.length same
    simp only [sceneKey, List.length_append] at length
    have longer : (bytes "SCENE:").length = 6 := by decide +kernel
    omega
  have path : pathKey record.path ≠ record.md5 := by
    intro same
    have length := congrArg List.length same
    rw [pathKey, List.length_append] at length
    have longer : (bytes "PATH:").length = 5 := by decide +kernel
    have bound := inside.length_le
    omega
  rw [get_saveBatch, if_neg scene, if_neg path, if_pos rfl]

/-- A record that `save_meta` brings under its MD5 has the name it was saved with. -/
theorem name_of_saveMeta {codec : JsonCodec} {store : MetadataStore} {record read : MetaFile}
    {written : Bool} {text : Bytes}
    (own : (store.db.write (MetadataStore.saveBatch codec record) true).get record.md5 =
      some (serialize codec record))
    (stored : (store.saveMeta codec record written).2.db.get record.md5 = some text)
    (fresh : store.db.get record.md5 ≠ some text) (parsed : deserialize codec text = some read) :
    store.db.contains record.md5 = false ∧ read.name = record.name := by
  rcases store.db_saveMeta record written with same | ⟨absent, saved⟩
  · rw [same] at stored
    exact absurd stored fresh
  · rw [saved, own] at stored
    cases stored
    rw [eq_asStored_of_deserialize parsed, OrderedMap.contains, absent]
    exact ⟨rfl, rfl⟩

/-! ## Single requests -/

/-- Where the tree stays the same, no file is placed. -/
theorem isMergeSuccess_of_placesFile {request : Publication} {path : Bytes}
    (places : PlacesFile env server request path)
    (same : (publicationStep env server request).machine.disk = server.machine.disk) :
    IsMergeSuccess (reply (request.handler env) server) := by
  rcases places with ⟨content, later, earlier⟩ | success
  · rw [same] at later
    exact absurd later earlier
  · exact success

/-- Recording a file changes the metadata store. -/
theorem RecordsFile.metaStore_ne {request : Publication} {record : MetaFile}
    (recorded : RecordsFile env server request record) :
    (publicationStep env server request).metaStore ≠ server.metaStore := by
  intro same
  obtain ⟨text, later, earlier, _⟩ := recorded
  rw [same] at later
  exact earlier later

/-- Without a NUL byte the file of an upload has the extension that has been checked. -/
theorem allowedExt_storedPath (listed : env.config.allowExtensions ≠ []) {ctx : HttpContext}
    (plain : (0 : UInt8) ∉ storedPath env ctx)
    (allowed : checkFileExt ctx.getForm.filename env.config.allowExtensions = true) :
    AllowedExt env.config (storedPath env ctx) := by
  have md5 := isHexMd5_md5Hex env.digest ctx.getForm.content
  have nonempty : md5Hex env.digest ctx.getForm.content ≠ [] := by
    rw [← List.length_pos_iff, md5.1]
    decide
  obtain ⟨front, path⟩ := exists_storedPath env ctx
  have kept : extension (storedPath env ctx) = extension ctx.getForm.filename := by
    rw [path]
    exact extension_append_extension front _ nonempty (fun dot => absurd (md5.2 46 dot) (by decide))
      (slash_not_mem_of_isHexMd5 md5)
  unfold AllowedExt
  rw [cString_of_not_mem plain, kept]
  unfold checkFileExt at allowed
  rw [List.isEmpty_eq_false_iff.mpr listed, Bool.false_or] at allowed
  exact List.contains_iff_mem.mp allowed

/-- An upload keeps the policy: the extension is checked, the name cleaned. -/
theorem policyKept_upload (trims : env.metaConfig.enableTrimFilename = true)
    (listed : env.config.allowExtensions ≠ []) {ctx : HttpContext}
    (respects : Respects env server (.upload ctx)) : PolicyKept env server (.upload ctx) := by
  obtain ⟨guarded, other⟩ := reply_after_of_ends (@handleUpload_guarded env server ctx)
  constructor
  · intro path final places
    have here : path = storedPath env ctx := by
      unfold Publication.finalPath at final
      rw [show FileStore.relPath (Publication.upload ctx).filename ((Publication.upload ctx).md5 env) =
        .ok (contentPath env.digest ctx.getForm.filename ctx.getForm.content)
        from relPath_md5Hex ..] at final
      cases final
      exact join_contentPath env ctx
    cases guarded with
    | refused disk _ => exact absurd (isMergeSuccess_of_placesFile places disk) other
    | checked allowed _ =>
        rw [here]
        by_cases zero : (0 : UInt8) ∈ storedPath env ctx
        · exact respects zero allowed
        · exact allowedExt_storedPath listed zero allowed
  · intro record recorded
    cases guarded with
    | refused _ metaStore => exact absurd metaStore recorded.metaStore_ne
    | checked _ metaStore =>
        rcases metaStore with same | ⟨saved, written, md5, name, stored⟩
        · exact absurd same recorded.metaStore_ne
        · obtain ⟨text, later, earlier, parsed⟩ := recorded
          have hex := isHexMd5_md5Hex env.digest ctx.getForm.content
          rw [show publicationStep env server (.upload ctx) = after (handleUpload env ctx) server
            from rfl, stored] at later
          rw [show (Publication.upload ctx).md5 env = md5Hex env.digest ctx.getForm.content from rfl,
            ← md5] at later earlier
          rw [← md5] at hex
          have own := @get_saveBatch_of_isHexMd5 env.codec server.metaStore.db saved _ hex
          rw [if_pos rfl] at own
          rw [(name_of_saveMeta own later earlier parsed).2, name, sentName, if_pos trims]
          exact trimFilenameSpecialChar_idem _

/-- Where a merge puts its file. -/
theorem finalPath_merge {ctx : HttpContext} {relPath : Bytes}
    (placed : FileStore.relPath (mergeName ctx) (mergeMd5 ctx) = .ok relPath) :
    (Publication.merge ctx).finalPath env = some (publishedPath env (sentScene ctx) relPath) := by
  unfold Publication.finalPath
  rw [show FileStore.relPath (Publication.merge ctx).filename ((Publication.merge ctx).md5 env) =
    .ok relPath from placed]
  rfl

/-- A merge that puts a file at its final path has moved it there, or has opened the merged
file at that place. -/
theorem moves_of_placesFile {ctx : HttpContext} {path : Bytes}
    (places : PlacesFile env server (.merge ctx) path) : Moves env ctx server.machine.disk path := by
  have quiet {inner : Except Exn Reply} (silent : Silent inner)
      (replied : Replied env inner (reply (handleMerge env ctx) server)) :
      ¬ IsMergeSuccess (reply (handleMerge env ctx) server) := by
    rintro ⟨data, success⟩
    have same := replied.eq_of_succeeds ⟨_, data, success⟩
    exact silent _ data (same.trans success)
  cases reply_after_of_ends (@handleMerge_ends env server ctx) with
  | refused same _ silent _ =>
      obtain ⟨data, success⟩ := isMergeSuccess_of_placesFile places same
      exact absurd success (silent _ data)
  | attempted given named ended replied =>
      cases ended with
      | idle same _ silent _ =>
          exact absurd (isMergeSuccess_of_placesFile places same) (quiet silent replied)
      | kept found written grown _ silent _ =>
          refine ⟨given, named, .inr ⟨found, ⟨written.opens.resolves, written.opens.free⟩, ?_⟩⟩
          · rcases places with ⟨content, later, earlier⟩ | success
            · by_contra apart
              refine earlier ?_
              rw [← written.touched.node _ (fun inside => apart (Set.mem_singleton_iff.mp inside).symm)]
              exact (grown.file_iff _ content).mp later
            · exact absurd success (quiet silent replied)
      | removed reaches => exact ⟨given, named, .inl reaches⟩
      | merged reaches => exact ⟨given, named, .inl reaches⟩

/-- A merge that respects the policy by itself keeps it. -/
theorem policyKept_merge {ctx : HttpContext} (respects : Respects env server (.merge ctx)) :
    PolicyKept env server (.merge ctx) := by
  constructor
  · intro path final places
    exact (respects path final (moves_of_placesFile places)).1
  · intro record recorded
    cases reply_after_of_ends (@handleMerge_ends env server ctx) with
    | refused _ metaStore _ _ => exact absurd metaStore recorded.metaStore_ne
    | attempted given named ended _ =>
        cases ended with
        | idle _ metaStore => exact absurd metaStore recorded.metaStore_ne
        | kept _ _ _ metaStore => exact absurd metaStore recorded.metaStore_ne
        | removed _ _ _ _ _ metaStore => exact absurd metaStore recorded.metaStore_ne
        | merged reaches placed _ _ _ _ _ _ _ _ _ metaStore =>
            obtain ⟨text, later, earlier, parsed⟩ := recorded
            rw [show publicationStep env server (.merge ctx) = after (handleMerge env ctx) server
              from rfl, metaStore] at later
            obtain ⟨fresh, name⟩ := name_of_saveMeta (get_saveBatch_self (md5_infix_path placed _))
              later earlier parsed
            rw [name]
            exact (respects _ (finalPath_merge placed) ⟨given, named, .inl reaches⟩).2 fresh

/-- Every request that respects the policy keeps it. -/
theorem policyKept_of_respects (trims : env.metaConfig.enableTrimFilename = true)
    (listed : env.config.allowExtensions ≠ []) {request : Publication}
    (respects : Respects env server request) : PolicyKept env server request := by
  cases request with
  | upload ctx => exact policyKept_upload trims listed respects
  | merge ctx => exact policyKept_merge respects

/-! ## Runs -/

/-- A merge that goes through reports its success. -/
theorem isMergeSuccess_of_goesThrough (reliable : env.host.Reliable) {ctx : HttpContext}
    {relPath : Bytes} (through : GoesThrough env ctx server.machine.disk relPath)
    (printable : PrintableFile env
      (mergedRecord env (mergeMd5 ctx) (mergeName ctx) (sentScene ctx) relPath 0 0)) :
    IsMergeSuccess (reply (handleMerge env ctx) server) := by
  obtain ⟨_, _, merged⟩ := reply_after_of_ends (handleMerge_through reliable through)
  obtain ⟨inner, replied, ⟨_, sent⟩ | ⟨unprintable, _⟩⟩ := merged.replied
  · rcases replied with ⟨same, _⟩ | ⟨thrown, failed, _⟩
    · exact ⟨_, same.trans sent⟩
    · rw [sent] at failed
      cases failed
  · exact absurd (((printable_mergedReply_iff ..).mpr printable).symm.trans unprintable)
      Bool.false_ne_true

/-- A request to merge the staged chunk as a program. -/
def programMerge : HttpContext :=
  .ofParts [.field (bytes "md5") (bytes "5d41402abc4b2a76b9719d911017c592"),
    .field (bytes "filename") (bytes "run+me.exe")]

/-- Where this merge puts the file below the directory of its scene. -/
def programPath : Bytes := bytes "5d/41/5d41402abc4b2a76b9719d911017c592.exe"

theorem asked_programMerge : mergeMd5 programMerge = bytes "5d41402abc4b2a76b9719d911017c592" ∧
    mergeName programMerge = bytes "run+me.exe" ∧ sentScene programMerge = bytes "default" := by
  decide +kernel

/-- This merge goes through as well. -/
theorem goesThrough_programMerge :
    GoesThrough sampleEnv programMerge (stagedDisk (bytes "other")) programPath := by
  obtain ⟨md5, name, scene⟩ := asked_programMerge
  refine goesThrough_of_takesChunk md5 ?_ scene (by decide +kernel) ?_ <;> rw [name] <;> decide +kernel

end FileCtl

end Cdfs
