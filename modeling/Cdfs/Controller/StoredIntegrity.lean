import Cdfs.Controller.MergeSuccess
import Cdfs.Controller.UploadDownload
import Cdfs.Controller.UploadTrace
import Cdfs.Store.SparedFiles

/-! # The files behind the records

Uploads, uploads of chunks and merges write below one root directory, at paths the client
has a part in. An upload takes any file at its path for its content, a merge takes the MD5
from the form, and none of them asks whether the place it writes to belongs to a record. The
records keep their files as long as the requests do not meet there
(`Cdfs.FileCtl.intact_of_reachable`).
-/

namespace Cdfs

open Basis FsPath

namespace FileCtl

variable {env : Env} {ctx : HttpContext} {server : Server}

/-- A request that can write into the store. -/
inductive StoreRequest where
  | upload (ctx : HttpContext)
  | chunkUpload (ctx : HttpContext)
  | merge (ctx : HttpContext)

def StoreRequest.handler (env : Env) : StoreRequest → Handler Reply
  | upload ctx => handleUpload env ctx
  | chunkUpload ctx => handleChunkUpload env ctx
  | merge ctx => handleMerge env ctx

/-- The state after the request. -/
def storeStep (env : Env) (server : Server) (request : StoreRequest) : Server :=
  after (request.handler env) server

/-- The path of the file that a record names. -/
def recordFile (env : Env) (record : MetaFile) : Bytes := join env.config.rootDir record.path

/-- The file that the record names is there, with its length and its MD5. -/
def IntactFile (env : Env) (disk : Disk) (record : MetaFile) : Prop :=
  ∃ content, disk.look (recordFile env record) = some (.file content) ∧
    record.size = Int64.ofNat content.length ∧ record.md5 = md5Hex env.digest content

/-- Every record that `get_meta` returns has its file. -/
def Intact (env : Env) (server : Server) : Prop :=
  ∀ key record, server.metaStore.getMeta env.codec key = some record →
    IntactFile env server.machine.disk record

/-- The places of the files that the records name. -/
def recordedPlaces (env : Env) (server : Server) : Set (List Bytes) :=
  {place | ∃ key record, server.metaStore.getMeta env.codec key = some record ∧
    place = location server.machine.disk.cwd (recordFile env record)}

/-! ## Requests that keep the files -/

/-- The upload leaves the files of records alone and, when it adds a record, takes nothing
but its own content for its content. -/
structure KeepsUpload (env : Env) (ctx : HttpContext) (server : Server) : Prop where
  spares : server.machine.disk.look (storedPath env ctx) = none →
    FileStore.Spares server.machine.disk (storedPath env ctx) ctx.getForm.content
      (recordedPlaces env server)
  genuine : server.metaStore.db.get (md5Hex env.digest ctx.getForm.content) = none →
    sentName env ctx ≠ [] → ∀ entry,
      FileStore.Trusted server.machine.disk (storedPath env ctx) ctx.getForm.content entry →
        entry = .file ctx.getForm.content

/-- The merge leaves the files of records alone, or replaces one by the same content: where
it puts the chunks together, where it moves them and what it removes; and when it adds a
record, the chunks have the MD5 of the form. -/
structure KeepsMerge (env : Env) (ctx : HttpContext) (server : Server) : Prop where
  unopened : chunkIndices env server.machine.disk (mergeMd5 ctx) ≠ [] →
    Openable env server.machine.disk (mergeMd5 ctx) →
      location server.machine.disk.cwd (mergedFile env (mergeMd5 ctx)) ∉ recordedPlaces env server
  left : Reaches env server.machine.disk (mergeMd5 ctx) (mergeName ctx) (sentScene ctx) →
    ∀ key record, server.metaStore.getMeta env.codec key = some record →
      (server.machine.disk.removed (mergeDir env (mergeMd5 ctx))).look (recordFile env record) ≠ none
  replaced : Reaches env server.machine.disk (mergeMd5 ctx) (mergeName ctx) (sentScene ctx) →
    ∀ relPath, FileStore.relPath (mergeName ctx) (mergeMd5 ctx) = .ok relPath →
      location server.machine.disk.cwd (publishedPath env (sentScene ctx) relPath) ∈
        recordedPlaces env server →
      GoesThrough env ctx server.machine.disk relPath ∧
        server.machine.disk.node (location server.machine.disk.cwd
          (publishedPath env (sentScene ctx) relPath)) =
            some (.file (chunkBytes env server.machine.disk (mergeMd5 ctx)))
  verified : ∀ relPath, GoesThrough env ctx server.machine.disk relPath →
    server.metaStore.db.get (mergeMd5 ctx) = none →
      mergeMd5 ctx = md5Hex env.digest (chunkBytes env server.machine.disk (mergeMd5 ctx))

/-- The fields of the request are given and its path is not refused. -/
structure AcceptedChunk (env : Env) (ctx : HttpContext) : Prop where
  md5 : ctx.getForm.getParam (bytes "md5") ≠ []
  content : ctx.getForm.content ≠ []
  chunk : ctx.getForm.getParam (bytes "chunk") ≠ []
  noDots : (find (sentPath env ctx) (bytes "..") 0).isSome = false

/-- The request keeps the records and their files together, as far as its handler comes. -/
def KeepsFiles (env : Env) (server : Server) : StoreRequest → Prop
  | .upload ctx => Admitted env ctx server → KeepsUpload env ctx server
  | .chunkUpload ctx => AcceptedChunk env ctx →
      FileStore.Spares server.machine.disk (join env.config.rootDir (sentPath env ctx))
        ctx.getForm.content (recordedPlaces env server)
  | .merge ctx => mergeMd5 ctx ≠ [] → mergeName ctx ≠ [] → KeepsMerge env ctx server

/-! ## The database -/

section Database

variable {codec : JsonCodec} {store : MetadataStore} {record read : MetaFile} {key : Bytes}

/-- What `get_meta` returns is read off an entry under a hexadecimal MD5. -/
theorem exists_entry_of_getMeta (foreign : ForeignUnreadable codec store.db)
    (found : store.getMeta codec key = some read) : ∃ md5 text, IsHexMd5 md5 ∧
      store.db.get md5 = some text ∧ deserialize codec text = some read := by
  obtain ⟨text, stored, parsed⟩ := Option.bind_eq_some_iff.mp found
  obtain ⟨md5, _, present⟩ := Option.bind_eq_some_iff.mp stored
  by_cases hex : IsHexMd5 md5
  · exact ⟨md5, text, hex, present, parsed⟩
  · rw [foreign md5 text hex present] at parsed
    cases parsed

/-- What is found depends on the database only. -/
theorem getMeta_congr {other : MetadataStore} (same : other.db = store.db) :
    other.getMeta codec key = store.getMeta codec key := by
  unfold MetadataStore.getMeta
  rw [same]

/-- Saving a record whose MD5 is known or hexadecimal adds no entry that reads as another
record. -/
theorem foreignUnreadable_saveMeta (foreign : ForeignUnreadable codec store.db)
    (hex : store.db.get record.md5 = none → IsHexMd5 record.md5) (written : Bool) :
    ForeignUnreadable codec (store.saveMeta codec record written).2.db := by
  rcases store.db_saveMeta record written with same | ⟨fresh, saved⟩
  · rw [same]
    exact foreign
  · rw [saved]
    exact foreignUnreadable_iff.mpr ((foreignUnreadable_iff.mp foreign).saveBatch (hex fresh))

/-- A record found behind `save_meta` was found before, or is the one that has been saved. -/
theorem getMeta_of_saveMeta (foreign : ForeignUnreadable codec store.db) {written : Bool}
    (hex : store.db.get record.md5 = none → IsHexMd5 record.md5)
    (found : (store.saveMeta codec record written).2.getMeta codec key = some read) :
    (∃ other, store.getMeta codec other = some read) ∨
      store.db.get record.md5 = none ∧ read = record.asStored := by
  rcases store.db_saveMeta record written with same | ⟨fresh, saved⟩
  · rw [getMeta_congr same] at found
    exact .inl ⟨key, found⟩
  · obtain ⟨md5, text, hexMd5, present, parsed⟩ :=
      exists_entry_of_getMeta (foreignUnreadable_saveMeta foreign hex written) found
    rw [saved, get_saveBatch_of_isHexMd5 record hexMd5] at present
    split at present
    · cases present
      exact .inr ⟨fresh, eq_asStored_of_deserialize parsed⟩
    · refine .inl ⟨md5, ?_⟩
      rw [MetadataStore.getMeta_of_isHexMd5 store hexMd5, catalog_get, if_pos hexMd5, present]
      exact parsed

end Database

/-! ## What a request keeps -/

/-- The records have their files and nothing else reads as a record. -/
structure Kept (env : Env) (server : Server) : Prop where
  foreign : ForeignUnreadable env.codec server.metaStore.db
  intact : Intact env server

/-- The files of the records are found as before. -/
def FilesKept (env : Env) (before : Server) (after : Disk) : Prop :=
  ∀ key record, before.metaStore.getMeta env.codec key = some record → ∀ content,
    before.machine.disk.look (recordFile env record) = some (.file content) →
      after.look (recordFile env record) = some (.file content)

namespace Kept

variable {final : Server}

/-- A record found before still has its file. -/
theorem intactFile (kept : Kept env server) (files : FilesKept env server final.machine.disk)
    {key : Bytes} {record : MetaFile} (found : server.metaStore.getMeta env.codec key = some record) :
    IntactFile env final.machine.disk record := by
  obtain ⟨content, there, size, md5⟩ := kept.intact key record found
  exact ⟨content, files key record found content there, size, md5⟩

/-- A step that adds no record. -/
theorem of_files (kept : Kept env server) (files : FilesKept env server final.machine.disk)
    (metaStore : final.metaStore = server.metaStore) : Kept env final := by
  refine ⟨metaStore ▸ kept.foreign, fun key record found => ?_⟩
  rw [metaStore] at found
  exact kept.intactFile files found

/-- A step that saves a record. -/
theorem of_saveMeta (kept : Kept env server) (files : FilesKept env server final.machine.disk)
    {record : MetaFile} {written : Bool}
    (metaStore : final.metaStore = (server.metaStore.saveMeta env.codec record written).2)
    (added : server.metaStore.db.get record.md5 = none → IntactFile env final.machine.disk record) :
    Kept env final := by
  have hex (fresh : server.metaStore.db.get record.md5 = none) : IsHexMd5 record.md5 := by
    obtain ⟨content, _, _, md5⟩ := added fresh
    rw [md5]
    exact isHexMd5_md5Hex ..
  refine ⟨metaStore ▸ foreignUnreadable_saveMeta kept.foreign hex written, fun key read found => ?_⟩
  rw [metaStore] at found
  rcases getMeta_of_saveMeta kept.foreign hex found with ⟨other, earlier⟩ | ⟨fresh, rfl⟩
  · exact kept.intactFile files earlier
  · exact added fresh

end Kept

/-! ## Uploads -/

/-- What an upload has done to the tree and the metadata. -/
inductive UploadEffect (env : Env) (ctx : HttpContext) (before after : Server) : Prop where
  | refused (disk : after.machine.disk = before.machine.disk)
      (metaStore : after.metaStore = before.metaStore)
  | unrecorded {result : Except Exn (Option Bytes)} (admitted : Admitted env ctx before)
      (saved : FileStore.UploadResult ctx.getForm.content (storedPath env ctx) (uploadPath env ctx)
        before.machine.disk result after.machine.disk)
      (metaStore : after.metaStore = before.metaStore)
  | recorded {mtime : Int64} {written : Bool} (admitted : Admitted env ctx before)
      (named : sentName env ctx ≠ [])
      (saved : FileStore.UploadResult ctx.getForm.content (storedPath env ctx) (uploadPath env ctx)
        before.machine.disk (.ok (some (uploadPath env ctx))) after.machine.disk)
      (metaStore : after.metaStore = (before.metaStore.saveMeta env.codec
        (uploadRecord env ctx (sentName env ctx) mtime) written).2)

/-- `save_file` with the path that the handler gives it. -/
theorem saveUpload_result (env : Env) (ctx : HttpContext) (machine : Machine) :
    Ends (saveUpload env ctx) machine fun result final =>
      FileStore.UploadResult ctx.getForm.content (storedPath env ctx) (uploadPath env ctx)
        machine.disk result final.disk := by
  have saved := @FileStore.saveFile_result env.host machine ctx.getForm.content env.digest env.config
    ctx.getForm.filename (sentScene ctx) _ _ (relPath_upload env ctx)
  rw [join_contentPath] at saved
  exact saved

/-- What an upload does to records and files. -/
theorem handleUpload_effect (env : Env) (ctx : HttpContext) (server : Server) :
    Ends (handleUpload env ctx) server fun _ final => UploadEffect env ctx server final := by
  by_cases admitted : Admitted env ctx server
  · apply handleUpload_admitted admitted
    have stored : Ends (storeUpload env ctx.getForm (sentScene ctx) (sentName env ctx))
        { server with concurrentUploads := (enterUpload server.concurrentUploads).2 }
        fun _ final => UploadEffect env ctx server final := by
      unfold storeUpload
      apply Ends.bind (onDisk_ends (saveUpload_result env ctx _))
      · intro filePath middle ended
        obtain ⟨saved, rest⟩ := ended
        have unsaved : middle.metaStore = server.metaStore := by rw [rest]
        refine Ends.ite (fun _ => .unrecorded admitted saved unsaved) fun named => ?_
        cases filePath with
        | none => exact .unrecorded admitted saved unsaved
        | some path =>
            obtain rfl := saved.eq_path
            refine (replyStored_ends ..).mono ?_
            intro result final ended
            obtain ⟨machine, mtime, written, _, metaStore, _⟩ := ended
            rw [unsaved] at metaStore
            exact .recorded admitted named (machine ▸ saved) metaStore
      · intro thrown final ended
        obtain ⟨saved, rest⟩ := ended
        exact .unrecorded admitted saved (by rw [rest])
    apply Ends.tryCatch stored
    · exact fun _ _ effect => effect
    · intro thrown middle effect
      refine (send_ends _).mono ?_
      intro result final ended
      obtain ⟨rfl, _⟩ := ended
      exact effect
  · refine (handleUpload_refused admitted).mono ?_
    intro result final ended
    obtain ⟨machine, metaStore⟩ := ended
    exact .refused (by rw [machine]) metaStore

/-- An upload that meets no file of a record keeps the files. -/
theorem Kept.upload {final : Server} (kept : Kept env server)
    (keeps : Admitted env ctx server → KeepsUpload env ctx server)
    (effect : UploadEffect env ctx server final) : Kept env final := by
  have files (admitted : Admitted env ctx server) {result : Except Exn (Option Bytes)}
      (saved : FileStore.UploadResult ctx.getForm.content (storedPath env ctx) (uploadPath env ctx)
        server.machine.disk result final.machine.disk) :
      FilesKept env server final.machine.disk := fun key record found content there =>
    saved.look_file (keeps admitted).spares ⟨key, record, found, rfl⟩ there
  cases effect with
  | refused disk metaStore =>
      exact kept.of_files (fun _ _ _ _ there => disk ▸ there) metaStore
  | unrecorded admitted saved metaStore => exact kept.of_files (files admitted saved) metaStore
  | recorded admitted named saved metaStore =>
      refine kept.of_saveMeta (files admitted saved) metaStore fun fresh => ?_
      exact ⟨ctx.getForm.content, saved.look_data ((keeps admitted).genuine fresh named), rfl, rfl⟩

/-! ## Uploads of chunks -/

/-- What an upload of a chunk has done to the tree. -/
inductive ChunkEffect (env : Env) (ctx : HttpContext) (before after : Disk) : Prop where
  | refused (same : after = before)
  | saved {result : Except Exn Bool} (md5 : ctx.getForm.getParam (bytes "md5") ≠ [])
      (content : ctx.getForm.content ≠ []) (chunk : ctx.getForm.getParam (bytes "chunk") ≠ [])
      (saved : FileStore.SaveResult env.config ctx.getForm.content (sentPath env ctx) before result
        after)

/-- What a chunk does to the files; the records stay. -/
theorem handleChunkUpload_effect (env : Env) (ctx : HttpContext) (server : Server) :
    Ends (handleChunkUpload env ctx) server fun _ final => final.metaStore = server.metaStore ∧
      ChunkEffect env ctx server.machine.disk final.machine.disk := by
  have sending {answer : Reply} {middle : Server} (same : middle.metaStore = server.metaStore)
      (effect : ChunkEffect env ctx server.machine.disk middle.machine.disk) :
      Ends (send env answer) middle fun _ final => final.metaStore = server.metaStore ∧
        ChunkEffect env ctx server.machine.disk final.machine.disk := by
    refine (send_ends answer).mono ?_
    intro _ _ ended
    obtain ⟨rfl, _⟩ := ended
    exact ⟨same, effect⟩
  unfold handleChunkUpload
  dsimp only
  refine Ends.ite (fun _ => sending rfl (.refused rfl)) fun given => ?_
  obtain ⟨md5, rest⟩ := not_or.mp given
  obtain ⟨content, chunk⟩ := not_or.mp rest
  apply Ends.bind (onDisk_ends (FileStore.saveFileAt_result env.config (sentPath env ctx)))
  · intro success middle ended
    obtain ⟨saved, rest⟩ := ended
    have same : middle.metaStore = server.metaStore := by rw [rest]
    have effect := ChunkEffect.saved md5 content chunk saved
    exact Ends.ite (fun _ => sending same effect) fun _ => sending same effect
  · intro thrown final ended
    obtain ⟨saved, rest⟩ := ended
    exact ⟨by rw [rest], .saved md5 content chunk saved⟩

/-- The upload of a chunk leaves the metadata store alone. -/
theorem metaStore_chunkUpload (env : Env) (ctx : HttpContext) (server : Server) :
    (storeStep env server (.chunkUpload ctx)).metaStore = server.metaStore :=
  (reply_after_of_ends (handleChunkUpload_effect env ctx server)).1

/-- An upload of a chunk that meets no file of a record keeps the files. -/
theorem Kept.chunkUpload {final : Server} (kept : Kept env server)
    (spares : AcceptedChunk env ctx →
      FileStore.Spares server.machine.disk (join env.config.rootDir (sentPath env ctx))
        ctx.getForm.content (recordedPlaces env server))
    (metaStore : final.metaStore = server.metaStore)
    (effect : ChunkEffect env ctx server.machine.disk final.machine.disk) : Kept env final := by
  refine kept.of_files (fun key record found content there => ?_) metaStore
  cases effect with
  | refused same => rw [same, there]
  | saved md5 given chunk saved =>
      exact saved.look_file (fun noDots => spares ⟨md5, given, chunk, noDots⟩)
        ⟨key, record, found, rfl⟩ there

/-! ## Merges -/

/-- A file elsewhere is still there when a file has been put together, moved and the
directory of its pieces removed. -/
theorem look_of_moved {before tree grown : Disk} {merged published chunkDir path content data : Bytes}
    (written : FileStore.Rewritten merged content before tree) (grows : Disk.Grown tree grown)
    (free : grown.node (location grown.cwd published) ≠ some .dir)
    (directory : before.look chunkDir = some .dir)
    (found : before.look path = some (.file data))
    (left : (before.removed chunkDir).look path ≠ none)
    (unopened : location before.cwd path ≠ location before.cwd merged)
    (same : location before.cwd path = location before.cwd published → data = content) :
    ((moved grown merged published content).removed chunkDir).look path = some (.file data) := by
  have cwd : grown.cwd = before.cwd := grows.cwd.trans written.cwd
  have origin : grown.node (location grown.cwd merged) ≠ some .dir := by
    rw [cwd, (grows.file_iff _ content).mpr written.node_self]
    exact nofun
  have touched : Disk.Touched {location grown.cwd published, location grown.cwd merged} grown
      (moved grown merged published content) := touched_moved origin free
  have kept : Disk.KeepsDirs before (moved grown merged published content) :=
    (written.touched.keepsDirs.trans grows.keepsDirs).trans touched.keepsDirs
  have stored : (moved grown merged published content).node (location before.cwd path) =
      some (.file data) := by
    by_cases target : location before.cwd path = location before.cwd published
    · rw [moved, target, cwd, Disk.node_put_self, same target]
    · rw [touched.node, grows.file_iff, written.touched.node _ unopened]
      · exact Disk.node_location_of_look found
      · rw [cwd]
        rintro (here | here)
        · exact target here
        · exact unopened here
  obtain ⟨place, resolved, _⟩ := Option.bind_eq_some_iff.mp directory
  exact kept.look_removed (by rw [resolved]; rfl) left stored

/-- The place of the merged file, once its directories are there, is no directory. -/
theorem free_of_reaches {disk tree grown : Disk} {md5 filename scene relPath content : Bytes}
    (reaches : Reaches env disk md5 filename scene)
    (placed : FileStore.relPath filename md5 = .ok relPath)
    (written : FileStore.Rewritten (mergedFile env md5) content disk tree)
    (created : tree.created (parentPath (publishedPath env scene relPath)) = some grown) :
    grown.node (location grown.cwd (publishedPath env scene relPath)) ≠ some .dir := by
  obtain ⟨other, again, movable⟩ := reaches.movable
  rw [placed] at again
  cases again
  obtain ⟨tree', made, resolved, free⟩ := movable.of_sameShape (sameShape_openedTree written)
  rw [created] at made
  cases made
  obtain ⟨place, here⟩ := Option.isSome_iff_exists.mp resolved
  obtain rfl := Disk.location_of_resolve here
  exact fun directory => free (Option.bind_eq_some_iff.mpr ⟨_, here, directory⟩)

/-- A merged file that has been written could be opened. -/
theorem openable_of_rewritten {disk tree : Disk} {md5 content : Bytes}
    (written : FileStore.Rewritten (mergedFile env md5) content disk tree) :
    Openable env disk md5 :=
  ⟨written.opens.resolves, written.opens.free⟩

section Merge

variable {result : Except Exn Reply} {final : Server} {relPath content : Bytes} {tree grown : Disk}

/-- The merged file is put together beside the files of the records. -/
theorem KeepsMerge.apart (keeps : KeepsMerge env ctx server)
    (found : chunkIndices env server.machine.disk (mergeMd5 ctx) ≠ [])
    (written : FileStore.Rewritten (mergedFile env (mergeMd5 ctx)) content server.machine.disk tree)
    {key : Bytes} {record : MetaFile}
    (stored : server.metaStore.getMeta env.codec key = some record) :
    location server.machine.disk.cwd (recordFile env record) ≠
      location server.machine.disk.cwd (mergedFile env (mergeMd5 ctx)) := fun same =>
  keeps.unopened found (openable_of_rewritten written) ⟨key, record, stored, same.symm⟩

/-- The files of the records when the merged file has been moved and the chunks removed. -/
theorem KeepsMerge.filesKept (keeps : KeepsMerge env ctx server)
    (reaches : Reaches env server.machine.disk (mergeMd5 ctx) (mergeName ctx) (sentScene ctx))
    (placed : FileStore.relPath (mergeName ctx) (mergeMd5 ctx) = .ok relPath)
    (written : FileStore.Rewritten (mergedFile env (mergeMd5 ctx)) content server.machine.disk tree)
    (created : tree.created (parentPath (publishedPath env (sentScene ctx) relPath)) = some grown)
    (complete : GoesThrough env ctx server.machine.disk relPath →
      content = chunkBytes env server.machine.disk (mergeMd5 ctx)) :
    FilesKept env server ((moved grown (mergedFile env (mergeMd5 ctx))
      (publishedPath env (sentScene ctx) relPath) content).removed
        (mergeDir env (mergeMd5 ctx))) := by
  intro key record stored data found
  refine look_of_moved written (Disk.grown_created created)
    (free_of_reaches reaches placed written created) (look_mergeDir_of_found reaches.found) found
    (keeps.left reaches key record stored) (keeps.apart reaches.found written stored) fun same => ?_
  obtain ⟨through, there⟩ := keeps.replaced reaches relPath placed ⟨key, record, stored, same.symm⟩
  rw [← same, Disk.node_location_of_look found] at there
  cases there
  exact (complete through).symm

/-- The path of a verified merge ends in an MD5. -/
theorem join_of_verified {data : Bytes} (verified : mergeMd5 ctx = md5Hex env.digest data)
    (placed : FileStore.relPath (mergeName ctx) (mergeMd5 ctx) = .ok relPath) :
    join env.config.rootDir (join (sentScene ctx) relPath) =
      publishedPath env (sentScene ctx) relPath := by
  rw [verified, relPath_md5Hex] at placed
  cases placed
  exact join_assoc _ _ (isAbsolute_contentPath ..)

/-- A merge that meets no file of a record keeps the files. -/
theorem Kept.merge (reliable : env.host.Reliable) (kept : Kept env server)
    (keeps : mergeMd5 ctx ≠ [] → mergeName ctx ≠ [] → KeepsMerge env ctx server)
    (outcome : MergeOutcome env ctx server result final) : Kept env final := by
  cases outcome with
  | refused same metaStore _ _ => exact kept.of_files (fun _ _ _ _ there => same ▸ there) metaStore
  | attempted given named ended _ =>
      have keeps := keeps given named
      cases ended with
      | idle same metaStore _ _ =>
          exact kept.of_files (fun _ _ _ _ there => same ▸ there) metaStore
      | kept found written grown metaStore _ _ =>
          refine kept.of_files (fun key record stored content there => grown.look_file ?_) metaStore
          have evolved : Disk.Evolved ∅ _ server.machine.disk _ := written.touched.evolved
          exact evolved.look_file (keeps.apart found written stored) there
      | @removed content relPath tree thrown reaches placed written _ lost metaStore _ =>
          obtain ⟨grown, created, removed, absent⟩ := lost reliable
          rw [removed] at absent
          refine kept.of_files (removed ▸ keeps.filesKept reaches placed written created
            fun through => ?_) metaStore
          have survives := through.survives.look written created
          exact absurd survives (absent through.clears content)
      | @merged content relPath data tree grown mtime stored reaches placed written complete created
          removed clears _ found _ _ metaStore _ =>
          have complete := complete reliable.fault
          have there := found
          rw [removed] at there
          have held := content_of_moved there
          rw [complete] at held
          have through : GoesThrough env ctx server.machine.disk relPath :=
            ⟨given, named, reaches, clears, survives_of_found placed written created there⟩
          refine kept.of_saveMeta (removed ▸ keeps.filesKept reaches placed written created
            fun _ => complete) metaStore fun fresh => ?_
          have verified := keeps.verified relPath through fresh
          refine ⟨data, ?_, rfl, held ▸ verified⟩
          rw [recordFile, mergedRecord, join_of_verified verified placed, found]

end Merge

/-! ## Runs -/

/-- A request that keeps the files. -/
theorem Kept.step (reliable : env.host.Reliable) (kept : Kept env server) {request : StoreRequest}
    (keeps : KeepsFiles env server request) : Kept env (storeStep env server request) := by
  cases request with
  | upload ctx => exact kept.upload keeps (reply_after_of_ends (handleUpload_effect env ctx server))
  | chunkUpload ctx =>
      obtain ⟨metaStore, effect⟩ := reply_after_of_ends (handleChunkUpload_effect env ctx server)
      exact kept.chunkUpload keeps metaStore effect
  | merge ctx => exact kept.merge reliable keeps (reply_after_of_ends (handleMerge_ends ctx))

/-- Without records there is nothing to keep. -/
theorem kept_of_fresh (fresh : server.metaStore = .opened OrderedMap.empty) : Kept env server := by
  refine ⟨fun key text _ present => ?_, fun key record found => ?_⟩
  · rw [fresh] at present
    cases present
  · obtain ⟨text, stored, _⟩ := Option.bind_eq_some_iff.mp found
    obtain ⟨md5, _, present⟩ := Option.bind_eq_some_iff.mp stored
    rw [fresh] at present
    cases present

/-- Without records no place is recorded. -/
theorem not_mem_recordedPlaces (fresh : server.metaStore = .opened OrderedMap.empty)
    (place : List Bytes) : place ∉ recordedPlaces env server := by
  rintro ⟨key, record, found, _⟩
  obtain ⟨md5, text, _, present, _⟩ := exists_entry_of_getMeta (kept_of_fresh fresh).foreign found
  rw [fresh] at present
  cases present

/-- An upload of a chunk of these bytes. -/
def chunkRequest (md5 chunk data : String) : HttpContext :=
  .ofParts [.field (bytes "md5") (bytes md5), .field (bytes "chunk") (bytes chunk),
    .file (bytes "file") (bytes "blob") (bytes "text/plain") (bytes data)]

/-- The server after an upload of a chunk. -/
def chunkedServer : Server :=
  storeStep sampleEnv sampleServer (.chunkUpload (chunkRequest "5d41" "0" "other"))

/-- A record whose file has another MD5. -/
theorem not_intact_of_record {key md5 content : Bytes}
    (found : (server.metaStore.getMeta env.codec key).map (fun record =>
      (record.md5, server.machine.disk.look (recordFile env record))) =
        some (md5, some (.file content)))
    (other : md5 ≠ md5Hex env.digest content) : ¬ Intact env server := by
  intro intact
  obtain ⟨record, stored, named⟩ := Option.map_eq_some_iff.mp found
  obtain ⟨rfl, there⟩ := Prod.mk.inj named
  obtain ⟨data, here, _, hashed⟩ := intact key record stored
  rw [there] at here
  cases here
  exact other hashed

/-- The server after a chunk of `other` has been sent to where the MD5 of `hello` belongs, and
`hello` has been uploaded to that scene. -/
def plantedServer : Server :=
  run (storeStep sampleEnv) sampleServer
    [.chunkUpload (chunkRequest "5d/41" "5d41402abc4b2a76b9719d911017c592.txt" "other"),
      .upload (sampleUpload "_tmp")]

end FileCtl

end Cdfs
