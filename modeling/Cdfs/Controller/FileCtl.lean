import Cdfs.Controller.UploadLimiter
import Cdfs.Http.Router
import Cdfs.Meta.MetadataStore
import Cdfs.Store.FileStore

/-! # The request handlers

`controller/FileCtl.cpp`. A handler works on the file system, the metadata store and the
counter of uploads, and ends with the reply it sends or with an exception it lets
through. Two handlers build the path of a chunk directory, each in its own way:
`Cdfs.FileCtl.handleChunkUpload` writes below `root/_tmp/`, `Cdfs.FileCtl.handleMerge`
looks below `root/ _tmp/`.
-/

namespace Cdfs

open Basis FsPath

/-- What the handlers are given: the settings, and what they use from outside. Clock and
database writes go by the number of the file system call they follow. -/
structure Env where
  host : Host
  digest : Bytes → Digest
  codec : JsonCodec
  config : StoreConfig := {}
  metaConfig : MetaConfig := {}
  time : Nat → Int64
  /-- Whether a batch is written to the database. -/
  writes : Nat → Bool

/-- The state of the server. -/
structure Server where
  machine : Machine
  metaStore : MetadataStore
  concurrentUploads : Int32 := 0

/-- A computation of a handler. -/
abbrev Handler := EStateM Exn Server

namespace FileCtl

variable (env : Env)

/-- Work on the file system. -/
def onDisk {α : Type} (op : FsOp α) : Handler α := fun server =>
  match op server.machine with
  | .ok value machine => .ok value { server with machine }
  | .error thrown machine => .error thrown { server with machine }

/-- `save_meta` on the metadata store. -/
def saveMeta (record : MetaFile) : Handler Bool := fun server =>
  let (saved, metaStore) :=
    server.metaStore.saveMeta env.codec record (env.writes server.machine.calls)
  .ok saved { server with metaStore }

/-- `std::time`. -/
def now : Handler Int64 := fun server => .ok (env.time server.machine.calls) server

/-- Send a reply; printing it may throw. -/
def send (reply : Reply) : Handler Reply :=
  if reply.unprintable env.codec then throw invalidUtf8 else return reply

/-- The default status of an error reply. -/
def badRequest : Nat := 400

/-- The `data` of the reply for a stored file. -/
def fileData (record : MetaFile) : Json := .object
  [(bytes "url", .str (env.metaConfig.domain ++ (bytes "/" ++ record.path))),
   (bytes "path", .str record.path),
   (bytes "md5", .str record.md5),
   (bytes "scene", .str record.scene),
   (bytes "size", .num record.size.toInt),
   (bytes "mtime", .num record.mtime.toInt),
   (bytes "name", .str record.name)]

/-- Save the record of a stored file, whatever comes of it, and reply. -/
def replyStored (message name scene md5 path : Bytes) (size : Nat) : Handler Reply := do
  let mtime ← now env
  let record : MetaFile :=
    { md5, path, name, scene, size := Int64.ofNat size, mtime, peers := [env.metaConfig.peerId] }
  let _ ← saveMeta env record
  send env (.success message (fileData env record))

/-- `handleCheck`. -/
def handleCheck (ctx : HttpContext) : Handler Reply := do
  let md5 := ctx.queryParam (bytes "md5")
  if md5 = [] then send env (.error (bytes "md5 is empty") badRequest)
  else if (← get).metaStore.exists_ env.codec md5 then
    send env (.success (bytes "file exist") (.obj []))
  else send env (.success (bytes "file not exist") (.obj []))

/-- The part of `handleUpload` inside its handler of exceptions. -/
def storeUpload (form : MultipartForm) (scene cleanName : Bytes) : Handler Reply := do
  let fileMd5 := md5Hex env.digest form.content
  let filePath ← onDisk
    (FileStore.saveFile env.host env.digest env.config form.filename form.content scene fileMd5)
  if cleanName = [] then
    throw (.other (bytes "[FileStore] Filename is empty after trimming special characters."))
  else
    match filePath with
    | none => throw (.other (bytes "bad optional access"))
    | some path =>
        replyStored env (bytes "Upload success") cleanName scene fileMd5 path form.content.length

/-- The part of `handleUpload` behind the deduplication by a given MD5. -/
def uploadForm (ctx : HttpContext) : Handler Reply := do
  let form := ctx.getForm
  if !ctx.isMultipart then
    send env (.error (bytes "Request is not a multipart/form-data") badRequest)
  else if form.content = [] then send env (.error (bytes "File content is empty") badRequest)
  else if !checkFileExt form.filename env.config.allowExtensions then
    send env (.error (bytes "File extension not allowed") badRequest)
  else
    let cleanName := if env.metaConfig.enableTrimFilename then trimFilenameSpecialChar form.filename
      else form.filename
    tryCatch (storeUpload env form (form.getParam (bytes "scene") (bytes "default")) cleanName)
      fun thrown => send env (.error thrown.what badRequest)

/-- `handleUpload`. -/
def handleUpload (ctx : HttpContext) : Handler Reply := do
  let (goesOn, counter) := enterUpload (← get).concurrentUploads
  modify fun server => { server with concurrentUploads := counter }
  if !goesOn then
    modify fun server => { server with concurrentUploads := restoreUploads server.concurrentUploads }
    send env (.error (bytes "Server busy, too many uploads") badRequest)
  else
    let md5 := ctx.queryParam (bytes "md5")
    let metaStore := (← get).metaStore
    match if md5 = [] then none else metaStore.getMeta env.codec md5 with
    | some record => send env (.success (bytes "Deduplication success") record.toJson)
    | none => uploadForm env ctx

/-- The content types by extension. -/
def mimeTypes : List (Bytes × Bytes) :=
  [(bytes ".jpg", bytes "image/jpeg"), (bytes ".jpeg", bytes "image/jpeg"),
   (bytes ".png", bytes "image/png"), (bytes ".gif", bytes "image/gif"),
   (bytes ".bmp", bytes "image/bmp"), (bytes ".webp", bytes "image/webp"),
   (bytes ".svg", bytes "image/svg+xml"), (bytes ".ico", bytes "image/x-icon"),
   (bytes ".html", bytes "text/html"), (bytes ".htm", bytes "text/html"),
   (bytes ".css", bytes "text/css"), (bytes ".js", bytes "application/javascript"),
   (bytes ".json", bytes "application/json"), (bytes ".txt", bytes "text/plain"),
   (bytes ".md", bytes "text/markdown"), (bytes ".woff", bytes "font/woff"),
   (bytes ".woff2", bytes "font/woff2"), (bytes ".ttf", bytes "font/ttf"),
   (bytes ".pdf", bytes "application/pdf"), (bytes ".zip", bytes "application/zip"),
   (bytes ".gz", bytes "application/gzip"), (bytes ".mp4", bytes "video/mp4"),
   (bytes ".mp3", bytes "audio/mpeg"), (bytes ".wav", bytes "audio/wav")]

/-- `get_mime_type`. -/
def getMimeType (path : Bytes) : Bytes :=
  (mimeTypes.lookup ((extension path).map toLower)).getD (bytes "application/octet-stream")

/-- `handleDownload`: the rest of the path is put behind the root directory as it is. -/
def handleDownload (ctx : HttpContext) : Handler Reply := do
  if ctx.pathSuffix = [] then send env (.error (bytes "File path missing") 404)
  else
    let absPath := env.config.rootDir ++ ctx.pathSuffix
    match ← onDisk (Fs.openRead env.host absPath) with
    | .notFound => send env (.error (bytes "File not found") 404)
    | .failed => send env (.error (bytes "File open error") badRequest)
    | .opened entry =>
        let attname := ctx.queryParam (bytes "attname")
        let disposition := if attname = [] then bytes "inline"
          else bytes "attachment; filename=\"" ++ (attname ++ bytes "\"")
        return .file entry (getMimeType absPath) disposition

/-- The chunk directory that `handleCheckChunk` lists. -/
def checkDir (md5 : Bytes) : Bytes :=
  env.config.rootDir ++ (bytes "/" ++ (env.config.tempDir ++ (bytes "/" ++ md5)))

/-- `handleCheckChunk`. -/
def handleCheckChunk (ctx : HttpContext) : Handler Reply := do
  let fileMd5 := ctx.queryParam (bytes "md5")
  if fileMd5 = [] then send env (.error (bytes "md5 is empty") badRequest)
  else
    let uploaded ← onDisk (FileStore.getShardIndex env.host (checkDir env fileMd5))
    send env (.success [] (.object [(bytes "list", .arr (uploaded.map .num))]))

/-- The path of a chunk below the root directory. -/
def chunkPath (md5 chunk : Bytes) : Bytes :=
  env.config.tempDir ++ (bytes "/" ++ (md5 ++ (bytes "/" ++ chunk)))

/-- `handleChunkUpload`. -/
def handleChunkUpload (ctx : HttpContext) : Handler Reply := do
  let form := ctx.getForm
  let fileMd5 := form.getParam (bytes "md5")
  let chunk := form.getParam (bytes "chunk")
  if fileMd5 = [] ∨ form.content = [] ∨ chunk = [] then
    send env (.error (bytes "md5 or content or chunk is empty") badRequest)
  else if ← onDisk
      (FileStore.saveFileAt env.host env.config form.content (chunkPath env fileMd5 chunk)) then
    send env (.success [] (.object [(bytes "chunk", .str chunk)]))
  else send env (.error (bytes "Save file failed") badRequest)

/-- The chunk directory that `handleMerge` looks up. -/
def mergeDir (md5 : Bytes) : Bytes :=
  join (env.config.rootDir ++ (bytes "/ " ++ env.config.tempDir)) md5

/-- The file in which the chunks are put together. -/
def mergedFile (md5 : Bytes) : Bytes := join (parentPath (mergeDir env md5)) (md5 ++ bytes ".merged")

/-- Append the chunks in turn. An empty chunk, or one that cannot be read, puts the stream
in a failed state, in which it takes no more data. -/
def appendChunks (merged chunkDir : Bytes) : List Int → Bool → FsOp PUnit
  | [], _ => return ⟨⟩
  | index :: rest, good => do
      match ← Fs.openRead env.host (join chunkDir (decimalInt index)) with
      | .opened (.file content) =>
          if good ∧ content ≠ [] then
            let good ← Fs.append env.host merged content
            appendChunks merged chunkDir rest good
          else appendChunks merged chunkDir rest false
      | .opened .dir => appendChunks merged chunkDir rest false
      | _ => throw (.other (bytes "Cannot open chunk: " ++ decimalInt index))

/-- Put the chunks with the given indices together. -/
def assemble (merged chunkDir : Bytes) (indices : List Int) : FsOp PUnit := do
  if ← Fs.openTruncate env.host merged then appendChunks env merged chunkDir indices true
  else throw (.other (bytes "Cannot create merge output file"))

/-- Move the assembled file to its place and remove the chunks; the size of the file. -/
def moveMerged (merged chunkDir finalPath : Bytes) : FsOp Nat := do
  if ← Fs.createDirectories env.host (parentPath finalPath) then
    Fs.rename env.host merged finalPath
    Fs.removeAll env.host chunkDir
    Fs.fileSize env.host finalPath
  else throw (.filesystem [parentPath finalPath])

/-- The part of `handleMerge` inside its handler of exceptions. -/
def mergeChunks (md5 filename scene : Bytes) : Handler Reply := do
  let chunkDir := mergeDir env md5
  let indices ← onDisk do FileStore.numberedFiles env.host chunkDir (← Fs.list env.host chunkDir)
  if indices = [] then send env (.error (bytes "No chunks found") badRequest)
  else
    onDisk (assemble env (mergedFile env md5) chunkDir (indices.mergeSort (· ≤ ·)))
    match FileStore.relPath filename md5 with
    | .error thrown => throw thrown
    | .ok relPath =>
        let size ← onDisk (moveMerged env (mergedFile env md5) chunkDir
          (join (join env.config.rootDir scene) relPath))
        replyStored env (bytes "Merge success") filename scene md5 (join scene relPath) size

/-- `handleMerge`. -/
def handleMerge (ctx : HttpContext) : Handler Reply := do
  let form := ctx.getForm
  let fileMd5 := form.getParam (bytes "md5")
  let filename := form.getParam (bytes "filename")
  let scene := form.getParam (bytes "scene") (bytes "default")
  if fileMd5 = [] ∨ filename = [] then
    send env (.error (bytes "md5 or filename is empty") badRequest)
  else if ← onDisk (Fs.exists_ env.host (mergeDir env fileMd5)) then
    tryCatch (mergeChunks env fileMd5 filename scene)
      fun thrown => send env (.error (bytes "Merge failed: " ++ thrown.what) badRequest)
  else send env (.error (bytes "Chunk directory not found or expired") badRequest)

/-- The handlers of the routing table. -/
inductive Route where
  | check
  | upload
  | download
  | checkChunk
  | chunkUpload
  | status
  | merge
  deriving DecidableEq, Repr

/-- The routes of the server. -/
def routes (sorting : RouteSort Route) : Router Route :=
  let router : Router Route := {}
  let router := router.addRoute .post (bytes "/check") .check
  let router := router.addRoute .post (bytes "/upload") .upload
  let router := router.addPrefix sorting .get (bytes "/group1") .download
  let router := router.addRoute .get (bytes "/check_chunk") .checkChunk
  let router := router.addRoute .get (bytes "/upload_chunk") .chunkUpload
  let router := router.addRoute .get (bytes "/status") .status
  router.addRoute .post (bytes "/merge") .merge

/-- Call the handler of a route; the system status is a parameter. -/
def handle (status : HttpContext → Handler Reply) (ctx : HttpContext) : Route → Handler Reply
  | .check => handleCheck env ctx
  | .upload => handleUpload env ctx
  | .download => handleDownload env ctx
  | .checkChunk => handleCheckChunk env ctx
  | .chunkUpload => handleChunkUpload env ctx
  | .status => status ctx
  | .merge => handleMerge env ctx

/-- `dispatch` with the routes of the server. -/
def dispatch (sorting : RouteSort Route) (status : HttpContext → Handler Reply)
    (request : HttpRequest) : Handler Reply :=
  match (routes sorting).dispatch request with
  | .error thrown => throw thrown
  | .ok none => return .notFound
  | .ok (some (route, ctx)) => handle env status ctx route

end FileCtl

end Cdfs
