import Cdfs.Controller.ResumeUpload
import Cdfs.Controller.WorkerPool
import Cdfs.Meta.PrintedRecords
import Cdfs.Store.WriteExceptions

/-! # The exceptions that escape

Where no call of the file system fails and the texts of the requests are UTF-8, an exception
escapes in two cases: the query does not parse, or a chunk is sent to a path at which a
directory stands, whose size is asked for outside any handler of exceptions
(`Cdfs.FileCtl.escapes_eq_fatal`). The handlers of `handleUpload` and `handleMerge` reply
with the message of what they catch; it is printed because the paths in it are made of the
texts of the request.
-/

namespace Cdfs

open Basis FsPath

namespace FileCtl

variable {env : Env} {server : Server} {ctx : HttpContext} {allowed : Exn → Prop}

/-! ## Messages -/

/-- The message of the exception is UTF-8. -/
def Printable (thrown : Exn) : Prop := validUtf8 thrown.what = true

instance (thrown : Exn) : Decidable (Printable thrown) :=
  inferInstanceAs (Decidable (validUtf8 thrown.what = true))

/-- The text of a `filesystem_error` is UTF-8 when the paths in it are. -/
theorem printable_filesystem {paths : List Bytes} (valid : ∀ path ∈ paths, validUtf8 path = true) :
    Printable (.filesystem paths) := by
  unfold Printable Exn.what
  rw [validUtf8_append (by decide +kernel)]
  induction paths with
  | nil => rfl
  | cons path paths ih =>
      obtain ⟨first, rest⟩ := List.forall_mem_cons.mp valid
      rw [List.flatMap_cons, List.append_assoc, validUtf8_append (by decide +kernel), List.append_assoc,
        validUtf8_append first, validUtf8_append (by decide +kernel)]
      exact ih rest

/-- A reply that can be printed is sent. -/
theorem returns_send {reply : Reply} (printable : reply.unprintable env.codec = false) :
    Returns (send env reply) := by
  unfold send
  rw [printable, if_neg Bool.false_ne_true]
  exact .pure reply

/-- An error reply can always be printed when its message is UTF-8. -/
theorem returns_error {message : Bytes} (utf8 : validUtf8 message = true) (status : Nat) :
    Returns (send env (.error message status)) := returns_send (printable_error env.codec utf8 status)

/-- A reply that cannot be printed leaves a message of its own. -/
theorem throws_send (reply : Reply) : Throws Printable (send env reply) :=
  .ite (fun _ => .throw (by decide +kernel)) fun _ => .pure reply

/-- What a file operation throws is what the handler around it throws. -/
theorem throws_onDisk {α : Type} {op : FsOp α} (throws : Throws allowed op) :
    Throws allowed (onDisk op) :=
  fun server => (onDisk_ends (throws server.machine)).mono fun _ _ ended => ended.1

/-- The reply for a stored file throws at most the exception of the JSON library, which is
ASCII. -/
theorem throws_replyStored (message name scene md5 path : Bytes) (size : Nat) :
    Throws Printable (replyStored env message name scene md5 path size) := by
  intro server
  unfold replyStored
  apply ends_now
  apply ends_saveMeta
  exact throws_send _ _

/-! ## The handlers -/

/-- The check of an MD5 answers every request. -/
theorem returns_handleCheck : Returns (handleCheck env ctx) := by
  unfold handleCheck
  refine .ite (fun _ => returns_error (by decide +kernel) _) fun _ => .bind .get fun server => ?_
  have empty : (Json.obj []).isUtf8 = true := rfl
  exact .ite (fun _ => returns_send (printable_success _ (by decide +kernel) empty))
    fun _ => returns_send (printable_success _ (by decide +kernel) empty)

/-- The download answers every request: opening the file does not throw. -/
theorem returns_handleDownload : Returns (handleDownload env ctx) := by
  unfold handleDownload
  refine .ite (fun _ => returns_error (by decide +kernel) _) fun _ => ?_
  refine .bind (throws_onDisk (Fs.returns_openRead _)) fun opened => ?_
  cases opened with
  | notFound => exact returns_error (by decide +kernel) _
  | failed => exact returns_error (by decide +kernel) _
  | opened entry => exact .pure _

/-- On a host without faults the list of chunks is answered; the scan has no `try` around
it. -/
theorem returns_handleCheckChunk (faultless : env.host.Faultless) :
    Returns (handleCheckChunk env ctx) := by
  unfold handleCheckChunk
  refine .ite (fun _ => returns_error (by decide +kernel) _) fun _ => ?_
  refine .bind (throws_onDisk ?_) fun indices => returns_send (printable_chunkList env.codec indices)
  exact fun machine => (FileStore.getShardIndex_ends _).mono fun _ _ ended thrown failed =>
    ended.2.2 thrown failed faultless

/-- The texts of the settings are UTF-8. -/
structure Utf8Config (config : StoreConfig) : Prop where
  rootDir : validUtf8 config.rootDir = true
  tempDir : validUtf8 config.tempDir = true

/-- What storing an upload throws can be printed when the texts of the request can: paths
carry its name and scene. -/
theorem throws_storeUpload (texts : Utf8Config env.config)
    (filename : validUtf8 ctx.getForm.filename = true) (scene : validUtf8 (sentScene ctx) = true)
    (cleanName : Bytes) :
    Throws Printable (storeUpload env ctx.getForm (sentScene ctx) cleanName) := by
  have located := relPath_upload env ctx
  have hex := (isHexMd5_md5Hex env.digest ctx.getForm.content).2
  have rel := validUtf8_relPath hex filename (relPath_md5Hex env.digest ctx.getForm.filename ctx.getForm.content)
  refine .bind (throws_onDisk (FileStore.throws_saveFile located (printable_filesystem ?_)))
    fun path => .ite (fun _ => .throw (by decide +kernel)) fun _ => ?_
  · exact List.forall_mem_singleton.mpr (validUtf8_join (validUtf8_join texts.rootDir scene) rel)
  · cases path with
    | none => exact .throw (by decide +kernel)
    | some path => exact throws_replyStored _ _ _ _ _ _

/-- An upload is replied, whatever fails. -/
theorem returns_handleUpload (parses : ParsesUtf8 env.codec) (texts : Utf8Config env.config)
    (filename : validUtf8 ctx.getForm.filename = true) (scene : validUtf8 (sentScene ctx) = true) :
    Returns (handleUpload env ctx) := by
  unfold handleUpload
  refine .bind .get fun before => .bind (.modify _) fun _ => .ite (fun _ => ?_) fun _ => ?_
  · exact .bind (.modify _) fun _ => returns_error (by decide +kernel) _
  · refine .bind .get fun server => ?_
    dsimp only
    split
    · next record found =>
      refine returns_send (printable_success _ (by decide +kernel) (MetaFile.isUtf8_toJson ?_))
      split at found
      · cases found
      · exact MetadataStore.isUtf8_of_getMeta parses found
    · unfold uploadForm
      refine .ite (fun _ => returns_error (by decide +kernel) _) fun _ => ?_
      refine .ite (fun _ => returns_error (by decide +kernel) _) fun _ => ?_
      refine .ite (fun _ => returns_error (by decide +kernel) _) fun _ => ?_
      exact .tryCatch (throws_storeUpload texts filename scene _)
        fun thrown printable => returns_error printable _

/-- On a host without faults the loop over the entries runs through, whatever the names
are. -/
theorem returns_numberedFiles (faultless : env.host.Faultless) (directory : Bytes)
    (names : List Bytes) : Returns (FileStore.numberedFiles env.host directory names) := by
  intro machine
  refine (FileStore.numberedFiles_ends directory names).mono ?_
  rintro result final ⟨_, read | ⟨_, failing⟩⟩ thrown failed
  · rw [read] at failed
    cases failed
  · exact failing faultless

/-- What the loop over the chunks throws is `Chunk missing` with a number in it. -/
theorem throws_appendChunks (merged chunkDir : Bytes) (indices : List Int) (good : Bool) :
    Throws Printable (appendChunks env merged chunkDir indices good) := by
  induction indices generalizing good with
  | nil => exact .pure _
  | cons index indices ih =>
      refine .bind (Fs.returns_openRead _).throws fun opened => ?_
      have missing : Printable (.other (bytes "Cannot open chunk: " ++ decimalInt index)) := by
        refine validUtf8_of_ascii (List.forall_mem_append.mpr ⟨by decide +kernel, ?_⟩)
        intro byte member
        have ascii : ∀ byte : UInt8, isDigit byte = true → byte ≤ 0x7F := forall_byte (by decide +kernel)
        rcases minus_or_isDigit_of_mem_decimalInt member with rfl | digit
        · decide
        · exact ascii byte digit
      cases opened with
      | notFound => exact .throw missing
      | failed => exact .throw missing
      | opened entry =>
          cases entry with
          | dir => exact ih false
          | file content =>
              exact .ite (fun _ => .bind (Fs.returns_append _ _).throws fun good => ih good)
                fun _ => ih false

/-- Putting the chunks together throws printable texts only. -/
theorem throws_assemble (merged chunkDir : Bytes) (indices : List Int) :
    Throws Printable (assemble env merged chunkDir indices) :=
  .bind (Fs.returns_openTruncate _).throws fun _ =>
    .ite (fun _ => throws_appendChunks _ _ _ _) fun _ => .throw (by decide +kernel)

/-- Moving the merged file throws errors that name its paths, and these are UTF-8. -/
theorem throws_moveMerged {merged chunkDir finalPath : Bytes} (source : validUtf8 merged = true)
    (directory : validUtf8 chunkDir = true) (target : validUtf8 finalPath = true) :
    Throws Printable (moveMerged env merged chunkDir finalPath) := by
  have single {path : Bytes} (valid : validUtf8 path = true) : Printable (.filesystem [path]) :=
    printable_filesystem (List.forall_mem_singleton.mpr valid)
  refine .bind (Fs.returns_createDirectories _).throws fun made => .ite (fun _ => ?_) fun _ => ?_
  · have renames : Throws Printable (Fs.rename env.host merged finalPath) :=
      Fs.throws_rename (printable_filesystem
        (List.forall_mem_cons.mpr ⟨source, List.forall_mem_singleton.mpr target⟩))
    exact .bind renames fun _ => .bind (Fs.throws_removeAll (single directory)) fun _ =>
      Fs.throws_fileSize (single target)
  · exact .throw (single (validUtf8_parentPath target))

/-- The body of a merge throws printable texts only, so that the handler's `catch` can
answer. -/
theorem throws_mergeChunks (faultless : env.host.Faultless) (texts : Utf8Config env.config)
    {md5 filename scene : Bytes} (hex : IsHexMd5 md5) (name : validUtf8 filename = true)
    (sceneText : validUtf8 scene = true) :
    Throws Printable (mergeChunks env md5 filename scene) := by
  have digits := validUtf8_of_hex hex.2
  have directory : validUtf8 (mergeDir env md5) = true := by
    refine validUtf8_join ?_ digits
    rw [validUtf8_append texts.rootDir, validUtf8_append (by decide +kernel)]
    exact texts.tempDir
  have merged : validUtf8 (mergedFile env md5) = true := by
    refine validUtf8_join (validUtf8_parentPath directory) ?_
    rw [validUtf8_append digits]
    decide +kernel
  have listed : Printable (.filesystem [mergeDir env md5]) :=
    printable_filesystem (List.forall_mem_singleton.mpr directory)
  refine .bind (throws_onDisk (.bind (Fs.throws_list listed) fun names =>
    (returns_numberedFiles faultless _ names).throws)) fun indices => ?_
  refine .ite (fun _ => throws_send _) fun _ => ?_
  refine .bind (throws_onDisk (throws_assemble _ _ _)) fun _ => ?_
  cases located : FileStore.relPath filename md5 with
  | error thrown =>
      have plain : ¬ md5.length < 4 := by
        rw [hex.1]
        decide
      rw [FileStore.relPath, md5ToRelPath, if_neg plain] at located
      cases located
  | ok relPath =>
      have rel := validUtf8_relPath hex.2 name located
      exact .bind (throws_onDisk (throws_moveMerged merged directory
        (validUtf8_join (validUtf8_join texts.rootDir sceneText) rel)))
        fun size => throws_replyStored _ _ _ _ _ _

/-- Without faults a merge is replied. -/
theorem returns_handleMerge (faultless : env.host.Faultless) (texts : Utf8Config env.config)
    (hex : IsHexMd5 (mergeMd5 ctx)) (name : validUtf8 (mergeName ctx) = true)
    (scene : validUtf8 (sentScene ctx) = true) : Returns (handleMerge env ctx) := by
  have exists_ : Returns (Fs.exists_ env.host (mergeDir env (mergeMd5 ctx))) := fun machine =>
    (Fs.exists_ends _).mono fun result final ended thrown failed => by
      rw [failed] at ended
      exact ended.2 faultless
  unfold handleMerge
  refine .ite (fun _ => returns_error (by decide +kernel) _) fun _ => ?_
  refine .bind (throws_onDisk exists_) fun found => .ite (fun _ => ?_) fun _ =>
    returns_error (by decide +kernel) _
  refine .tryCatch (throws_mergeChunks faultless texts hex name scene) fun thrown printable => ?_
  refine returns_error ?_ _
  rw [validUtf8_append (by decide +kernel)]
  exact printable

/-- The request sends a chunk to a path at which a directory stands. -/
def hitsDirectory (env : Env) (server : Server) (ctx : HttpContext) : Bool :=
  ctx.getForm.getParam (bytes "md5") ≠ [] && ctx.getForm.content ≠ [] &&
    ctx.getForm.getParam (bytes "chunk") ≠ [] &&
    FileStore.hitsDirectory env.config server.machine.disk (sentPath env ctx)

/-- A chunk is replied unless there is a directory at its path. -/
theorem handleChunkUpload_throws_iff (reliable : env.host.Reliable)
    (chunk : validUtf8 (ctx.getForm.getParam (bytes "chunk")) = true) :
    Ends (handleChunkUpload env ctx) server fun result _ =>
      result.isOk = false ↔ hitsDirectory env server ctx = true := by
  have replied {reply : Reply} {middle : Server} {claim : Prop}
      (printable : reply.unprintable env.codec = false) (free : ¬ claim) :
      Ends (send env reply) middle fun result _ => result.isOk = false ↔ claim := by
    refine (send_printed_ends reply).mono ?_
    rintro result final ⟨_, ⟨_, rfl⟩ | ⟨unprintable, _⟩⟩
    · exact iff_of_false Bool.false_ne_true.symm free
    · rw [printable] at unprintable
      cases unprintable
  unfold handleChunkUpload hitsDirectory
  dsimp only
  refine Ends.ite (fun empty => replied (printable_error _ (by decide +kernel) _) ?_) fun given => ?_
  · rcases empty with empty | empty | empty <;> simp [empty]
  · simp only [not_or] at given
    simp only [ne_eq, given.1, given.2.1, given.2.2, not_false_eq_true, decide_true, Bool.true_and]
    apply Ends.bind (onDisk_ends (FileStore.saveFileAt_throws_iff reliable env.config _ _))
    · rintro success middle ⟨throws, _⟩
      have free := fun hit => Bool.false_ne_true.symm (throws.mpr hit)
      have data : (Json.object [(bytes "chunk", .str (ctx.getForm.getParam (bytes "chunk")))]).isUtf8 =
          true := by
        apply Json.isUtf8_object
        simp only [List.mem_singleton, forall_eq]
        exact ⟨by decide +kernel, chunk⟩
      exact Ends.ite (fun _ => replied (printable_success _ rfl data) free)
        fun _ => replied (printable_error _ (by decide +kernel) _) free
    · rintro thrown final ⟨throws, _⟩
      exact iff_of_true rfl (throws.mp rfl)

/-! ## Requests -/

/-- A request whose texts are UTF-8. -/
@[mk_iff]
structure PoliteRequest (sorting : RouteSort Route) (request : HttpRequest) : Prop
    extends SoundRequest sorting request where
  chunk : ∀ ctx, routed sorting request = some (.chunkUpload, ctx) →
    validUtf8 (ctx.getForm.getParam (bytes "chunk")) = true

instance (sorting : RouteSort Route) (request : HttpRequest) :
    Decidable (PoliteRequest sorting request) :=
  decidable_of_iff _ (politeRequest_iff sorting request).symm

/-- The query does not parse, or a chunk is sent to a path at which a directory stands. -/
def fatal (env : Env) (sorting : RouteSort Route) (server : Server) (request : HttpRequest) : Bool :=
  malformed request || (routed sorting request).any fun found =>
    found.1 = .chunkUpload && hitsDirectory env server found.2

/-- How many of the requests are fatal, handled one after the other. -/
def fatalCount (env : Env) (sorting : RouteSort Route) (status : HttpContext → Handler Reply) :
    Server → List HttpRequest → Nat
  | _, [] => 0
  | server, request :: requests => (fatal env sorting server request).toNat +
      fatalCount env sorting status (serverStep env sorting status server request) requests

variable {sorting : RouteSort Route} {status : HttpContext → Handler Reply}

/-- A request whose query parses goes to its handler, or gets the page for a path without
route. -/
theorem dispatch_of_parsed {request : HttpRequest} (parsed : malformed request = false) :
    dispatch env sorting status request = match routed sorting request with
      | some found => handle env status found.2 found.1
      | none => return .notFound := by
  unfold malformed at parsed
  unfold dispatch routed
  rw [Router.dispatch_eq]
  cases query : UrlUtils.parseQuery (UrlUtils.splitTarget request.target).2 with
  | error thrown =>
      rw [query] at parsed
      cases parsed
  | ok query =>
      simp only [Except.map]
      cases (routes sorting).route request.method (UrlUtils.splitTarget request.target).1 with
      | none => rfl
      | some found => rfl

/-- A handler that returns leaves the worker alive. -/
theorem isOk_of_returns {handler : Handler Reply} (returns : Returns handler) (server : Server) :
    (reply handler server).isOk = true := by
  have ended := reply_after_of_ends (returns server)
  cases replied : reply handler server with
  | ok reply => rfl
  | error thrown => exact (ended thrown replied).elim

section Reliable

variable (reliable : env.host.Reliable) (parses : ParsesUtf8 env.codec) (texts : Utf8Config env.config)
  (answers : ∀ ctx, Returns (status ctx))

include reliable parses texts answers

/-- Every handler replies, that for chunks unless it meets a directory. -/
theorem isOk_handle {request : HttpRequest} (polite : PoliteRequest sorting request) {route : Route}
    (found : routed sorting request = some (route, ctx)) (server : Server) :
    (reply (handle env status ctx route) server).isOk =
      !(decide (route = .chunkUpload) && hitsDirectory env server ctx) := by
  cases route with
  | check => exact isOk_of_returns returns_handleCheck server
  | upload =>
      obtain ⟨filename, scene⟩ := polite.upload ctx found
      exact isOk_of_returns (returns_handleUpload parses texts filename scene) server
  | download => exact isOk_of_returns returns_handleDownload server
  | checkChunk => exact isOk_of_returns (returns_handleCheckChunk reliable.fault) server
  | chunkUpload =>
      have throws := reply_after_of_ends (@handleChunkUpload_throws_iff env server ctx reliable
        (polite.chunk ctx found))
      rw [decide_eq_true rfl, Bool.true_and]
      change (reply (handleChunkUpload env ctx) server).isOk = _
      cases hit : hitsDirectory env server ctx with
      | true => exact throws.mpr hit
      | false =>
          refine Bool.eq_true_of_not_eq_false fun failed => ?_
          rw [hit] at throws
          exact Bool.false_ne_true (throws.mp failed)
  | status => exact isOk_of_returns (answers ctx) server
  | merge =>
      obtain ⟨hex, name, scene⟩ := polite.merge ctx found
      exact isOk_of_returns (returns_handleMerge reliable.fault texts hex name scene) server

/-- An exception escapes exactly from the fatal requests. -/
theorem escapes_eq_fatal {request : HttpRequest} (polite : PoliteRequest sorting request)
    (server : Server) :
    escapes env sorting status server request = fatal env sorting server request := by
  cases broken : malformed request with
  | true =>
      rw [(escapes_of_malformed broken server).1, fatal, broken, Bool.true_or]
  | false =>
      rw [escapes, dispatch_of_parsed broken, fatal, broken, Bool.false_or]
      cases found : routed sorting request with
      | none => rfl
      | some chosen =>
          obtain ⟨route, ctx⟩ := chosen
          rw [Option.any_some]
          dsimp only
          rw [isOk_handle reliable parses texts answers polite found, Bool.not_not]

/-- Request by request, an exception escapes exactly where the request is fatal. -/
theorem escapeCount_eq_fatalCount {requests : List HttpRequest}
    (polite : ∀ request ∈ requests, PoliteRequest sorting request) (server : Server) :
    escapeCount env sorting status server requests = fatalCount env sorting status server requests := by
  induction requests generalizing server with
  | nil => rfl
  | cons request requests ih =>
      obtain ⟨first, rest⟩ := List.forall_mem_cons.mp polite
      rw [escapeCount, fatalCount, escapes_eq_fatal reliable parses texts answers first, ih rest]

/-- **What costs a worker.** Where no call of the file system fails, requests whose texts are
UTF-8 leave all workers but one for each query that does not parse and for each chunk that is
sent to a path at which a directory stands; while a worker is left every request has been
handled. -/
theorem workers_of_politeRequests {requests : List HttpRequest}
    (polite : ∀ request ∈ requests, PoliteRequest sorting request) (server : Server) (workers : Nat) :
    let final := poolRun env sorting status ⟨server, workers⟩ requests
    final.workers = workers - fatalCount env sorting status server requests ∧
      (fatalCount env sorting status server requests < workers →
        final.server = serverRun env sorting status server requests) := by
  intro final
  obtain ⟨left, handled⟩ := @poolRun_eq env sorting status server workers requests
  rw [escapeCount_eq_fatalCount reliable parses texts answers polite] at left
  exact ⟨left, fun few => handled (by rw [left]; omega)⟩

end Reliable

/-- A library that reads only what it could have printed. -/
def strictCodec : JsonCodec where
  dump := compactCodec.dump
  parse text := (compactCodec.parse text).filter Json.isUtf8
  dump_isSome := compactCodec.dump_isSome
  parse_dump value text canonical printed := by
    have utf8 : value.isUtf8 = true := by
      rw [← compactCodec.dump_isSome, printed]
      rfl
    rw [compactCodec.parse_dump value text canonical printed, Option.filter_some, if_pos utf8]
  brace_of_parse_obj text members parsed :=
    compactCodec.brace_of_parse_obj text members (Option.filter_eq_some_iff.mp parsed).1

/-- The stricter library reads UTF-8 texts only. -/
theorem parsesUtf8_strictCodec : ParsesUtf8 strictCodec :=
  fun _ _ parsed => (Option.filter_eq_some_iff.mp parsed).2

/-- The sample settings with this library. -/
def strictEnv : Env := { sampleEnv with codec := strictCodec }

/-- The sample traffic and a chunk that is named by a dot. -/
def dotTraffic : List HttpRequest :=
  sampleTraffic ++ [formRequest .get "/upload_chunk" (helloChunk (bytes ".") (bytes "x"))]

/-- The texts of these requests are UTF-8, and the merge names a hexadecimal MD5. -/
theorem politeRequest_dotTraffic :
    ∀ request ∈ dotTraffic, PoliteRequest (Router.mergeSorting _) request := by
  decide +kernel

/-- The chunk is sent to the directory of the chunks itself and costs one of four workers. -/
theorem workers_of_dotTraffic :
    (poolRun strictEnv (Router.mergeSorting _) sampleStatus ⟨sampleServer, 4⟩ dotTraffic).workers =
      3 := by
  have one : fatalCount strictEnv (Router.mergeSorting _) sampleStatus sampleServer dotTraffic = 1 := by
    decide +kernel
  have left := (@workers_of_politeRequests strictEnv (Router.mergeSorting _) sampleStatus
    calmHost_reliable parsesUtf8_strictCodec ⟨by decide +kernel, by decide +kernel⟩ (fun _ => .pure _)
    dotTraffic politeRequest_dotTraffic sampleServer 4).1
  rw [left, one]

end FileCtl

end Cdfs
