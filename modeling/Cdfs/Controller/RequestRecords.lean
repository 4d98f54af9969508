import Cdfs.Basis.Preserves
import Cdfs.Basis.Utf8
import Cdfs.Controller.StoredIntegrity

/-! # The records a request brings

Of all handlers only those for uploads and merges save records, each of one form
(`Cdfs.FileCtl.Brings`). A request does nothing else to the metadata store, whatever
fails (`Cdfs.FileCtl.storeSaves_serverStep`), and a record it brings is well formed if the
texts of its form are (`Cdfs.FileCtl.SoundRequest.wellFormed`).
-/

namespace Cdfs

open Basis FsPath

/-- The second store is reached from the first one by saving such records. -/
def MetadataStore.Saves (codec : JsonCodec) (allowed : MetaFile → Prop)
    (before after : MetadataStore) : Prop :=
  Reachable (step codec) (fun _ op => ∃ record written, op = .saveMeta record written ∧ allowed record)
    before after

namespace FileCtl

variable {env : Env} {sorting : RouteSort Route} {status : HttpContext → Handler Reply}
  {server : Server} {ctx : HttpContext} {request : HttpRequest}

/-! ## What the handlers keep -/

/-- The server after a save. -/
def saved (env : Env) (server : Server) (record : MetaFile) (written : Bool) : Server :=
  { server with metaStore := (server.metaStore.saveMeta env.codec record written).2 }

section Keeps

variable {relation : Server → Server → Prop}

/-- A relation that does not look at the disk is kept by every file operation. -/
theorem preserves_onDisk {α : Type} (disk : ∀ server machine, relation server { server with machine })
    (op : FsOp α) : Preserves relation (onDisk op) :=
  fun server => (onDisk_ends (Ends.any op _)).mono fun _ _ ended => by
    rw [ended.2]
    exact disk server _

/-- The reply for a stored file keeps the relation when saving its record does. -/
theorem preserves_replyStored {message name scene md5 path : Bytes} {size : Nat}
    (saves : ∀ server mtime written, relation server (saved env server
      { md5, path, name, scene, size := Int64.ofNat size, mtime, peers := [env.metaConfig.peerId] }
      written)) :
    Preserves relation (replyStored env message name scene md5 path size) := by
  intro server
  unfold replyStored
  apply ends_now
  apply ends_saveMeta
  refine (send_ends _).mono fun _ _ ended => ?_
  rw [ended.1]
  exact saves server _ _

variable [Std.Refl relation]

/-- Sending a reply changes nothing. -/
theorem preserves_send (reply : Reply) : Preserves relation (send env reply) :=
  fun server => (send_ends reply).mono fun _ _ ended => by
    rw [ended.1]
    exact Std.Refl.refl server

variable [IsTrans Server relation]

/-- The check of an MD5 changes nothing. -/
theorem preserves_handleCheck : Preserves relation (handleCheck env ctx) := by
  unfold handleCheck
  exact .ite (preserves_send _)
    (.bind .get fun _ => .ite (preserves_send _) (preserves_send _))

/-- The download keeps what opening a file for reading keeps. -/
theorem preserves_handleDownload
    (opens : ∀ path, Preserves relation (onDisk (Fs.openRead env.host path))) :
    Preserves relation (handleDownload env ctx) := by
  unfold handleDownload
  refine .ite (preserves_send _) (.bind (opens _) fun opened => ?_)
  cases opened with
  | notFound => exact preserves_send _
  | failed => exact preserves_send _
  | opened entry => exact .pure _

/-- The list of chunks keeps what the scan of their directory keeps. -/
theorem preserves_handleCheckChunk
    (scans : ∀ dir, Preserves relation (onDisk (FileStore.getShardIndex env.host dir))) :
    Preserves relation (handleCheckChunk env ctx) := by
  unfold handleCheckChunk
  exact .ite (preserves_send _) (.bind (scans _) fun _ => preserves_send _)

variable (disk : ∀ server machine, relation server { server with machine })

include disk

/-- The upload of a chunk touches the disk only. -/
theorem preserves_handleChunkUpload : Preserves relation (handleChunkUpload env ctx) := by
  unfold handleChunkUpload
  exact .ite (preserves_send _) (.bind (preserves_onDisk disk _) fun _ =>
    .ite (preserves_send _) (preserves_send _))

/-- A merge works on the file system and saves a record of one form. -/
theorem preserves_handleMerge
    (saves : ∀ relPath, FileStore.relPath (mergeName ctx) (mergeMd5 ctx) = .ok relPath →
      ∀ size server mtime written, relation server (saved env server (mergedRecord env
        (mergeMd5 ctx) (mergeName ctx) (sentScene ctx) relPath size mtime) written)) :
    Preserves relation (handleMerge env ctx) := by
  have chunks : Preserves relation
      (mergeChunks env (mergeMd5 ctx) (mergeName ctx) (sentScene ctx)) := by
    unfold mergeChunks
    refine .bind (preserves_onDisk disk _) fun indices => ?_
    refine .ite (preserves_send _) (.bind (preserves_onDisk disk _) fun _ => ?_)
    cases located : FileStore.relPath (mergeName ctx) (mergeMd5 ctx) with
    | error thrown => exact .throw _
    | ok relPath =>
        refine .bind (preserves_onDisk disk _) fun size => ?_
        exact preserves_replyStored (saves relPath located size)
  unfold handleMerge
  exact .ite (preserves_send _)
    (.bind (preserves_onDisk disk _) fun _ => .ite (.tryCatch chunks fun _ => preserves_send _)
      (preserves_send _))

end Keeps

/-! ## Saves -/

/-- What a handler does to the metadata store is to save such records. -/
def StoreSaves (codec : JsonCodec) (allowed : MetaFile → Prop) (before after : Server) : Prop :=
  MetadataStore.Saves codec allowed before.metaStore after.metaStore

section Saves

variable {codec : JsonCodec} {allowed : MetaFile → Prop}

/-- Leaving the metadata store alone is a run of no saves. -/
theorem storeSaves_of_eq {before after : Server} (same : after.metaStore = before.metaStore) :
    StoreSaves codec allowed before after := by
  unfold StoreSaves MetadataStore.Saves
  rw [same]
  exact .start

/-- Saving one record, written or not, is a run of one save. -/
theorem storeSaves_of_saveMeta {before after : Server} {record : MetaFile} {written : Bool}
    (permitted : allowed record)
    (saved : after.metaStore = (before.metaStore.saveMeta codec record written).2) :
    StoreSaves codec allowed before after := by
  unfold StoreSaves MetadataStore.Saves
  rw [saved]
  have reached : Reachable (MetadataStore.step codec)
      (fun _ op => ∃ record written, op = .saveMeta record written ∧ allowed record)
      before.metaStore (before.metaStore.step codec (.saveMeta record written)) :=
    Reachable.start.step ⟨record, written, rfl, permitted⟩
  exact reached

instance : Std.Refl (StoreSaves codec allowed) := ⟨fun _ => storeSaves_of_eq rfl⟩

instance : IsTrans Server (StoreSaves codec allowed) where
  trans := fun _ _ _ before after => Reachable.trans before after

/-- Fewer records are allowed in the one run than in the other. -/
theorem StoreSaves.mono {before after : Server} {other : MetaFile → Prop}
    (saves : StoreSaves codec allowed before after) (weaker : ∀ record, allowed record → other record) :
    StoreSaves codec other before after :=
  Reachable.mono saves fun _ _ ⟨record, written, saved, permitted⟩ =>
    ⟨record, written, saved, weaker record permitted⟩

end Saves

/-! ## Whole requests -/

/-- The handler a request is for, with its context. -/
def routed (sorting : RouteSort Route) (request : HttpRequest) : Option (Route × HttpContext) :=
  ((routes sorting).dispatch request).toOption.join

/-- What is asked of the requests on one route can be checked. -/
instance decidableRouted (sorting : RouteSort Route) (request : HttpRequest) (route : Route)
    (wanted : HttpContext → Prop) [DecidablePred wanted] :
    Decidable (∀ ctx, routed sorting request = some (route, ctx) → wanted ctx) :=
  decidable_of_iff (∀ found ∈ routed sorting request, found.1 = route → wanted found.2)
    ⟨fun all ctx found => all _ found rfl, by
      rintro all ⟨_, ctx⟩ found rfl
      exact all ctx found⟩

/-- The state after a request. -/
def serverStep (env : Env) (sorting : RouteSort Route) (status : HttpContext → Handler Reply)
    (server : Server) (request : HttpRequest) : Server :=
  after (dispatch env sorting status request) server

/-- What is done for a request: its handler, the page for a path without route, or nothing
when its query does not parse. -/
theorem dispatch_cases (env : Env) (sorting : RouteSort Route) (status : HttpContext → Handler Reply)
    (request : HttpRequest) :
    (∃ route ctx, routed sorting request = some (route, ctx) ∧
      dispatch env sorting status request = handle env status ctx route) ∨
    routed sorting request = none ∧
      (dispatch env sorting status request = pure .notFound ∨
        ∃ thrown, dispatch env sorting status request = throw thrown) := by
  unfold routed dispatch
  cases (routes sorting).dispatch request with
  | error thrown => exact .inr ⟨rfl, .inr ⟨thrown, rfl⟩⟩
  | ok found =>
      cases found with
      | none => exact .inr ⟨rfl, .inl rfl⟩
      | some found => exact .inl ⟨found.1, found.2, rfl, rfl⟩

/-- A request that has a route is done by the handler of the route. -/
theorem dispatch_of_routed {route : Route} (found : routed sorting request = some (route, ctx)) :
    dispatch env sorting status request = handle env status ctx route := by
  rcases dispatch_cases env sorting status request with ⟨_, _, same, handled⟩ | ⟨none, _⟩
  · rw [found] at same
    cases same
    exact handled
  · rw [found] at none
    cases none

/-- The status handler leaves the server as it is: it only reads counters. -/
def ReadsOnly (status : HttpContext → Handler Reply) : Prop :=
  ∀ ctx server, after (status ctx) server = server

/-- The records a request may save. -/
inductive Brings (env : Env) (sorting : RouteSort Route) (request : HttpRequest) : MetaFile → Prop where
  | upload {ctx : HttpContext} (found : routed sorting request = some (.upload, ctx)) (mtime : Int64) :
      Brings env sorting request (uploadRecord env ctx (sentName env ctx) mtime)
  | merge {ctx : HttpContext} (found : routed sorting request = some (.merge, ctx)) {relPath : Bytes}
      (located : FileStore.relPath (mergeName ctx) (mergeMd5 ctx) = .ok relPath) (size : Nat)
      (mtime : Int64) :
      Brings env sorting request
        (mergedRecord env (mergeMd5 ctx) (mergeName ctx) (sentScene ctx) relPath size mtime)

/-- A handler ends in a state related to the one it starts in. -/
theorem related_of_preserves {relation : Server → Server → Prop} {handler : Handler Reply}
    (preserves : Preserves relation handler) (server : Server) : relation server (after handler server) :=
  reply_after_of_ends (preserves server)

/-- A relation that every handler respects holds between the state before a request and
the one after it. -/
theorem related_serverStep {relation : Server → Server → Prop} [Std.Refl relation]
    (handlers : ∀ route ctx, routed sorting request = some (route, ctx) →
      relation server (after (handle env status ctx route) server)) :
    relation server (serverStep env sorting status server request) := by
  unfold serverStep
  rcases dispatch_cases env sorting status request with
    ⟨route, ctx, found, handled⟩ | ⟨_, page | ⟨thrown, broken⟩⟩
  · rw [handled]
    exact handlers route ctx found
  · rw [page]
    exact Std.Refl.refl server
  · rw [broken]
    exact Std.Refl.refl server

/-- **A request does nothing to the metadata store but to save records of these forms.** -/
theorem storeSaves_serverStep (reads : ReadsOnly status) (server : Server) (request : HttpRequest) :
    StoreSaves env.codec (Brings env sorting request) server
      (serverStep env sorting status server request) := by
  refine related_serverStep fun route ctx found => ?_
  have disk (server : Server) (machine : Machine) :
      StoreSaves env.codec (Brings env sorting request) server { server with machine } :=
    storeSaves_of_eq rfl
  cases route with
  | check => exact related_of_preserves preserves_handleCheck server
  | upload =>
      cases reply_after_of_ends (handleUpload_effect env ctx server) with
      | refused _ same => exact storeSaves_of_eq same
      | unrecorded _ _ same => exact storeSaves_of_eq same
      | recorded _ _ _ saved => exact storeSaves_of_saveMeta (.upload found _) saved
  | download =>
      exact related_of_preserves (preserves_handleDownload fun _ => preserves_onDisk disk _) server
  | checkChunk =>
      exact related_of_preserves (preserves_handleCheckChunk fun _ => preserves_onDisk disk _) server
  | chunkUpload => exact related_of_preserves (preserves_handleChunkUpload disk) server
  | status => exact storeSaves_of_eq (congrArg Server.metaStore (reads ctx server))
  | merge =>
      refine related_of_preserves (preserves_handleMerge disk ?_) server
      intro relPath located size server mtime written
      exact storeSaves_of_saveMeta (.merge found located size mtime) rfl

/-! ## Well-formed records -/

/-- An upload or merge whose texts are UTF-8; the MD5 of a merge is a hexadecimal one. -/
@[mk_iff]
structure SoundRequest (sorting : RouteSort Route) (request : HttpRequest) : Prop where
  upload : ∀ ctx, routed sorting request = some (.upload, ctx) →
    validUtf8 ctx.getForm.filename = true ∧ validUtf8 (sentScene ctx) = true
  merge : ∀ ctx, routed sorting request = some (.merge, ctx) →
    IsHexMd5 (mergeMd5 ctx) ∧ validUtf8 (mergeName ctx) = true ∧ validUtf8 (sentScene ctx) = true

instance (sorting : RouteSort Route) (request : HttpRequest) :
    Decidable (SoundRequest sorting request) :=
  decidable_of_iff _ (soundRequest_iff sorting request).symm

/-- Trimming a name takes ASCII characters out of it. -/
theorem thinned_dropDotRuns (dots : Nat) (name : Bytes) :
    Thinned (List.replicate dots 46 ++ name) (dropDotRuns dots name) := by
  have single (dots : Nat) : Thinned (List.replicate dots 46) (if dots = 1 then [46] else []) := by
    split
    · rename_i one
      rw [one]
      exact .refl _
    · exact .of_ascii fun byte member => by rw [List.eq_of_mem_replicate member]; decide
  induction name generalizing dots with
  | nil =>
      rw [List.append_nil]
      exact single dots
  | cons byte rest ih =>
      unfold dropDotRuns
      split
      · rename_i dot
        rw [dot, ← List.singleton_append, ← List.append_assoc, ← List.replicate_succ']
        exact ih (dots + 1)
      · exact (single dots).append ((ih 0).keep byte)

/-- The characters taken out of a name are ASCII. -/
theorem ascii_of_isSpecialChar {byte : UInt8} (special : isSpecialChar byte = true) : byte ≤ 0x7F := by
  rcases Bool.or_eq_true_iff.mp special with listed | space
  · have all : ∀ byte ∈ bytes "/\\:*?\"<>|()[]\x7b\x7d,;'#@%&$^~=+-!", byte ≤ 0x7F := by decide +kernel
    exact all byte (List.contains_iff_mem.mp listed)
  · unfold isSpace at space
    simp only [Bool.or_eq_true, beq_iff_eq, Bool.and_eq_true, decide_eq_true_eq] at space
    rcases space with rfl | ⟨_, low⟩
    · decide
    · exact UInt8.le_trans low (by decide)

/-- Trimming a UTF-8 name leaves a UTF-8 name: whole characters are taken out. -/
theorem validUtf8_trimFilenameSpecialChar {filename : Bytes} (valid : validUtf8 filename = true) :
    validUtf8 (trimFilenameSpecialChar filename) = true := by
  have refused (byte : UInt8) (special : (!isSpecialChar byte) = false) : byte ≤ 0x7F :=
    ascii_of_isSpecialChar (by simpa using special)
  have filtered := validUtf8_thinned (Thinned.filter refused filename) valid
  have dropped := validUtf8_thinned (thinned_dropDotRuns 0 _) filtered
  unfold trimFilenameSpecialChar
  generalize dropDotRuns 0 (filename.filter fun byte => !isSpecialChar byte) = name at dropped
  have started : validUtf8 (if name.head? = some 46 then name.drop 1 else name) = true := by
    split
    · rename_i dotted
      obtain ⟨rest, rfl⟩ := List.head?_eq_some_iff.mp dotted
      exact validUtf8_thinned (.drop (by decide) (.refl rest)) dropped
    · exact dropped
  dsimp only
  generalize (if name.head? = some 46 then name.drop 1 else name) = middle at started
  split
  · rename_i dotted
    obtain ⟨front, rfl⟩ := List.getLast?_eq_some_iff.mp dotted
    rw [List.dropLast_concat]
    exact validUtf8_of_append (by decide) started
  · exact started

/-- The name under which an upload is recorded is UTF-8 when the name sent is, trimmed or
not. -/
theorem validUtf8_sentName (valid : validUtf8 ctx.getForm.filename = true) :
    validUtf8 (sentName env ctx) = true := by
  unfold sentName
  split
  · exact validUtf8_trimFilenameSpecialChar valid
  · exact valid

/-- A path made of hexadecimal digits and the extension of a UTF-8 name. -/
theorem validUtf8_relPath {name md5 relPath : Bytes} (hex : ∀ byte ∈ md5, isHexDigit byte = true)
    (valid : validUtf8 name = true) (located : FileStore.relPath name md5 = .ok relPath) :
    validUtf8 relPath = true := by
  have whole : validUtf8 md5 = true := validUtf8_of_hex hex
  have part (count : Nat) : validUtf8 ((md5.drop count).take 2) = true :=
    validUtf8_of_hex fun byte member => hex byte (List.mem_of_mem_drop (List.mem_of_mem_take member))
  unfold FileStore.relPath md5ToRelPath at located
  split at located
  · cases located
  · cases located
    rw [validUtf8_append]
    · exact validUtf8_pathExtension valid
    · refine validUtf8_join (validUtf8_join (validUtf8_join rfl ?_) (part 2)) whole
      have first := part 0
      rwa [List.drop_zero] at first

/-- A sound request brings well-formed records. -/
theorem SoundRequest.wellFormed {request : HttpRequest} (sound : SoundRequest sorting request)
    (peer : validUtf8 env.metaConfig.peerId = true) {record : MetaFile}
    (brought : Brings env sorting request record) : record.WellFormed := by
  have strings {md5 path name scene : Bytes} (hex : IsHexMd5 md5) (pathUtf8 : validUtf8 path = true)
      (nameUtf8 : validUtf8 name = true) (sceneUtf8 : validUtf8 scene = true) (size : Nat)
      (mtime : Int64) :
      MetaFile.WellFormed { md5, path, name, scene, size := Int64.ofNat size, mtime,
                            peers := [env.metaConfig.peerId] } := by
    refine ⟨hex, ?_⟩
    simp only [MetaFile.IsUtf8, MetaFile.strings, List.flatMap_nil, List.append_nil,
      List.forall_mem_append, List.forall_mem_cons, List.not_mem_nil, IsEmpty.forall_iff,
      implies_true, and_true]
    exact ⟨⟨validUtf8_of_hex hex.2, pathUtf8, nameUtf8, rfl, sceneUtf8, rfl⟩, peer⟩
  cases brought with
  | @upload ctx found mtime =>
      obtain ⟨filename, scene⟩ := sound.upload ctx found
      have hex := isHexMd5_md5Hex env.digest ctx.getForm.content
      exact strings hex (validUtf8_join scene (validUtf8_relPath hex.2 filename (relPath_md5Hex ..)))
        (validUtf8_sentName filename) scene _ mtime
  | merge found located size mtime =>
      obtain ⟨hex, filename, scene⟩ := sound.merge _ found
      exact strings hex (validUtf8_join scene (validUtf8_relPath hex.2 filename located)) filename
        scene size mtime

end FileCtl

end Cdfs
