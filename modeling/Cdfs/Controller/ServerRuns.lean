import Cdfs.Controller.RequestRecords
import Cdfs.Meta.IndexInvariant
import Cdfs.Meta.PrintedRecords
import Cdfs.Meta.Statistics

/-! # Runs of the server

Requests handled one after the other, with any faults of the file system and of the
database. What is stored under an MD5 stays as it is, and so do the answers about it
(`Cdfs.FileCtl.stored_of_requests`); the statistics and the scene index follow the records
(`Cdfs.FileCtl.exact_of_requests`). The counter of uploads only grows, so that from some
request on every upload is turned away (`Cdfs.FileCtl.uploads_of_requests`).
-/

namespace Cdfs

open Basis FsPath

namespace FileCtl

variable {env : Env} {sorting : RouteSort Route} {status : HttpContext → Handler Reply}
  {server : Server}

/-- The state after requests. -/
def serverRun (env : Env) (sorting : RouteSort Route) (status : HttpContext → Handler Reply) :
    Server → List HttpRequest → Server := run (serverStep env sorting status)

/-- Requests do nothing to the metadata store but to save records they bring. -/
theorem storeSaves_serverRun (reads : ReadsOnly status) (server : Server)
    (requests : List HttpRequest) :
    StoreSaves env.codec (fun record => ∃ request ∈ requests, Brings env sorting request record) server
      (serverRun env sorting status server requests) := by
  induction requests generalizing server with
  | nil => exact storeSaves_of_eq rfl
  | cons request requests ih =>
      refine Reachable.trans ((storeSaves_serverStep reads server request).mono ?_)
        ((ih (serverStep env sorting status server request)).mono ?_)
      · intro record brought
        exact ⟨request, List.mem_cons_self, brought⟩
      · rintro record ⟨other, member, brought⟩
        exact ⟨other, List.mem_cons_of_mem _ member, brought⟩

/-! ## What is stored -/

/-- A save leaves the entries of other MD5s, and a taken one, as they are. -/
theorem get_saveMeta_of_stored {codec : JsonCodec} {store : MetadataStore} {md5 text : Bytes}
    (hex : IsHexMd5 md5) (stored : store.db.get md5 = some text) (record : MetaFile) (written : Bool) :
    (store.saveMeta codec record written).2.db.get md5 = some text := by
  rcases store.db_saveMeta record written with same | ⟨fresh, saved⟩
  · rw [same, stored]
  · rw [saved, get_saveBatch_of_isHexMd5 record hex]
    by_cases taken : record.md5 = md5
    · rw [taken, stored] at fresh
      cases fresh
    · rw [if_neg taken, stored]

/-- A stored record is not replaced: saving it again writes nothing. -/
theorem get_of_saves {codec : JsonCodec} {allowed : MetaFile → Prop} {before after : MetadataStore}
    {md5 text : Bytes} (hex : IsHexMd5 md5) (stored : before.db.get md5 = some text)
    (saves : before.Saves codec allowed after) : after.db.get md5 = some text := by
  refine saves.invariant (fun store => store.db.get md5 = some text) stored ?_
  rintro store _ kept ⟨record, written, rfl, _⟩
  exact get_saveMeta_of_stored hex kept record written

/-- What comes of sending a reply. -/
def sent (env : Env) (reply : Reply) : Except Exn Reply :=
  if reply.unprintable env.codec then .error invalidUtf8 else .ok reply

/-- The answers about a record: a check finds it, and an upload that names its MD5 and is
let in stores nothing and returns it. With a parser that takes UTF-8 only the reply can always
be printed. -/
structure AnswersFrom (env : Env) (server : Server) (md5 : Bytes) (record : MetaFile) : Prop where
  found : server.metaStore.getMeta env.codec md5 = some record
  check : ∀ ctx : HttpContext, ctx.queryParam (bytes "md5") = md5 →
    reply (handleCheck env ctx) server = .ok (.success (bytes "file exist") (.obj []))
  upload : ∀ ctx : HttpContext, ctx.queryParam (bytes "md5") = md5 →
    (enterUpload server.concurrentUploads).1 = true →
    reply (handleUpload env ctx) server =
        sent env (.success (bytes "Deduplication success") record.toJson) ∧
      (after (handleUpload env ctx) server).machine = server.machine ∧
      (after (handleUpload env ctx) server).metaStore = server.metaStore
  printed : ParsesUtf8 env.codec → ∀ ctx : HttpContext, ctx.queryParam (bytes "md5") = md5 →
    (enterUpload server.concurrentUploads).1 = true →
    reply (handleUpload env ctx) server =
      .ok (.success (bytes "Deduplication success") record.toJson)

/-- The check of a stored MD5 is answered with `file exist`. -/
theorem handleCheck_found {ctx : HttpContext} {record : MetaFile}
    (given : ctx.queryParam (bytes "md5") ≠ [])
    (found : server.metaStore.getMeta env.codec (ctx.queryParam (bytes "md5")) = some record) :
    Ends (handleCheck env ctx) server fun result _ =>
      result = .ok (.success (bytes "file exist") (.obj [])) := by
  unfold handleCheck
  dsimp only
  rw [if_neg given]
  apply ends_get
  rw [MetadataStore.exists_, found, Option.isSome_some, if_pos rfl]
  unfold send
  rw [printable_success env.codec (by decide +kernel) rfl, if_neg Bool.false_ne_true]
  exact rfl

/-- An upload that is let in and names a record sends that record. -/
theorem handleUpload_found {ctx : HttpContext} {record : MetaFile}
    (given : ctx.queryParam (bytes "md5") ≠ [])
    (found : server.metaStore.getMeta env.codec (ctx.queryParam (bytes "md5")) = some record)
    (goesOn : (enterUpload server.concurrentUploads).1 = true) :
    Ends (handleUpload env ctx) server fun result final =>
      result = sent env (.success (bytes "Deduplication success") record.toJson) ∧
        final.machine = server.machine ∧ final.metaStore = server.metaStore := by
  unfold handleUpload
  apply ends_get
  dsimp only
  apply ends_modify
  rw [goesOn, Bool.not_true, if_neg Bool.false_ne_true]
  apply ends_get
  dsimp only
  rw [if_neg given, found]
  unfold send sent
  exact Ends.ite (fun unprintable => ⟨by rw [unprintable, if_pos rfl], rfl, rfl⟩)
    fun printable => ⟨by rw [if_neg printable], rfl, rfl⟩

/-- A record that can be read is what the answers are made from. -/
theorem answersFrom_of_getMeta {md5 : Bytes} {record : MetaFile} (given : md5 ≠ [])
    (found : server.metaStore.getMeta env.codec md5 = some record) :
    AnswersFrom env server md5 record where
  found := found
  check := by
    rintro ctx rfl
    exact reply_after_of_ends (handleCheck_found given found)
  upload := by
    rintro ctx rfl goesOn
    exact reply_after_of_ends (handleUpload_found given found goesOn)
  printed := by
    rintro parses ctx rfl goesOn
    have valid := record.isUtf8_toJson (MetadataStore.isUtf8_of_getMeta parses found)
    have printable := printable_success env.codec
      (by decide +kernel : validUtf8 (bytes "Deduplication success") = true) valid
    rw [(reply_after_of_ends (handleUpload_found given found goesOn)).1, sent, printable,
      if_neg Bool.false_ne_true]

/-- **What is stored stays, and so do the answers about it.** After any requests, whatever
of them fails, the record of an MD5 is the one it was before. -/
theorem stored_of_requests (reads : ReadsOnly status) (requests : List HttpRequest) {md5 : Bytes}
    (hex : IsHexMd5 md5) {record : MetaFile}
    (found : server.metaStore.getMeta env.codec md5 = some record) :
    AnswersFrom env (serverRun env sorting status server requests) md5 record := by
  have given : md5 ≠ [] := by
    rintro rfl
    exact absurd hex.1 (by decide)
  refine answersFrom_of_getMeta given ?_
  rw [MetadataStore.getMeta_of_isHexMd5 _ hex, catalog_get, if_pos hex] at found ⊢
  obtain ⟨text, stored, parsed⟩ := Option.bind_eq_some_iff.mp found
  rw [get_of_saves hex stored (storeSaves_serverRun reads server requests), Option.bind_some, parsed]

/-- A status handler: it replies, and that is all. -/
def sampleStatus : HttpContext → Handler Reply :=
  fun _ => return .success [] (.object [(bytes "threads", .num 4)])

theorem readsOnly_sampleStatus : ReadsOnly sampleStatus := fun _ _ => rfl

/-- A request with the form of a context. -/
def formRequest (method : Verb) (target : String) (ctx : HttpContext) : HttpRequest where
  method := method
  target := bytes target
  contentType := ctx.contentType
  body := ctx.body

/-- An upload, a check and a merge. -/
def sampleTraffic : List HttpRequest :=
  [formRequest .post "/upload" (sampleUpload "docs"), { method := .post, target := bytes "/check?md5=5d41" },
   formRequest .post "/merge" (.ofParts [.field (bytes "md5") (bytes "5d41402abc4b2a76b9719d911017c592"),
     .field (bytes "filename") (bytes "a.txt")])]

/-- The server of a store with one record. -/
def storedServer : Server :=
  { sampleServer with metaStore := (sampleServer.metaStore.saveMeta compactCodec sampleMeta true).2 }

/-- The record is there behind an upload, a check and a merge. -/
theorem stored_of_sampleTraffic :
    AnswersFrom sampleEnv
      (serverRun sampleEnv (Router.mergeSorting _) sampleStatus storedServer sampleTraffic)
      sampleMeta.md5 sampleMeta :=
  stored_of_requests readsOnly_sampleStatus sampleTraffic (by decide +kernel) (by decide +kernel)

/-! ## Records and statistics -/

/-- Statistics and scene index of the records. -/
structure ExactStore (codec : JsonCodec) (store : MetadataStore) : Prop
    extends StatExact codec store where
  scene : SceneExact codec store.db

/-- Saves of well-formed records keep statistics and scene index exact, whether they are
written or not. -/
theorem exactStore_of_saves {codec : JsonCodec} {allowed : MetaFile → Prop} {store : MetadataStore}
    (wellFormed : ∀ record, allowed record → record.WellFormed)
    (saves : MetadataStore.Saves codec allowed (.opened OrderedMap.empty) store) :
    ExactStore codec store := by
  have kept := saves.invariant
    (fun store => SceneExact codec store.db ∧ ∀ measure : Measure, measure.shortfall codec store = 0)
    ⟨sceneExact_empty, fun _ => Measure.shortfall_opened_empty⟩ (by
      rintro store _ ⟨scene, zero⟩ ⟨record, written, rfl, permitted⟩
      have sound := wellFormed record permitted
      exact ⟨MetadataStore.sceneExact_saveMeta scene sound written, fun measure =>
        (Measure.shortfall_saveMeta scene.readable sound written).trans (zero measure)⟩)
  exact ⟨.of_shortfall kept.1.readable kept.2, kept.1⟩

/-- **The statistics and the scene index follow the requests.** Whatever fails, every
stored record is readable, the statistics are those of the records, and the scene index
lists them all and nothing else. -/
theorem exact_of_requests (reads : ReadsOnly status)
    (peer : validUtf8 env.metaConfig.peerId = true)
    (fresh : server.metaStore = .opened OrderedMap.empty) {requests : List HttpRequest}
    (sound : ∀ request ∈ requests, SoundRequest sorting request) :
    ExactStore env.codec (serverRun env sorting status server requests).metaStore := by
  have saves := @storeSaves_serverRun env sorting status reads server requests
  unfold StoreSaves at saves
  rw [fresh] at saves
  refine exactStore_of_saves ?_ saves
  rintro record ⟨request, member, brought⟩
  exact (sound request member).wellFormed peer brought

/-- The sample traffic leaves the store exact. -/
theorem exact_of_sampleTraffic :
    ExactStore compactCodec
      (serverRun sampleEnv (Router.mergeSorting _) sampleStatus sampleServer sampleTraffic).metaStore := by
  have sound : ∀ request ∈ sampleTraffic, SoundRequest (Router.mergeSorting _) request := by
    decide +kernel
  have peer : validUtf8 sampleEnv.metaConfig.peerId = true := by decide +kernel
  exact exact_of_requests readsOnly_sampleStatus peer rfl sound

/-! ## The counter of uploads -/

/-- The request is for the handler of uploads. -/
def isUpload (sorting : RouteSort Route) (request : HttpRequest) : Bool :=
  (routed sorting request).any fun found => found.1 = .upload

/-- The counter after some uploads. -/
def countedUploads (uploads : Nat) : Int32 := Int32.ofNat (min uploads 20)

/-- The twentieth upload is the last one let in. -/
theorem enterUpload_countedUploads (uploads : Nat) :
    (enterUpload (countedUploads uploads)).1 = decide (uploads < 20) := by
  unfold countedUploads
  by_cases few : uploads < 20
  · rw [decide_eq_true few, Nat.min_eq_left few.le]
    interval_cases uploads <;> rfl
  · rw [decide_eq_false few, Nat.min_eq_right (Nat.le_of_not_lt few)]
    rfl

/-- An upload that is let in counts one. -/
theorem countedUploads_succ {uploads : Nat} (few : uploads < 20) :
    countedUploads uploads + 1 = countedUploads (uploads + 1) := by
  unfold countedUploads
  interval_cases uploads <;> rfl

/-- The two states have the same counter of uploads. -/
def SameCounter (before after : Server) : Prop := after.concurrentUploads = before.concurrentUploads

instance : Std.Refl SameCounter := ⟨fun _ => rfl⟩

instance : IsTrans Server SameCounter := ⟨fun _ _ _ before after => Eq.trans after before⟩

/-- No handler but that for uploads touches the counter. -/
theorem sameCounter_handle (reads : ReadsOnly status) {route : Route} (other : route ≠ .upload)
    (ctx : HttpContext) (server : Server) :
    SameCounter server (after (handle env status ctx route) server) := by
  have disk (server : Server) (machine : Machine) : SameCounter server { server with machine } := rfl
  cases route with
  | check => exact related_of_preserves preserves_handleCheck server
  | upload => exact absurd rfl other
  | download =>
      exact related_of_preserves (preserves_handleDownload fun _ => preserves_onDisk disk _) server
  | checkChunk =>
      exact related_of_preserves (preserves_handleCheckChunk fun _ => preserves_onDisk disk _) server
  | chunkUpload => exact related_of_preserves (preserves_handleChunkUpload disk) server
  | status => exact congrArg Server.concurrentUploads (reads ctx server)
  | merge =>
      exact related_of_preserves (preserves_handleMerge disk fun _ _ _ _ _ _ => rfl) server

/-- An upload that is turned away changes nothing. -/
theorem handleUpload_busy {ctx : HttpContext}
    (busy : (enterUpload server.concurrentUploads).1 = false) :
    reply (handleUpload env ctx) server =
        .ok (.error (bytes "Server busy, too many uploads") badRequest) ∧
      after (handleUpload env ctx) server = server := by
  have ended : Ends (handleUpload env ctx) server fun result final =>
      result = .ok (.error (bytes "Server busy, too many uploads") badRequest) ∧ final = server := by
    unfold handleUpload
    apply ends_get
    dsimp only
    apply ends_modify
    rw [busy, Bool.not_false, if_pos rfl]
    apply ends_modify
    refine (send_error_ends (by decide +kernel) badRequest).mono ?_
    rintro result final ⟨returned, rfl⟩
    refine ⟨returned, ?_⟩
    have restored : restoreUploads (enterUpload server.concurrentUploads).2 =
        server.concurrentUploads := Int32.add_sub_cancel _ _
    rw [restored]
  exact reply_after_of_ends ended

/-- One more request and its share of the counter. -/
theorem concurrentUploads_serverStep (reads : ReadsOnly status) {uploads : Nat}
    (counted : server.concurrentUploads = countedUploads uploads) (request : HttpRequest) :
    (serverStep env sorting status server request).concurrentUploads =
      countedUploads (uploads + (isUpload sorting request).toNat) := by
  unfold serverStep isUpload
  rcases dispatch_cases env sorting status request with
    ⟨route, ctx, found, handled⟩ | ⟨none, page | ⟨thrown, broken⟩⟩
  · rw [handled, found, Option.any_some]
    by_cases upload : route = .upload
    · subst upload
      have entry := enterUpload_countedUploads uploads
      rw [← counted] at entry
      by_cases few : uploads < 20
      · rw [decide_eq_true few] at entry
        obtain ⟨exit, busy, left⟩ := reply_after_of_ends
          (@handleUpload_concurrentUploads env server ctx)
        have admitted : exit ≠ .busy := fun same => by rw [busy.mp same] at entry; cases entry
        have counter : leaveUpload (enterUpload server.concurrentUploads).2 exit =
            server.concurrentUploads + 1 := by
          cases exit <;> first | rfl | exact absurd rfl admitted
        rw [counter, counted] at left
        exact left.trans (countedUploads_succ few)
      · rw [decide_eq_false few] at entry
        have same := (@handleUpload_busy env server ctx entry).2
        change (after (handleUpload env ctx) server).concurrentUploads = _
        rw [same, counted]
        simp only [countedUploads, decide_true, Bool.toNat_true]
        rw [Nat.min_eq_right (by omega), Nat.min_eq_right (by omega)]
    · rw [decide_eq_false upload]
      exact (sameCounter_handle reads upload ctx server).trans counted
  · rw [page, none]
    exact counted
  · rw [broken, none]
    exact counted

/-- Behind a run the counter has the uploads of the run, up to its bound. -/
theorem concurrentUploads_serverRun (reads : ReadsOnly status) {uploads : Nat}
    (counted : server.concurrentUploads = countedUploads uploads) (requests : List HttpRequest) :
    (serverRun env sorting status server requests).concurrentUploads =
      countedUploads (uploads + requests.countP (isUpload sorting)) := by
  induction requests generalizing server uploads with
  | nil => exact counted
  | cons request requests ih =>
      have first := @concurrentUploads_serverStep env sorting status server reads uploads counted request
      rw [List.countP_cons, Nat.add_comm (requests.countP _), ← Nat.add_assoc]
      have share : (isUpload sorting request).toNat =
          if isUpload sorting request = true then 1 else 0 := by
        cases isUpload sorting request <;> rfl
      rw [← share]
      exact ih first

/-- The request for an upload is answered that the server is busy, and nothing else happens. -/
def TurnedAway (env : Env) (sorting : RouteSort Route) (status : HttpContext → Handler Reply)
    (server : Server) (request : HttpRequest) : Prop :=
  reply (dispatch env sorting status request) server =
      .ok (.error (bytes "Server busy, too many uploads") badRequest) ∧
    serverStep env sorting status server request = server

/-- **Uploads are counted for good.** Requests one after the other, so that never two
uploads are at work together: the counter is the number of uploads so far up to twenty, and
behind the twentieth every upload is turned away, whatever came of the others. -/
theorem uploads_of_requests (reads : ReadsOnly status) (idle : server.concurrentUploads = 0)
    (requests : List HttpRequest) :
    let final := serverRun env sorting status server requests
    let uploads := requests.countP (isUpload sorting)
    final.concurrentUploads.toInt = min uploads 20 ∧
      (20 ≤ uploads → ∀ request, isUpload sorting request = true →
        TurnedAway env sorting status final request) := by
  intro final uploads
  have none : server.concurrentUploads = countedUploads 0 := idle
  have counted : final.concurrentUploads = countedUploads uploads := by
    have counted := @concurrentUploads_serverRun env sorting status server reads 0 none requests
    rwa [Nat.zero_add] at counted
  constructor
  · rw [counted, countedUploads]
    have bounded : min uploads 20 ≤ 20 := Nat.min_le_right _ _
    generalize min uploads 20 = number at bounded
    interval_cases number <;> rfl
  · intro many request upload
    have busy : (enterUpload final.concurrentUploads).1 = false := by
      rw [counted, enterUpload_countedUploads]
      exact decide_eq_false (Nat.not_lt.mpr many)
    unfold TurnedAway serverStep
    rcases dispatch_cases env sorting status request with
      ⟨route, ctx, found, handled⟩ | ⟨unrouted, _⟩
    · rw [isUpload, found, Option.any_some, decide_eq_true_eq] at upload
      subst upload
      rw [handled]
      exact handleUpload_busy busy
    · rw [isUpload, unrouted] at upload
      cases upload

/-- Behind twenty uploads the same upload is turned away. -/
theorem turnedAway_behind_twenty :
    let request := formRequest .post "/upload" (sampleUpload "docs")
    TurnedAway sampleEnv (Router.mergeSorting _) sampleStatus
      (serverRun sampleEnv (Router.mergeSorting _) sampleStatus sampleServer
        (List.replicate 20 request)) request := by
  intro request
  have upload : isUpload (Router.mergeSorting _) request = true := by decide +kernel
  have counted := @uploads_of_requests sampleEnv (Router.mergeSorting _) sampleStatus sampleServer
    readsOnly_sampleStatus rfl (List.replicate 20 request)
  refine counted.2 ?_ request upload
  rw [List.countP_replicate, if_pos upload]

/-! ## Requests that only read -/

/-- The files, the records and the counter are the same. -/
structure SameContents (before after : Server) : Prop where
  disk : after.machine.disk = before.machine.disk
  metaStore : after.metaStore = before.metaStore
  counter : after.concurrentUploads = before.concurrentUploads

instance : Std.Refl SameContents := ⟨fun _ => ⟨rfl, rfl, rfl⟩⟩

instance : IsTrans Server SameContents where
  trans := fun _ _ _ before after => ⟨after.disk.trans before.disk,
    after.metaStore.trans before.metaStore, after.counter.trans before.counter⟩

/-- A file operation that only reads keeps the contents. -/
theorem sameContents_onDisk {α : Type} {op : FsOp α}
    (reads : ∀ machine, Ends op machine fun _ final => final.disk = machine.disk) :
    Preserves SameContents (onDisk op) :=
  fun server => (onDisk_ends (reads server.machine)).mono fun _ _ ended => by
    rw [ended.2]
    exact ⟨ended.1, rfl, rfl⟩

/-- The request is for no handler that writes. -/
def OnlyReads (sorting : RouteSort Route) (request : HttpRequest) : Prop :=
  ∀ route ctx, routed sorting request = some (route, ctx) →
    route ≠ .upload ∧ route ≠ .chunkUpload ∧ route ≠ .merge

/-- A request that only reads keeps the contents. -/
theorem sameContents_serverStep (reads : ReadsOnly status) {request : HttpRequest}
    (only : OnlyReads sorting request) (server : Server) :
    SameContents server (serverStep env sorting status server request) := by
  refine related_serverStep fun route ctx found => ?_
  obtain ⟨upload, chunkUpload, merge⟩ := only route ctx found
  cases route with
  | check => exact related_of_preserves preserves_handleCheck server
  | upload => exact absurd rfl upload
  | download =>
      refine related_of_preserves (preserves_handleDownload fun path => ?_) server
      refine sameContents_onDisk fun machine => (openRead_look_ends path).mono ?_
      intro result final ended
      exact ended.1
  | checkChunk =>
      refine related_of_preserves (preserves_handleCheckChunk fun dir => ?_) server
      exact sameContents_onDisk fun machine =>
        (FileStore.getShardIndex_ends dir).mono fun _ _ ended => ended.1
  | chunkUpload => exact absurd rfl chunkUpload
  | status =>
      have same := reads ctx server
      exact ⟨congrArg (·.machine.disk) same, congrArg Server.metaStore same,
        congrArg Server.concurrentUploads same⟩
  | merge => exact absurd rfl merge

/-- **Requests that only read change nothing.** -/
theorem unchanged_of_requests (reads : ReadsOnly status) {requests : List HttpRequest}
    (only : ∀ request ∈ requests, OnlyReads sorting request) (server : Server) :
    SameContents server (serverRun env sorting status server requests) := by
  induction requests generalizing server with
  | nil => exact Std.Refl.refl server
  | cons request requests ih =>
      have first := @sameContents_serverStep env sorting status reads request
        (only request List.mem_cons_self) server
      exact IsTrans.trans _ _ _ first
        (ih (fun other member => only other (List.mem_cons_of_mem _ member)) _)

end FileCtl

end Cdfs
