import Cdfs.Controller.UploadIndex
import Cdfs.Store.StorableSave

/-! # What a failed upload leaves behind

`handleUpload` stores the file, then checks the cleaned name, then saves the record, and
only then prints the reply. An error in the later steps turns into an error reply, but
what the earlier steps stored stays. `Cdfs.FileCtl.untraced_iff` says exactly for which
requests an error reply means that nothing was stored.
-/

namespace Cdfs

open Basis FsPath

/-- A place strictly below a directory. -/
def Below (root place : List Bytes) : Prop := ∃ name rest, place = root ++ name :: rest

theorem below_concat_iff {root above : List Bytes} {name : Bytes} :
    Below root (above ++ [name]) ↔ root <+: above := by
  constructor
  · rintro ⟨first, rest, same⟩
    obtain ⟨front, last, whole⟩ := (List.eq_nil_or_concat' (first :: rest)).resolve_left nofun
    rw [whole, ← List.append_assoc] at same
    exact ⟨front, (List.append_inj_left' same rfl).symm⟩
  · rintro ⟨between, rfl⟩
    cases between with
    | nil => exact ⟨name, [], by simp⟩
    | cons first rest => exact ⟨first, rest ++ [name], by simp⟩

namespace FileCtl

variable {env : Env} {ctx : HttpContext} {server : Server}

/-- The path at which an upload is stored. -/
def storedPath (env : Env) (ctx : HttpContext) : Bytes :=
  join env.config.rootDir (uploadPath env ctx)

theorem exists_storedPath (env : Env) (ctx : HttpContext) :
    ∃ front, storedPath env ctx =
      front ++ 47 :: (md5Hex env.digest ctx.getForm.content ++ extension ctx.getForm.filename) := by
  obtain ⟨front, path⟩ := exists_uploadPath env ctx
  unfold storedPath join
  split
  · exact ⟨front, path⟩
  · split
    · exact ⟨env.config.rootDir ++ 47 :: front, by rw [path]; simp⟩
    · exact ⟨env.config.rootDir ++ front, by rw [path]; simp⟩

/-- The temporary file stands beside the file. -/
theorem below_tempPath_iff (env : Env) (ctx : HttpContext) (number : Nat) (cwd root : List Bytes) :
    Below root (location cwd (FileStore.tempPath (storedPath env ctx) number)) ↔
      Below root (location cwd (storedPath env ctx)) := by
  by_cases zero : (0 : UInt8) ∈ storedPath env ctx
  · have same : cString (FileStore.tempPath (storedPath env ctx) number) =
        cString (storedPath env ctx) := cString_append_of_mem zero _
    unfold location
    rw [same]
  · obtain ⟨above, target, temporary⟩ := FileStore.exists_location_tempPath zero number cwd
    obtain ⟨front, path⟩ := exists_storedPath env ctx
    let last := md5Hex env.digest ctx.getForm.content ++ extension ctx.getForm.filename
    have noSlash : (47 : UInt8) ∉ last := by
      rw [List.mem_append, not_or]
      exact ⟨(isName_md5Hex ..).2.2.2.1, slash_not_mem_extension _⟩
    have named : filename (storedPath env ctx) = last := by
      rw [path, filename, components_append, components_of_not_mem noSlash]
      exact List.getLastD_concat
    have long : 2 < last.length := by
      rw [List.length_append, length_md5Hex]
      omega
    have valid : IsName last := isName_of_long long noSlash fun inside => by
      rw [path] at zero
      exact zero (List.mem_append_right _ (List.mem_cons_of_mem _ inside))
    rw [target, temporary, named, enter_of_isName valid, below_concat_iff, below_concat_iff]

/-- The regular files below the root directory are the same. -/
def SameFiles (config : StoreConfig) (before after : Disk) : Prop :=
  ∀ place content, Below (location before.cwd config.rootDir) place →
    (after.node place = some (.file content) ↔ before.node place = some (.file content))

theorem sameFiles_of_grown {config : StoreConfig} {before after : Disk}
    (grown : Disk.Grown before after) : SameFiles config before after :=
  fun place content _ => grown.file_iff place content

/-- Storing the upload puts a new file below the root directory: nothing is at its path,
and at the place the path denotes no file of the size of the content. -/
structure NewFile (env : Env) (ctx : HttpContext) (disk : Disk) : Prop where
  below : Below (location disk.cwd env.config.rootDir) (location disk.cwd (storedPath env ctx))
  absent : disk.look (storedPath env ctx) = none
  other : ∀ content, disk.node (location disk.cwd (storedPath env ctx)) = some (.file content) →
    content.length ≠ ctx.getForm.content.length

/-- A successful save leaves the files below the root directory the same unless it stores
a new one. -/
theorem sameFiles_iff {before after : Disk} {path : Bytes}
    (saved : FileStore.Saved ctx.getForm.content (storedPath env ctx) path before (.ok (some path))
      after)
    (evolved : ∃ number, Disk.Evolved (Fs.passed before.cwd (parentPath (storedPath env ctx)))
      (FileStore.touchedFiles before.cwd (storedPath env ctx) number) before after) :
    SameFiles env.config before after ↔ ¬ NewFile env ctx before := by
  cases saved with
  | present _ same there =>
      refine iff_of_true (same ▸ sameFiles_of_grown (.refl _)) fun new => ?_
      rw [new.absent] at there
      cases there
  | deduplicated _ grown there size =>
      exact iff_of_true (sameFiles_of_grown grown) fun new => new.other _ there size
  | failed failed _ => exact absurd rfl (failed path)
  | written _ absent there other =>
      obtain ⟨number, evolved⟩ := evolved
      have stored := Disk.node_location_of_look there
      rw [evolved.keepsDirs.1] at stored
      constructor
      · intro same new
        exact other _ ((same _ _ new.below).mp stored) rfl
      · intro old place content below
        refine evolved.file_iff ?_ content
        rintro (rfl | rfl)
        · exact old ⟨below, absent, other⟩
        · exact old ⟨(below_tempPath_iff ..).mp below, absent, other⟩

/-! ## The request -/

/-- The request reaches `save_file`. -/
@[mk_iff]
structure Admitted (env : Env) (ctx : HttpContext) (server : Server) : Prop where
  goesOn : (enterUpload server.concurrentUploads).1 = true
  unknown : (if ctx.queryParam (bytes "md5") = [] then none
    else server.metaStore.getMeta env.codec (ctx.queryParam (bytes "md5"))) = none
  multipart : ctx.isMultipart = true
  content : ctx.getForm.content ≠ []
  allowed : checkFileExt ctx.getForm.filename env.config.allowExtensions = true

instance (env : Env) (ctx : HttpContext) (server : Server) : Decidable (Admitted env ctx server) :=
  decidable_of_iff _ (admitted_iff env ctx server).symm

/-- `save_file` as the handler calls it. -/
def saveUpload (env : Env) (ctx : HttpContext) : FsOp (Option Bytes) :=
  FileStore.saveFile env.host env.digest env.config ctx.getForm.filename ctx.getForm.content
    (sentScene ctx) (md5Hex env.digest ctx.getForm.content)

/-- `save_file` stores the upload, or finds it stored, when no call fails. -/
def Storable (env : Env) (ctx : HttpContext) (machine : Machine) : Prop :=
  FileStore.Storable env.host machine (storedPath env ctx) ctx.getForm.content

/-- What `save_file` does without faults. -/
theorem saveUpload_reliable (reliable : env.host.Reliable) {machine : Machine} :
    Ends (saveUpload env ctx) machine fun result final =>
      (result = .ok (some (uploadPath env ctx)) ↔ Storable env ctx machine) ∧
      FileStore.Saved ctx.getForm.content (storedPath env ctx) (uploadPath env ctx) machine.disk
        result final.disk ∧
      ∃ number, Disk.Evolved (Fs.passed machine.disk.cwd (parentPath (storedPath env ctx)))
        (FileStore.touchedFiles machine.disk.cwd (storedPath env ctx) number) machine.disk
        final.disk := by
  have some : storedPath env ctx ≠ [] := join_ne_nil env.config.rootDir_ne_nil _
  have placed := relPath_upload env ctx
  unfold Storable
  rw [storedPath, ← join_contentPath] at some ⊢
  refine ((FileStore.saveFile_storable_iff reliable env.digest env.config placed some).and
    ((FileStore.saveFile_reliable reliable env.digest env.config placed some).and
      (FileStore.saveFile_ends reliable.removeFault env.digest env.config placed))).mono ?_
  rintro result final ⟨storable, saved, storing⟩
  exact ⟨storable, saved, storing.evolved⟩

/-- What an upload that reaches `save_file` does without faults. -/
inductive Attempted (env : Env) (ctx : HttpContext) (before : Server) (result : Except Exn Reply)
    (after : Server) : Prop where
  | unsaved (failed : ¬ Storable env ctx before.machine)
      (files : SameFiles env.config before.machine.disk after.machine.disk)
      (metaStore : after.metaStore = before.metaStore)
  | unnamed (storable : Storable env ctx before.machine)
      (files : SameFiles env.config before.machine.disk after.machine.disk ↔
        ¬ NewFile env ctx before.machine.disk)
      (unnamed : sentName env ctx = []) (metaStore : after.metaStore = before.metaStore)
      (replied : ∃ thrown, result = .error (.other thrown) ∧ ∀ byte ∈ thrown, byte ≤ 0x7F)
  | recorded (storable : Storable env ctx before.machine)
      (files : SameFiles env.config before.machine.disk after.machine.disk ↔
        ¬ NewFile env ctx before.machine.disk)
      (named : sentName env ctx ≠ []) (mtime : Int64)
      (metaStore : after.metaStore = (before.metaStore.saveMeta env.codec
        (uploadRecord env ctx (sentName env ctx) mtime) true).2)
      (replied : PrintableUpload env ctx ∧ result = .ok (uploadReply env ctx mtime) ∨
        ¬ PrintableUpload env ctx ∧ result = .error invalidUtf8)

/-- A save that returns no path leaves the files alone. -/
theorem sameFiles_of_unsaved {before after : Disk} {result : Except Exn (Option Bytes)}
    (failed : result ≠ .ok (some (uploadPath env ctx)))
    (saved : FileStore.Saved ctx.getForm.content (storedPath env ctx) (uploadPath env ctx) before
      result after) :
    SameFiles env.config before after ∧ ∀ path, result ≠ .ok (some path) := by
  cases saved with
  | present succeeded _ _ => exact absurd succeeded failed
  | deduplicated succeeded _ _ _ => exact absurd succeeded failed
  | written succeeded _ _ _ => exact absurd succeeded failed
  | failed other grown => exact ⟨sameFiles_of_grown grown, other⟩

/-- The part of `handleUpload` inside its handler of exceptions, without faults. -/
theorem storeUpload_reliable (reliable : env.host.Reliable)
    (writes : ∀ call, env.writes call = true) :
    Ends (storeUpload env ctx.getForm (sentScene ctx) (sentName env ctx)) server
      fun result final => Attempted env ctx server result final := by
  unfold storeUpload
  apply Ends.bind (onDisk_ends (saveUpload_reliable reliable))
  · rintro filePath middle ⟨⟨returned, saved, evolved⟩, rest⟩
    have unsaved : middle.metaStore = server.metaStore := by rw [rest]
    by_cases storable : Storable env ctx server.machine
    · obtain rfl : filePath = some (uploadPath env ctx) := Except.ok.inj (returned.mpr storable)
      have files := sameFiles_iff saved evolved
      refine Ends.ite (fun unnamed => ?_) fun named => ?_
      · exact .unnamed storable files unnamed unsaved ⟨_, rfl, by decide +kernel⟩
      · refine (replyStored_ends ..).mono ?_
        rintro result final ⟨machine, mtime, written, reported, metaStore, replied⟩
        rw [reported writes, unsaved] at metaStore
        rw [← machine] at files
        refine .recorded storable files named mtime metaStore ?_
        rcases replied with ⟨printable, sent⟩ | ⟨unprintable, thrown⟩
        · exact .inl ⟨(printable_uploadReply_iff mtime).mp printable, sent⟩
        · refine .inr ⟨fun printable => ?_, thrown⟩
          have sent := (printable_uploadReply_iff mtime).mpr printable
          rw [show (uploadReply env ctx mtime).unprintable env.codec = true from unprintable] at sent
          cases sent
    · obtain ⟨files, other⟩ := sameFiles_of_unsaved (returned.not.mpr storable) saved
      refine Ends.ite (fun _ => .unsaved storable files unsaved) fun _ => ?_
      cases filePath with
      | none => exact .unsaved storable files unsaved
      | some path => exact absurd rfl (other path)
  · rintro thrown final ⟨⟨returned, saved, evolved⟩, rest⟩
    have storable : ¬ Storable env ctx server.machine := fun storable =>
      nomatch returned.mpr storable
    exact .unsaved storable (sameFiles_of_unsaved (returned.not.mpr storable) saved).1 (by rw [rest])

/-! ## The trace of an upload -/

/-- The reply is an error reply. -/
def IsErrorReply (result : Except Exn Reply) : Prop :=
  ∃ message status, result = .ok (.error message status)

instance (result : Except Exn Reply) : Decidable (IsErrorReply result) :=
  match result with
  | .ok (.error message status) => .isTrue ⟨message, status, rfl⟩
  | .ok (.success _ _) | .ok (.file _ _ _) | .ok .notFound | .error _ => .isFalse nofun

/-- The files below the root directory, the database and the counters are the same. -/
def Untraced (env : Env) (before after : Server) : Prop :=
  SameFiles env.config before.machine.disk after.machine.disk ∧ after.metaStore = before.metaStore

/-- Storing the upload changes the files or the database: the file is new, or there is a
name to record and the MD5 is new. -/
def StoresNew (env : Env) (ctx : HttpContext) (server : Server) : Prop :=
  NewFile env ctx server.machine.disk ∨ sentName env ctx ≠ [] ∧
    server.metaStore.db.get (md5Hex env.digest ctx.getForm.content) = none

/-- The upload fails only after it has stored something: it gets to `save_file` and is
stored there, its name is empty after cleaning or the reply cannot be printed, and what
it stores is new. -/
structure FailsLate (env : Env) (ctx : HttpContext) (server : Server) : Prop where
  admitted : Admitted env ctx server
  storable : Storable env ctx server.machine
  fails : sentName env ctx = [] ∨ ¬ PrintableUpload env ctx
  storesNew : StoresNew env ctx server

theorem saveMeta_eq_iff {codec : JsonCodec} (store : MetadataStore) (record : MetaFile) :
    (store.saveMeta codec record true).2 = store ↔ store.db.get record.md5 ≠ none := by
  cases stored : store.db.get record.md5 with
  | some text => exact iff_of_true (MetadataStore.saveMeta_of_get stored true) (Option.some_ne_none text)
  | none =>
      have absent : store.db.contains record.md5 = false := by
        rw [OrderedMap.contains, stored]
        rfl
      refine iff_of_false (fun same => ?_) (absurd rfl)
      rw [MetadataStore.saveMeta, absent, if_neg Bool.false_ne_true, MetadataStore.commitMeta,
        if_pos rfl] at same
      have counted := congrArg (·.cachedStat.fileCount) same
      simp at counted

/-- An upload that was stored leaves no trace exactly when it stores nothing new. -/
theorem Attempted.untraced_iff_not_storesNew {result : Except Exn Reply} {final : Server}
    (attempted : Attempted env ctx server result final)
    (storable : Storable env ctx server.machine) :
    Untraced env server final ↔ ¬ StoresNew env ctx server := by
  unfold Untraced StoresNew
  cases attempted with
  | unsaved failed _ _ => exact absurd storable failed
  | unnamed _ files unnamed metaStore _ =>
      rw [files, not_or]
      exact and_congr_right fun _ => iff_of_true metaStore fun recorded => recorded.1 unnamed
  | recorded _ files named mtime metaStore _ =>
      rw [files, not_or, metaStore, saveMeta_eq_iff]
      exact and_congr_right fun _ =>
        ⟨fun known recorded => known recorded.2, fun unrecorded fresh => unrecorded ⟨named, fresh⟩⟩

/-- The error reply for an exception of the attempt. -/
theorem caught_untraced_iff {thrown : Exn} {middle : Server}
    (attempted : Attempted env ctx server (.error thrown) middle) :
    Ends (send env (.error thrown.what badRequest)) middle fun result final =>
      (IsErrorReply result → Untraced env server final) ↔
        ¬ (Storable env ctx server.machine ∧ (sentName env ctx = [] ∨ ¬ PrintableUpload env ctx) ∧
          StoresNew env ctx server) := by
  -- an exception after the file is stored has an ASCII message, so the reply is sent
  have late {text : Bytes} (other : thrown = .other text) (ascii : ∀ byte ∈ text, byte ≤ 0x7F)
      (storable : Storable env ctx server.machine)
      (fails : sentName env ctx = [] ∨ ¬ PrintableUpload env ctx) :
      Ends (send env (.error thrown.what badRequest)) middle fun result final =>
        (IsErrorReply result → Untraced env server final) ↔
          ¬ (Storable env ctx server.machine ∧
            (sentName env ctx = [] ∨ ¬ PrintableUpload env ctx) ∧ StoresNew env ctx server) := by
    rw [other]
    refine (send_error_ends ascii _).mono ?_
    rintro result final ⟨rfl, rfl⟩
    have sent : IsErrorReply (.ok (.error text badRequest)) := ⟨_, _, rfl⟩
    rw [imp_iff_right sent, attempted.untraced_iff_not_storesNew storable]
    exact not_congr ⟨fun new => ⟨storable, fails, new⟩, fun all => all.2.2⟩
  cases attempted with
  | unsaved failed files metaStore =>
      refine (send_ends _).mono ?_
      rintro result final ⟨rfl, _⟩
      exact iff_of_true (fun _ => ⟨files, metaStore⟩) fun all => failed all.1
  | unnamed storable _ unnamed _ replied =>
      obtain ⟨text, returned, ascii⟩ := replied
      exact late (Except.error.inj returned) ascii storable (.inl unnamed)
  | recorded storable _ _ _ _ replied =>
      rcases replied with ⟨_, returned⟩ | ⟨unprintable, returned⟩
      · cases returned
      · exact late (Except.error.inj returned) (by decide +kernel) storable (.inr unprintable)

/-- A request that reaches `save_file`. -/
theorem handleUpload_admitted {post : Except Exn Reply → Server → Prop}
    (admitted : Admitted env ctx server)
    (ends : Ends (tryCatch (storeUpload env ctx.getForm (sentScene ctx) (sentName env ctx))
        fun thrown => send env (.error thrown.what badRequest))
      { server with concurrentUploads := (enterUpload server.concurrentUploads).2 } post) :
    Ends (handleUpload env ctx) server post := by
  unfold handleUpload
  apply ends_get
  dsimp only
  apply ends_modify
  rw [admitted.goesOn, Bool.not_true, if_neg Bool.false_ne_true]
  apply ends_get
  dsimp only
  rw [admitted.unknown]
  unfold uploadForm
  dsimp only
  rw [admitted.multipart, Bool.not_true, if_neg Bool.false_ne_true, if_neg admitted.content,
    admitted.allowed, Bool.not_true, if_neg Bool.false_ne_true]
  exact ends

/-- A request that does not reach `save_file` changes no file and no record. -/
theorem handleUpload_refused (refused : ¬ Admitted env ctx server) :
    Ends (handleUpload env ctx) server fun _ final =>
      final.machine = server.machine ∧ final.metaStore = server.metaStore := by
  have sending {answer : Reply} {middle : Server} (machine : middle.machine = server.machine)
      (metaStore : middle.metaStore = server.metaStore) : Ends (send env answer) middle
        fun _ final => final.machine = server.machine ∧ final.metaStore = server.metaStore :=
    (send_ends answer).mono fun _ _ sent => sent.1 ▸ ⟨machine, metaStore⟩
  unfold handleUpload
  apply ends_get
  dsimp only
  apply ends_modify
  refine Ends.ite (fun _ => ?_) fun goesOn => ?_
  · apply ends_modify
    exact sending rfl rfl
  · apply ends_get
    split
    · exact sending rfl rfl
    · rename_i unknown
      unfold uploadForm
      refine Ends.ite (fun _ => sending rfl rfl) fun multipart => ?_
      refine Ends.ite (fun _ => sending rfl rfl) fun content => ?_
      refine Ends.ite (fun _ => sending rfl rfl) fun allowed => ?_
      refine absurd ⟨?_, unknown, ?_, content, ?_⟩ refused
      · simpa using goesOn
      · simpa using multipart
      · simpa using allowed

/-- An error reply means that nothing was stored, unless the upload fails late. -/
theorem untraced_iff (reliable : env.host.Reliable) (writes : ∀ call, env.writes call = true)
    (ctx : HttpContext) (server : Server) :
    (IsErrorReply (reply (handleUpload env ctx) server) →
      Untraced env server (uploadStep env server ctx)) ↔ ¬ FailsLate env ctx server := by
  by_cases admitted : Admitted env ctx server
  · have attempt : Ends (handleUpload env ctx) server fun result final =>
        (IsErrorReply result → Untraced env server final) ↔
          ¬ (Storable env ctx server.machine ∧
            (sentName env ctx = [] ∨ ¬ PrintableUpload env ctx) ∧ StoresNew env ctx server) := by
      apply handleUpload_admitted admitted
      apply Ends.tryCatch (storeUpload_reliable reliable writes)
      · intro value final attempted
        cases attempted with
        | unsaved failed files metaStore =>
            exact iff_of_true (fun _ => ⟨files, metaStore⟩) fun all => failed all.1
        | unnamed _ _ _ _ replied =>
            obtain ⟨_, returned, _⟩ := replied
            cases returned
        | recorded _ _ named _ _ replied =>
            rcases replied with ⟨printable, returned⟩ | ⟨_, returned⟩
            · cases returned
              refine iff_of_true nofun fun all => ?_
              rcases all.2.1 with unnamed | unprintable
              · exact named unnamed
              · exact unprintable printable
            · cases returned
      · intro thrown middle attempted
        have caught := caught_untraced_iff attempted
        exact caught
    refine (reply_after_of_ends attempt).trans (not_congr ?_)
    exact ⟨fun late => ⟨admitted, late.1, late.2.1, late.2.2⟩,
      fun late => ⟨late.storable, late.fails, late.storesNew⟩⟩
  · obtain ⟨machine, metaStore⟩ := reply_after_of_ends (handleUpload_refused admitted)
    refine iff_of_true (fun _ => ⟨?_, metaStore⟩) fun late => admitted late.admitted
    rw [uploadStep, machine]
    exact sameFiles_of_grown (.refl _)

/-- A server with a file where the directory of the scene `docs` would be. -/
def obstructedServer : Server :=
  { sampleServer with machine := { disk := { sampleDisk with
      tree := sampleDisk.tree.put [bytes "srv", bytes "data", bytes "store", bytes "docs"]
        (.file (bytes "notes")) } } }

/-- The upload gets to `save_file` and cannot be stored there. -/
theorem untraced_obstructedServer :
    Admitted sampleEnv (sampleUpload "docs") obstructedServer ∧
      IsErrorReply (reply (handleUpload sampleEnv (sampleUpload "docs")) obstructedServer) ∧
      Untraced sampleEnv obstructedServer
        (uploadStep sampleEnv obstructedServer (sampleUpload "docs")) := by
  obtain ⟨admitted, failed, absent, stuck⟩ :
      Admitted sampleEnv (sampleUpload "docs") obstructedServer ∧
      IsErrorReply (reply (handleUpload sampleEnv (sampleUpload "docs")) obstructedServer) ∧
      obstructedServer.machine.disk.look (storedPath sampleEnv (sampleUpload "docs")) = none ∧
      obstructedServer.machine.disk.created
        (parentPath (storedPath sampleEnv (sampleUpload "docs"))) = none := by
    decide +kernel
  refine ⟨admitted, failed, (@untraced_iff sampleEnv calmHost_reliable (fun _ => rfl)
    (sampleUpload "docs") obstructedServer).mpr (fun late => ?_) failed⟩
  rcases late.storable with present | ⟨tree, created, _⟩
  · exact present absent
  · rw [stuck] at created
    cases created

/-- An upload of `hello` under a name that starts with a byte that is not UTF-8. -/
def garbledUpload : HttpContext :=
  .ofParts [.field (bytes "scene") (bytes "docs"),
    .file (bytes "file") (0xFF :: bytes ".txt") (bytes "text/plain") (bytes "hello")]

/-- The upload is answered with an error, and counted as a stored file. -/
theorem traced_garbledUpload :
    IsErrorReply (reply (handleUpload sampleEnv garbledUpload) sampleServer) ∧
      ¬ Untraced sampleEnv sampleServer (uploadStep sampleEnv sampleServer garbledUpload) := by
  obtain ⟨failed, counted⟩ : IsErrorReply (reply (handleUpload sampleEnv garbledUpload) sampleServer) ∧
      (uploadStep sampleEnv sampleServer garbledUpload).metaStore.cachedStat.fileCount ≠
        sampleServer.metaStore.cachedStat.fileCount := by
    decide +kernel
  exact ⟨failed, fun untraced => counted (by rw [untraced.2])⟩

end FileCtl

end Cdfs
