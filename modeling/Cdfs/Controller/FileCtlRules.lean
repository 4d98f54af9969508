import Cdfs.Basis.JsonText
import Cdfs.Controller.FileCtl
import Cdfs.Store.WriteDisk

/-! # What the handlers do

Postconditions of the steps of the handlers, and for each handler that writes files what
it does to the tree, to the metadata and to the counter of uploads.
-/

namespace Cdfs

open Basis FsPath

namespace FileCtl

variable {env : Env} {server : Server}

/-- Work on the file system changes nothing else. -/
theorem onDisk_ends {α : Type} {op : FsOp α} {post : Except Exn α → Machine → Prop}
    (ends : Ends op server.machine post) :
    Ends (onDisk op) server fun result final =>
      post result final.machine ∧ final = { server with machine := final.machine } := by
  unfold Ends at ends ⊢
  cases ended : op.run server.machine with
  | ok value machine =>
      have ran : (onDisk op).run server = .ok value { server with machine } := by
        unfold onDisk EStateM.run
        dsimp only
        rw [show op server.machine = .ok value machine from ended]
      rw [ended] at ends
      rw [ran]
      exact ⟨ends, rfl⟩
  | error thrown machine =>
      have ran : (onDisk op).run server = .error thrown { server with machine } := by
        unfold onDisk EStateM.run
        dsimp only
        rw [show op server.machine = .error thrown machine from ended]
      rw [ended] at ends
      rw [ran]
      exact ⟨ends, rfl⟩

section Sequence

variable {β : Type} {post : Except Exn β → Server → Prop}

theorem ends_get {next : Server → Handler β} (rest : Ends (next server) server post) :
    Ends (get >>= next) server post := rest

theorem ends_modify {change : Server → Server} {next : PUnit → Handler β}
    (rest : Ends (next ⟨⟩) (change server) post) : Ends (modify change >>= next) server post := rest

theorem ends_now {next : Int64 → Handler β}
    (rest : Ends (next (env.time server.machine.calls)) server post) :
    Ends (now env >>= next) server post := rest

/-- A save writes or not, as the environment says for the call. -/
theorem ends_saveMeta {record : MetaFile} {next : Bool → Handler β}
    (rest : Ends (next (server.metaStore.saveMeta env.codec record
        (env.writes server.machine.calls)).1)
      { server with metaStore := (server.metaStore.saveMeta env.codec record
        (env.writes server.machine.calls)).2 } post) :
    Ends (saveMeta env record >>= next) server post := rest

end Sequence

/-- A reply is sent if it can be printed. -/
theorem send_printed_ends (reply : Reply) :
    Ends (send env reply) server fun result final => final = server ∧
      (reply.unprintable env.codec = false ∧ result = .ok reply ∨
        reply.unprintable env.codec = true ∧ result = .error invalidUtf8) := by
  unfold send
  exact Ends.ite (fun unprintable => ⟨rfl, .inr ⟨unprintable, rfl⟩⟩) fun printable =>
    ⟨rfl, .inl ⟨Bool.eq_false_iff.mpr printable, rfl⟩⟩

/-- A reply is sent, or it cannot be printed; the state stays. -/
theorem send_ends (reply : Reply) :
    Ends (send env reply) server fun result final => final = server ∧
      (result = .ok reply ∨ result = .error invalidUtf8) := by
  refine (send_printed_ends reply).mono ?_
  rintro result final ⟨same, ⟨_, sent⟩ | ⟨_, thrown⟩⟩
  · exact ⟨same, .inl sent⟩
  · exact ⟨same, .inr thrown⟩

/-- An error reply is printed if its message is UTF-8. -/
theorem printable_error (codec : JsonCodec) {message : Bytes} (utf8 : validUtf8 message = true)
    (status : Nat) : Reply.unprintable codec (.error message status) = false := by
  have json : (Json.object [(bytes "status", .str (bytes "fail")), (bytes "message", .str message),
      (bytes "data", .null)]).isUtf8 = true := by
    apply Json.isUtf8_object
    simp only [List.mem_cons, List.not_mem_nil, or_false, forall_eq_or_imp, forall_eq, Json.isUtf8]
    exact ⟨⟨by decide +kernel, by decide +kernel⟩, ⟨by decide +kernel, utf8⟩, by decide +kernel,
      trivial⟩
  rw [Reply.unprintable, Reply.json, Option.any_some, ← Option.not_isSome, codec.dump_isSome, json]
  rfl

/-- A success is printed if its message and its data are UTF-8. -/
theorem printable_success (codec : JsonCodec) {message : Bytes} (utf8 : validUtf8 message = true)
    {data : Json} (valid : data.isUtf8 = true) :
    (Reply.success message data).unprintable codec = false := by
  have json : (Json.object [(bytes "status", .str (bytes "ok")), (bytes "message", .str message),
      (bytes "data", data)]).isUtf8 = true := by
    apply Json.isUtf8_object
    simp only [List.mem_cons, List.not_mem_nil, or_false, forall_eq_or_imp, forall_eq, Json.isUtf8]
    exact ⟨⟨by decide +kernel, by decide +kernel⟩, ⟨by decide +kernel, utf8⟩, by decide +kernel, valid⟩
  rw [Reply.unprintable, Reply.json, Option.any_some, ← Option.not_isSome, codec.dump_isSome, json]
  rfl

/-- A reply made of ASCII text is sent. -/
theorem send_error_ends {message : Bytes} (ascii : ∀ byte ∈ message, byte ≤ 0x7F) (status : Nat) :
    Ends (send env (.error message status)) server fun result final =>
      result = .ok (.error message status) ∧ final = server := by
  unfold send
  rw [printable_error env.codec (validUtf8_of_ascii ascii), if_neg Bool.false_ne_true]
  exact ⟨rfl, rfl⟩

/-- The reply of a handler, or the exception it lets through. -/
def reply (handler : Handler Reply) (server : Server) : Except Exn Reply :=
  match handler.run server with
  | .ok reply _ => .ok reply
  | .error thrown _ => .error thrown

/-- The state in which a handler ends. -/
def after (handler : Handler Reply) (server : Server) : Server :=
  match handler.run server with
  | .ok _ final => final
  | .error _ final => final

/-- What holds however a handler ends holds of its reply and the state behind it. -/
theorem reply_after_of_ends {handler : Handler Reply} {post : Except Exn Reply → Server → Prop}
    (ends : Ends handler server post) : post (reply handler server) (after handler server) := by
  unfold Ends at ends
  unfold reply after
  cases ended : handler.run server with
  | ok reply final =>
      rw [ended] at ends
      exact ends
  | error thrown final =>
      rw [ended] at ends
      exact ends

/-! ## A server to run the handlers on -/

/-- A file system on which no call fails. -/
def calmHost : Host where
  fault := fun _ => .none
  removeFault := fun _ => false
  removedFirst := fun _ _ => false
  random := fun _ => 0
  order := fun _ names => names
  order_perm := fun _ _ => .rfl

theorem calmHost_reliable : calmHost.Reliable := ⟨fun _ => rfl, fun _ => rfl⟩

/-- The MD5 of `hello` and `other`; of other contents only the length is right. -/
def sampleDigest (data : Bytes) : Digest :=
  if data = bytes "hello" then ⟨[0x5d, 0x41, 0x40, 0x2a, 0xbc, 0x4b, 0x2a, 0x76, 0xb9, 0x71, 0x9d,
    0x91, 0x10, 0x17, 0xc5, 0x92], rfl⟩
  else if data = bytes "other" then ⟨[0x79, 0x5f, 0x32, 0x02, 0xb1, 0x7c, 0xb6, 0xbc, 0x3d, 0x4b,
    0x77, 0x1d, 0x8c, 0x6c, 0x9e, 0xaf], rfl⟩
  else ⟨List.replicate 16 0, rfl⟩

/-- The default settings on such a file system. -/
def sampleEnv : Env where
  host := calmHost
  digest := sampleDigest
  codec := compactCodec
  time := fun _ => 1680000000
  writes := fun _ => true

theorem sampleEnv_sound : FileStore.RemovesSoundly sampleEnv.host := calmHost_reliable.removeFault

/-- A tree with the directories of the path `./data/store` below `/srv`. -/
def sampleDisk : Disk where
  cwd := [bytes "srv"]
  tree := (((OrderedMap.empty.put [] .dir).put [bytes "srv"] .dir).put [bytes "srv", bytes "data"]
    .dir).put [bytes "srv", bytes "data", bytes "store"] .dir

/-- A server that has just been started. -/
def sampleServer : Server where
  machine := { disk := sampleDisk }
  metaStore := .opened OrderedMap.empty

/-! ## Uploading a file -/

/-- The scene of an upload. -/
def sentScene (ctx : HttpContext) : Bytes := ctx.getForm.getParam (bytes "scene") (bytes "default")

/-- The path of a file below the directory of its scene. -/
def contentPath (digest : Bytes → Digest) (filename content : Bytes) : Bytes :=
  (md5Hex digest content).take 2 ++ 47 :: (((md5Hex digest content).drop 2).take 2 ++
    47 :: (md5Hex digest content ++ extension filename))

/-- The path below the root directory at which an upload is stored. -/
def uploadPath (env : Env) (ctx : HttpContext) : Bytes :=
  join (sentScene ctx) (contentPath env.digest ctx.getForm.filename ctx.getForm.content)

/-- An MD5 is long enough for its directories, so that every upload has a path. -/
theorem relPath_md5Hex (digest : Bytes → Digest) (filename content : Bytes) :
    FileStore.relPath filename (md5Hex digest content) = .ok (contentPath digest filename content) := by
  have long : 4 ≤ (md5Hex digest content).length := by
    rw [length_md5Hex]
    decide
  rw [FileStore.relPath, md5ToRelPath_of_plain long (isName_md5Hex digest content).2.2.2.1]
  simp only [Except.map, contentPath, List.append_assoc, List.cons_append]

/-- The path starts with two digits of the MD5. -/
theorem isAbsolute_contentPath (digest : Bytes → Digest) (filename content : Bytes) :
    isAbsolute (contentPath digest filename content) = false := by
  have some : (md5Hex digest content).take 2 ≠ [] := by
    rw [← List.length_pos_iff, List.length_take, length_md5Hex]
    decide
  rw [contentPath, isAbsolute_append some]
  exact isAbsolute_of_not_mem fun slash =>
    (isName_md5Hex digest content).2.2.2.1 (List.mem_of_mem_take slash)

/-- The path that `save_file` computes for an upload. -/
theorem relPath_upload (env : Env) (ctx : HttpContext) :
    FileStore.relPath ctx.getForm.filename
      (if (md5Hex env.digest ctx.getForm.content).isEmpty then md5Hex env.digest ctx.getForm.content
        else md5Hex env.digest ctx.getForm.content) =
      .ok (contentPath env.digest ctx.getForm.filename ctx.getForm.content) := by
  rw [ite_self, relPath_md5Hex]

/-- Scene and path of the content make up the path of the upload. -/
theorem join_contentPath (env : Env) (ctx : HttpContext) :
    join (join env.config.rootDir (sentScene ctx))
      (contentPath env.digest ctx.getForm.filename ctx.getForm.content) =
      join env.config.rootDir (uploadPath env ctx) :=
  (join_assoc _ _ (isAbsolute_contentPath ..)).symm

/-- The record of an upload. -/
def uploadRecord (env : Env) (ctx : HttpContext) (name : Bytes) (mtime : Int64) : MetaFile where
  md5 := md5Hex env.digest ctx.getForm.content
  path := uploadPath env ctx
  name := name
  scene := sentScene ctx
  size := Int64.ofNat ctx.getForm.content.length
  mtime := mtime
  peers := [env.metaConfig.peerId]

/-- The reply acknowledges an upload. -/
def Acknowledges (result : Except Exn Reply) (data : Json) : Prop :=
  result = .ok (.success (bytes "Upload success") data)

/-- The message of a success. -/
def successMessage : Except Exn Reply → Option Bytes
  | .ok (.success message _) => some message
  | _ => none

/-- A reply with the message of an upload acknowledges one. -/
theorem exists_acknowledges {result : Except Exn Reply}
    (message : successMessage result = some (bytes "Upload success")) :
    ∃ data, Acknowledges result data := by
  unfold successMessage at message
  split at message
  · cases message
    exact ⟨_, rfl⟩
  · cases message

/-- A field of the reply for a stored file. -/
theorem at?_fileData {record : MetaFile} {name : Bytes} {value : Json} (member : (name, value) ∈
    [(bytes "url", .str (env.metaConfig.domain ++ (bytes "/" ++ record.path))),
     (bytes "path", .str record.path), (bytes "md5", .str record.md5),
     (bytes "scene", .str record.scene), (bytes "size", .num record.size.toInt),
     (bytes "mtime", .num record.mtime.toInt), (bytes "name", .str record.name)]) :
    (fileData env record).at? name = some value := by
  have distinct : [bytes "url", bytes "path", bytes "md5", bytes "scene", bytes "size",
      bytes "mtime", bytes "name"].Nodup := by decide +kernel
  refine Json.at?_object_of_mem ?_ member
  exact distinct

/-- The name under which an upload is recorded. -/
def sentName (env : Env) (ctx : HttpContext) : Bytes :=
  if env.metaConfig.enableTrimFilename then trimFilenameSpecialChar ctx.getForm.filename
  else ctx.getForm.filename

/-- The reply for an upload stored at this time. -/
def uploadReply (env : Env) (ctx : HttpContext) (mtime : Int64) : Reply :=
  .success (bytes "Upload success") (fileData env (uploadRecord env ctx (sentName env ctx) mtime))

/-- The strings of the reply for an upload are UTF-8. -/
def PrintableUpload (env : Env) (ctx : HttpContext) : Prop :=
  validUtf8 (env.metaConfig.domain ++ (bytes "/" ++ uploadPath env ctx)) = true ∧
    validUtf8 (uploadPath env ctx) = true ∧ validUtf8 (sentScene ctx) = true ∧
    validUtf8 (sentName env ctx) = true

instance (env : Env) (ctx : HttpContext) : Decidable (PrintableUpload env ctx) :=
  inferInstanceAs (Decidable (_ ∧ _ ∧ _ ∧ _))

/-- Hexadecimal digits are UTF-8. -/
theorem validUtf8_of_hex {text : Bytes} (hex : ∀ byte ∈ text, isHexDigit byte = true) :
    validUtf8 text = true := by
  have ascii : ∀ byte : UInt8, isHexDigit byte = true → byte ≤ 0x7F :=
    forall_byte (by decide +kernel)
  exact validUtf8_of_ascii fun byte member => ascii byte (hex byte member)

theorem validUtf8_md5Hex (digest : Bytes → Digest) (data : Bytes) :
    validUtf8 (md5Hex digest data) = true :=
  validUtf8_of_hex fun _ => isHexDigit_of_mem_md5Hex

/-- The strings of the reply for a stored file are UTF-8. -/
def PrintableFile (env : Env) (record : MetaFile) : Prop :=
  validUtf8 (env.metaConfig.domain ++ (bytes "/" ++ record.path)) = true ∧
    validUtf8 record.path = true ∧ validUtf8 record.md5 = true ∧ validUtf8 record.scene = true ∧
    validUtf8 record.name = true

instance (env : Env) (record : MetaFile) : Decidable (PrintableFile env record) :=
  inferInstanceAs (Decidable (_ ∧ _ ∧ _ ∧ _ ∧ _))

/-- The reply for a stored file is printed if its strings are UTF-8. -/
theorem printable_fileData_iff {message : Bytes} (utf8 : validUtf8 message = true)
    (record : MetaFile) :
    (Reply.success message (fileData env record)).unprintable env.codec = false ↔
      PrintableFile env record := by
  have printed : (Reply.success message (fileData env record)).unprintable env.codec = false ↔
      (Json.object [(bytes "status", .str (bytes "ok")), (bytes "message", .str message),
        (bytes "data", fileData env record)]).isUtf8 = true := by
    rw [← env.codec.dump_isSome, ← Option.not_isNone]
    simp [Reply.unprintable, Reply.json]
  rw [printed]
  constructor
  · intro valid
    have distinct : [bytes "status", bytes "message", bytes "data"].Nodup := by decide +kernel
    have inside : (Json.object [(bytes "status", .str (bytes "ok")), (bytes "message", .str message),
        (bytes "data", fileData env record)]).at? (bytes "data") = some (fileData env record) := by
      refine Json.at?_object_of_mem ?_ (by simp)
      exact distinct
    have data : (fileData env record).isUtf8 = true := Json.isUtf8_of_at? valid inside
    have field {name value : Bytes} (found : (fileData env record).at? name = some (.str value)) :
        validUtf8 value = true := Json.isUtf8_of_at? data found
    have url : (fileData env record).at? (bytes "url") =
        some (.str (env.metaConfig.domain ++ (bytes "/" ++ record.path))) := at?_fileData (by simp)
    have path : (fileData env record).at? (bytes "path") = some (.str record.path) :=
      at?_fileData (by simp)
    have md5 : (fileData env record).at? (bytes "md5") = some (.str record.md5) :=
      at?_fileData (by simp)
    have scene : (fileData env record).at? (bytes "scene") = some (.str record.scene) :=
      at?_fileData (by simp)
    have name : (fileData env record).at? (bytes "name") = some (.str record.name) :=
      at?_fileData (by simp)
    exact ⟨field url, field path, field md5, field scene, field name⟩
  · rintro ⟨url, path, md5, scene, name⟩
    apply Json.isUtf8_object
    simp only [List.mem_cons, List.not_mem_nil, or_false, forall_eq_or_imp, forall_eq, Json.isUtf8]
    refine ⟨⟨by decide +kernel, by decide +kernel⟩, ⟨by decide +kernel, utf8⟩,
      by decide +kernel, ?_⟩
    apply Json.isUtf8_object
    simp only [List.mem_cons, List.not_mem_nil, or_false, forall_eq_or_imp, forall_eq, Json.isUtf8]
    exact ⟨⟨by decide +kernel, url⟩, ⟨by decide +kernel, path⟩, ⟨by decide +kernel, md5⟩,
      ⟨by decide +kernel, scene⟩, ⟨by decide +kernel, trivial⟩, ⟨by decide +kernel, trivial⟩,
      by decide +kernel, name⟩

/-- The reply for an upload is printed if its strings are UTF-8. -/
theorem printable_uploadReply_iff {ctx : HttpContext} (mtime : Int64) :
    (uploadReply env ctx mtime).unprintable env.codec = false ↔ PrintableUpload env ctx := by
  refine (printable_fileData_iff (by decide +kernel) _).trans ?_
  constructor
  · rintro ⟨url, path, _, scene, name⟩
    exact ⟨url, path, scene, name⟩
  · rintro ⟨url, path, scene, name⟩
    exact ⟨url, path, validUtf8_md5Hex .., scene, name⟩

/-- What an upload does: nothing to files and records, or it stores the file and then, on
success, the record. Without a name it stops in between. -/
inductive Uploaded (env : Env) (ctx : HttpContext) (before : Server) (result : Except Exn Reply)
    (after : Server) : Prop where
  | refused (disk : after.machine.disk = before.machine.disk)
      (metaStore : after.metaStore = before.metaStore) (silent : ∀ data, ¬ Acknowledges result data)
  | failed (allowed : checkFileExt ctx.getForm.filename env.config.allowExtensions = true)
      (stored : Except Exn (Option Bytes))
      (storing : FileStore.Storing ctx.getForm.content (join env.config.rootDir (uploadPath env ctx))
        (uploadPath env ctx) before.machine.disk stored after.machine.disk)
      (reason : sentName env ctx = [] ∨ ∀ path, stored ≠ .ok (some path))
      (metaStore : after.metaStore = before.metaStore) (silent : ∀ data, ¬ Acknowledges result data)
  | stored (allowed : checkFileExt ctx.getForm.filename env.config.allowExtensions = true)
      (storing : FileStore.Storing ctx.getForm.content (join env.config.rootDir (uploadPath env ctx))
        (uploadPath env ctx) before.machine.disk (.ok (some (uploadPath env ctx))) after.machine.disk)
      (named : sentName env ctx ≠ []) (mtime : Int64) (written : Bool)
      (reported : (∀ call, env.writes call = true) → written = true)
      (metaStore : after.metaStore = (before.metaStore.saveMeta env.codec
        (uploadRecord env ctx (sentName env ctx) mtime) written).2)
      (acknowledged : ∀ data, Acknowledges result data ↔
        data = fileData env (uploadRecord env ctx (sentName env ctx) mtime) ∧
        (uploadReply env ctx mtime).unprintable env.codec = false)

/-- Saving the record and replying. -/
theorem replyStored_ends (message name scene md5 path : Bytes) (size : Nat) :
    Ends (replyStored env message name scene md5 path size) server fun result final =>
      final.machine = server.machine ∧ ∃ mtime written, let record : MetaFile :=
          { md5, path, name, scene, size := Int64.ofNat size, mtime, peers := [env.metaConfig.peerId] }
        ((∀ call, env.writes call = true) → written = true) ∧
        final.metaStore = (server.metaStore.saveMeta env.codec record written).2 ∧
        let reply : Reply := .success message (fileData env record)
        (reply.unprintable env.codec = false ∧ result = .ok reply ∨
          reply.unprintable env.codec = true ∧ result = .error invalidUtf8) := by
  unfold replyStored
  apply ends_now
  apply ends_saveMeta
  refine (send_printed_ends _).mono ?_
  rintro result final ⟨rfl, sent⟩
  exact ⟨rfl, env.time server.machine.calls, env.writes server.machine.calls,
    fun writes => writes _, rfl, sent⟩

/-- What the part inside the handler of exceptions does. -/
theorem storeUpload_ends (sound : FileStore.RemovesSoundly env.host) {ctx : HttpContext}
    (allowed : checkFileExt ctx.getForm.filename env.config.allowExtensions = true) :
    Ends (storeUpload env ctx.getForm (sentScene ctx) (sentName env ctx)) server
      fun result final => Uploaded env ctx server result final := by
  unfold storeUpload
  apply Ends.bind (onDisk_ends (FileStore.saveFile_ends sound env.digest env.config
    (relPath_upload env ctx)))
  · rintro filePath middle ⟨storing, rest⟩
    rw [join_contentPath] at storing
    have unsaved : middle.metaStore = server.metaStore := by rw [rest]
    refine Ends.ite (fun unnamed => .failed allowed _ storing (.inl unnamed) unsaved nofun)
      fun named => ?_
    cases filePath with
    | none => exact .failed allowed _ storing (.inr nofun) unsaved nofun
    | some path =>
        have here := (storing.found path rfl).1
        rw [here] at storing
        refine (replyStored_ends ..).mono ?_
        rintro result final ⟨machine, mtime, written, reported, saved, replied⟩
        rw [here, unsaved] at saved
        rw [here] at replied
        refine .stored allowed (machine ▸ storing) named mtime written reported saved ?_
        intro data
        unfold Acknowledges
        rcases replied with ⟨printable, rfl⟩ | ⟨unprintable, rfl⟩
        · constructor
          · intro sent
            obtain ⟨_, rfl⟩ := Reply.success.inj (Except.ok.inj sent)
            exact ⟨rfl, printable⟩
          · rintro ⟨rfl, _⟩
            rfl
        · refine iff_of_false nofun ?_
          rintro ⟨_, printable⟩
          rw [show (uploadReply env ctx mtime).unprintable env.codec = true from unprintable]
            at printable
          cases printable
  · rintro thrown final ⟨storing, rest⟩
    rw [join_contentPath] at storing
    exact .failed allowed _ storing (.inr nofun) (by rw [rest]) nofun

/-- Any other reply acknowledges nothing, also when it cannot be printed. -/
theorem not_acknowledges_of_error {reply : Reply} {result : Except Exn Reply}
    (sent : result = .ok reply ∨ result = .error invalidUtf8)
    (other : ∀ data, reply ≠ .success (bytes "Upload success") data) (data : Json) :
    ¬ Acknowledges result data := by
  rintro rfl
  rcases sent with sent | thrown
  · exact other data (Except.ok.inj sent).symm
  · cases thrown

/-- Such a reply leaves nothing to be acknowledged. -/
theorem send_refused {reply : Reply} {middle : Server} {ctx : HttpContext}
    (disk : middle.machine.disk = server.machine.disk)
    (metaStore : middle.metaStore = server.metaStore)
    (other : ∀ data, reply ≠ .success (bytes "Upload success") data) :
    Ends (send env reply) middle fun result final => Uploaded env ctx server result final := by
  refine (send_ends reply).mono ?_
  rintro result final ⟨rfl, sent⟩
  exact .refused disk metaStore (not_acknowledges_of_error sent other)

/-- An upload that is acknowledged has stored its file and offered its record. -/
theorem uploadForm_ends (sound : FileStore.RemovesSoundly env.host) (ctx : HttpContext) :
    Ends (uploadForm env ctx) server fun result final => Uploaded env ctx server result final := by
  unfold uploadForm
  refine Ends.ite (fun _ => send_refused rfl rfl nofun) fun _ => ?_
  refine Ends.ite (fun _ => send_refused rfl rfl nofun) fun _ => ?_
  refine Ends.ite (fun _ => send_refused rfl rfl nofun) fun refused => ?_
  have allowed : checkFileExt ctx.getForm.filename env.config.allowExtensions = true := by
    simpa only [Bool.not_eq_true', Bool.not_eq_false] using refused
  apply Ends.tryCatch (storeUpload_ends sound allowed)
  · exact fun _ _ uploaded => uploaded
  · rintro thrown middle uploaded
    refine (send_ends _).mono ?_
    rintro result final ⟨rfl, sent⟩
    have silent := not_acknowledges_of_error sent nofun
    cases uploaded with
    | refused disk metaStore _ => exact .refused disk metaStore silent
    | failed allowed stored storing reason metaStore _ =>
        exact .failed allowed stored storing reason metaStore silent
    | stored allowed storing named mtime written reported metaStore acknowledged =>
        refine .stored allowed storing named mtime written reported metaStore fun data => ?_
        have thrown := acknowledged data
        exact iff_of_false (silent data) fun both => nomatch thrown.mpr both

/-- What an upload does. -/
theorem handleUpload_ends (sound : FileStore.RemovesSoundly env.host) (ctx : HttpContext) :
    Ends (handleUpload env ctx) server fun result final => Uploaded env ctx server result final := by
  unfold handleUpload
  apply ends_get
  dsimp only
  apply ends_modify
  refine Ends.ite (fun _ => ?_) fun _ => ?_
  · apply ends_modify
    exact send_refused rfl rfl nofun
  · apply ends_get
    split
    · refine send_refused rfl rfl fun data same => ?_
      have message := (Reply.success.inj same).1
      exact absurd message (by decide)
    · refine (uploadForm_ends sound ctx).mono fun result final uploaded => ?_
      cases uploaded with
      | refused disk metaStore silent => exact .refused disk metaStore silent
      | failed allowed stored storing reason metaStore silent =>
          exact .failed allowed stored storing reason metaStore silent
      | stored allowed storing named mtime written reported metaStore acknowledged =>
          exact .stored allowed storing named mtime written reported metaStore acknowledged

/-- The handler leaves the counter of uploads alone. -/
def KeepsCounter (handler : Handler Reply) : Prop :=
  ∀ server, Ends handler server fun _ final => final.concurrentUploads = server.concurrentUploads

/-- Sending a reply leaves the counter alone. -/
theorem keepsCounter_send (reply : Reply) : KeepsCounter (send env reply) := fun server =>
  (send_ends reply).mono fun _ _ sent => by rw [sent.1]

/-- Only entering and leaving the handler change the counter. -/
theorem keepsCounter_uploadForm (ctx : HttpContext) : KeepsCounter (uploadForm env ctx) := by
  intro server
  unfold uploadForm
  refine Ends.ite (fun _ => keepsCounter_send _ _) fun _ => ?_
  refine Ends.ite (fun _ => keepsCounter_send _ _) fun _ => ?_
  refine Ends.ite (fun _ => keepsCounter_send _ _) fun _ => ?_
  have stored (cleanName : Bytes) : Ends (storeUpload env ctx.getForm (sentScene ctx) cleanName)
      server fun _ final => final.concurrentUploads = server.concurrentUploads := by
    unfold storeUpload
    apply Ends.bind (onDisk_ends (Ends.any _ _))
    · rintro filePath middle ⟨_, rest⟩
      have same : middle.concurrentUploads = server.concurrentUploads := by rw [rest]
      refine Ends.ite (fun _ => same) fun _ => ?_
      cases filePath with
      | none => exact same
      | some path =>
          unfold replyStored
          apply ends_now
          apply ends_saveMeta
          exact (keepsCounter_send _ _).mono fun _ _ kept => kept.trans same
    · rintro thrown final ⟨_, rest⟩
      rw [rest]
  apply Ends.tryCatch (stored _)
  · exact fun _ _ kept => kept
  · exact fun thrown middle kept => (keepsCounter_send _ _).mono fun _ _ same => same.trans kept

/-- An upload counts itself in, and out again only when it is turned away: its exit is one
that the limiter knows. -/
theorem handleUpload_concurrentUploads (ctx : HttpContext) :
    Ends (handleUpload env ctx) server fun _ final => ∃ exit,
      (exit = .busy ↔ (enterUpload server.concurrentUploads).1 = false) ∧
      final.concurrentUploads = leaveUpload (enterUpload server.concurrentUploads).2 exit := by
  unfold handleUpload
  apply ends_get
  dsimp only
  apply ends_modify
  refine Ends.ite (fun busy => ?_) fun admitted => ?_
  · have turned : (enterUpload server.concurrentUploads).1 = false := by simpa using busy
    apply ends_modify
    exact (keepsCounter_send _ _).mono fun _ _ kept => ⟨.busy, iff_of_true rfl turned, kept⟩
  · have goesOn : ¬ (enterUpload server.concurrentUploads).1 = false := by simpa using admitted
    apply ends_get
    split
    · exact (keepsCounter_send _ _).mono fun _ _ kept =>
        ⟨.deduplicated, iff_of_false nofun goesOn, kept⟩
    · exact (keepsCounter_uploadForm ctx _).mono fun _ _ kept =>
        ⟨.success, iff_of_false nofun goesOn, kept⟩

/-! ## Uploading a chunk -/

/-- The path below the root directory to which a request sends a chunk. -/
def sentPath (env : Env) (ctx : HttpContext) : Bytes :=
  chunkPath env (ctx.getForm.getParam (bytes "md5")) (ctx.getForm.getParam (bytes "chunk"))

/-- The path of a chunk, component by component. -/
theorem chunkPath_cons (env : Env) (md5 chunk : Bytes) :
    chunkPath env md5 chunk = env.config.tempDir ++ 47 :: (md5 ++ 47 :: chunk) := by
  have slash : bytes "/" = [47] := by decide
  simp only [chunkPath, slash, List.cons_append, List.nil_append]

/-- What a chunk upload does to the tree: nothing, or it saves the data. -/
def ChunkSaved (env : Env) (ctx : HttpContext) (before after : Disk) : Prop :=
  after = before ∨ (find (sentPath env ctx) (bytes "..") 0).isSome = false ∧
    ∃ saved, FileStore.Saving ctx.getForm.content (join env.config.rootDir (sentPath env ctx))
      before saved after

/-- What the save of a chunk does, for a request that sends one. -/
theorem chunkSaved_of_saveFileAt {ctx : HttpContext} {before after : Disk} {result : Except Exn Bool}
    (ended : ((find (sentPath env ctx) (bytes "..") 0).isSome → after = before ∧ result = .ok false) ∧
      FileStore.Saving ctx.getForm.content (join env.config.rootDir (sentPath env ctx)) before result
        after) : ChunkSaved env ctx before after := by
  cases rejected : (find (sentPath env ctx) (bytes "..") 0).isSome with
  | true => exact .inl (ended.1 rejected).1
  | false => exact .inr ⟨rejected, result, ended.2⟩

/-- Uploading a chunk leaves the metadata alone and saves the data below the root
directory, if at all. -/
theorem handleChunkUpload_ends (sound : FileStore.RemovesSoundly env.host) (ctx : HttpContext) :
    Ends (handleChunkUpload env ctx) server fun _ final =>
      final.metaStore = server.metaStore ∧
      ChunkSaved env ctx server.machine.disk final.machine.disk := by
  have sending {reply : Reply} {middle : Server} (same : middle.metaStore = server.metaStore)
      (saved : ChunkSaved env ctx server.machine.disk middle.machine.disk) :
      Ends (send env reply) middle fun _ final => final.metaStore = server.metaStore ∧
        ChunkSaved env ctx server.machine.disk final.machine.disk := by
    refine (send_ends reply).mono ?_
    rintro _ _ ⟨rfl, _⟩
    exact ⟨same, saved⟩
  unfold handleChunkUpload
  dsimp only
  refine Ends.ite (fun _ => sending rfl (.inl rfl)) fun _ => ?_
  apply Ends.bind (onDisk_ends (FileStore.saveFileAt_ends sound env.config _))
  · rintro success middle ⟨ended, rest⟩
    have same : middle.metaStore = server.metaStore := by rw [rest]
    have saved := chunkSaved_of_saveFileAt ended
    exact Ends.ite (fun _ => sending same saved) fun _ => sending same saved
  · rintro thrown final ⟨ended, rest⟩
    exact ⟨by rw [rest], chunkSaved_of_saveFileAt ended⟩

end FileCtl

end Cdfs
