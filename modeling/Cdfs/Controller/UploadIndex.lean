import Cdfs.Controller.FileCtlRules
import Cdfs.Meta.Accounting
import Cdfs.Meta.Lookup

/-! # Acknowledged uploads in the path index

The disk keeps a file for every scene and extension, the metadata store one record for
every MD5. An upload of known content under another scene or extension is stored and
acknowledged, but `save_meta` finds the MD5 and writes nothing, so the path of the reply
is not in the index. `Cdfs.FileCtl.indexed_iff` says exactly when it is.
-/

namespace Cdfs

open Basis FsPath

/-- The last component of the path starts with the MD5. -/
def NamesMd5 (path md5 : Bytes) : Prop :=
  ∃ front rest, path = front ++ 47 :: (md5 ++ rest) ∧ (47 : UInt8) ∉ rest

theorem slash_not_mem_of_isHexMd5 {md5 : Bytes} (hex : IsHexMd5 md5) : (47 : UInt8) ∉ md5 :=
  fun slash => absurd (hex.2 47 slash) (by decide)

/-- A path names one MD5 only. -/
theorem NamesMd5.unique {path first second : Bytes} (firstHex : IsHexMd5 first)
    (secondHex : IsHexMd5 second) (names : NamesMd5 path first) (other : NamesMd5 path second) :
    first = second := by
  obtain ⟨front, rest, rfl, plain⟩ := names
  obtain ⟨otherFront, otherRest, same, otherPlain⟩ := other
  have absent {md5 rest : Bytes} (hex : IsHexMd5 md5) (plain : (47 : UInt8) ∉ rest) :
      (47 : UInt8) ∉ md5 ++ rest := by
    rw [List.mem_append, not_or]
    exact ⟨slash_not_mem_of_isHexMd5 hex, plain⟩
  have last : first ++ rest = second ++ otherRest := by
    have firstSplit := components_append front (first ++ rest)
    rw [same, components_append, components_of_not_mem (absent firstHex plain),
      components_of_not_mem (absent secondHex otherPlain)] at firstSplit
    exact (List.cons.inj (List.append_inj' firstSplit rfl).2).1.symm
  exact (List.append_inj last (firstHex.1.trans secondHex.1.symm)).1

/-- A database written by uploads: each MD5 has the text of a record and an entry for the
path of the record, and each path entry names its MD5. -/
structure UploadIndex (codec : JsonCodec) (db : LevelDB) : Prop where
  record_of_md5 : ∀ {md5 text}, IsHexMd5 md5 → db.get md5 = some text → ∃ record : MetaFile,
    record.md5 = md5 ∧ text = serialize codec record ∧ db.get (pathKey record.path) = some md5
  md5_of_path : ∀ {path md5}, db.get (pathKey path) = some md5 →
    IsHexMd5 md5 ∧ (db.get md5).isSome = true ∧ NamesMd5 path md5

namespace UploadIndex

variable {codec : JsonCodec} {db : LevelDB}

theorem empty : UploadIndex codec OrderedMap.empty where
  record_of_md5 := fun _ present => nomatch present
  md5_of_path := fun present => nomatch present

/-- A record under a new MD5, whose path names the MD5, keeps the index. -/
theorem saveBatch (index : UploadIndex codec db) {record : MetaFile} (hex : IsHexMd5 record.md5)
    (names : NamesMd5 record.path record.md5) (fresh : db.get record.md5 = none) :
    UploadIndex codec (db.write (MetadataStore.saveBatch codec record) true) where
  record_of_md5 := by
    intro md5 text otherHex present
    rw [get_saveBatch_of_isHexMd5 record otherHex] at present
    by_cases same : record.md5 = md5
    · rw [if_pos same] at present
      cases present
      exact ⟨record, same, rfl, by rw [get_saveBatch_path hex, if_pos rfl, same]⟩
    · rw [if_neg same] at present
      obtain ⟨other, named, printed, indexed⟩ := index.record_of_md5 otherHex present
      have apart : record.path ≠ other.path := by
        intro shared
        have taken := (index.md5_of_path indexed).2.2
        rw [← shared] at taken
        rw [names.unique hex otherHex taken, present] at fresh
        cases fresh
      exact ⟨other, named, printed, by rw [get_saveBatch_path hex, if_neg apart, indexed]⟩
  md5_of_path := by
    intro path md5 present
    rw [get_saveBatch_path hex] at present
    by_cases same : record.path = path
    · rw [if_pos same] at present
      cases present
      exact ⟨hex, by rw [get_saveBatch_of_isHexMd5 record hex, if_pos rfl]; rfl, same ▸ names⟩
    · rw [if_neg same] at present
      obtain ⟨otherHex, stored, otherNames⟩ := index.md5_of_path present
      refine ⟨otherHex, ?_, otherNames⟩
      rw [get_saveBatch_of_isHexMd5 record otherHex]
      split
      · rfl
      · exact stored

/-- Saving the record of an upload keeps the index. -/
theorem saveMeta {store : MetadataStore} (index : UploadIndex codec store.db) {record : MetaFile}
    (hex : IsHexMd5 record.md5) (names : NamesMd5 record.path record.md5) (written : Bool) :
    UploadIndex codec (store.saveMeta codec record written).2.db := by
  rcases store.db_saveMeta record written with same | ⟨fresh, saved⟩
  · rw [same]
    exact index
  · rw [saved]
    exact index.saveBatch hex names fresh

end UploadIndex

/-- What a stored text reads back as. -/
theorem eq_asStored_of_deserialize {codec : JsonCodec} {record read : MetaFile}
    (parsed : deserialize codec (serialize codec record) = some read) : read = record.asStored := by
  unfold serialize at parsed
  cases printed : codec.dump record.toJson with
  | some text =>
      rw [printed, Option.getD_some, deserialize,
        codec.parse_dump _ _ record.canonical_toJson printed, Option.bind_some,
        record.fromJson_toJson] at parsed
      exact (Option.some.inj parsed).symm
  | none =>
      rw [printed, Option.getD_none, deserialize_eq_none List.not_mem_nil] at parsed
      cases parsed

/-- A printed digest is a hexadecimal MD5. -/
theorem isHexMd5_md5Hex (digest : Bytes → Digest) (data : Bytes) : IsHexMd5 (md5Hex digest data) :=
  ⟨length_md5Hex digest data, fun _ member => isHexDigit_of_mem_md5Hex member⟩

namespace FileCtl

variable {env : Env} {ctx : HttpContext}

/-- The state after an upload. -/
def uploadStep (env : Env) (server : Server) (ctx : HttpContext) : Server :=
  after (handleUpload env ctx) server

/-- The path of an upload ends in the MD5 and the extension. -/
theorem exists_uploadPath (env : Env) (ctx : HttpContext) :
    ∃ front, uploadPath env ctx =
      front ++ 47 :: (md5Hex env.digest ctx.getForm.content ++ extension ctx.getForm.filename) := by
  unfold uploadPath
  rw [join_of_relative (isAbsolute_contentPath ..), contentPath]
  let md5 := md5Hex env.digest ctx.getForm.content
  refine ⟨sentScene ctx ++ ((if hasFilename (sentScene ctx) then [47] else []) ++
    (md5.take 2 ++ 47 :: (md5.drop 2).take 2)), ?_⟩
  simp only [List.append_assoc, List.cons_append, md5]

/-- The path of an upload names the MD5 of its content. -/
theorem namesMd5_uploadPath (env : Env) (ctx : HttpContext) :
    NamesMd5 (uploadPath env ctx) (md5Hex env.digest ctx.getForm.content) := by
  obtain ⟨front, path⟩ := exists_uploadPath env ctx
  exact ⟨front, _, path, slash_not_mem_extension _⟩

/-- The path of an upload is too long to be read as an MD5. -/
theorem isMd5_uploadPath (env : Env) (ctx : HttpContext) : isMd5 (uploadPath env ctx) = false := by
  have length := length_md5Hex env.digest ctx.getForm.content
  obtain ⟨front, rest, path, _⟩ := namesMd5_uploadPath env ctx
  rw [isMd5, beq_eq_false_iff_ne, path, List.length_append, List.length_cons, List.length_append]
  omega

/-- A printed reply for an upload is made of UTF-8 strings. -/
theorem isUtf8_of_printable {mtime : Int64}
    (printable : (uploadReply env ctx mtime).unprintable env.codec = false)
    (peer : validUtf8 env.metaConfig.peerId = true) :
    (uploadRecord env ctx (sentName env ctx) mtime).IsUtf8 := by
  obtain ⟨_, path, scene, name⟩ := (printable_uploadReply_iff mtime).mp printable
  have strings : (uploadRecord env ctx (sentName env ctx) mtime).strings =
      [md5Hex env.digest ctx.getForm.content, uploadPath env ctx, sentName env ctx, [],
        sentScene ctx, [], env.metaConfig.peerId] := rfl
  unfold MetaFile.IsUtf8
  rw [strings]
  simp only [List.forall_mem_cons, List.not_mem_nil, IsEmpty.forall_iff, implies_true, and_true]
  exact ⟨validUtf8_md5Hex .., path, name, rfl, scene, rfl, peer⟩

/-- The path and MD5 of the reply lead to a record with this path and MD5. -/
def Indexed (codec : JsonCodec) (store : MetadataStore) (data : Json) : Prop :=
  ∃ path md5 record, data.at? (bytes "path") = some (.str path) ∧
    data.at? (bytes "md5") = some (.str md5) ∧ store.getMeta codec path = some record ∧
    record.path = path ∧ record.md5 = md5

/-- Nothing is stored under the MD5 of the content, or a record with the path of the
upload. -/
def FreshOrSame (env : Env) (ctx : HttpContext) (store : MetadataStore) : Prop :=
  store.db.get (md5Hex env.digest ctx.getForm.content) = none ∨
    ∃ record, store.getMeta env.codec (md5Hex env.digest ctx.getForm.content) = some record ∧
      record.path = uploadPath env ctx

/-- Uploads keep the index of their paths. -/
theorem uploadIndex_step (sound : FileStore.RemovesSoundly env.host) {server : Server}
    (index : UploadIndex env.codec server.metaStore.db) (ctx : HttpContext) :
    UploadIndex env.codec (uploadStep env server ctx).metaStore.db := by
  unfold uploadStep
  cases reply_after_of_ends (@handleUpload_ends env server sound ctx) with
  | refused _ metaStore _ =>
      rw [metaStore]
      exact index
  | failed _ _ _ _ metaStore _ =>
      rw [metaStore]
      exact index
  | stored _ _ _ _ _ _ metaStore _ =>
      rw [metaStore]
      exact index.saveMeta (isHexMd5_md5Hex ..) (namesMd5_uploadPath env ctx) _

/-- By the path a record is found through the MD5 kept for the path. -/
theorem getMeta_uploadPath (env : Env) (ctx : HttpContext) (store : MetadataStore) :
    store.getMeta env.codec (uploadPath env ctx) =
      ((store.db.get (pathKey (uploadPath env ctx))).bind store.db.get).bind
        (deserialize env.codec) := by
  simp only [MetadataStore.getMeta, isMd5_uploadPath, Bool.false_eq_true, ↓reduceIte]

/-- By the MD5 a record is found directly. -/
theorem getMeta_md5Hex (codec : JsonCodec) (digest : Bytes → Digest) (content : Bytes)
    (store : MetadataStore) :
    store.getMeta codec (md5Hex digest content) =
      (store.db.get (md5Hex digest content)).bind (deserialize codec) := by
  have hex := isHexMd5_md5Hex digest content
  rw [MetadataStore.getMeta_of_isHexMd5 store hex, catalog_get, if_pos hex]

/-- In a database of uploads, the path of an upload whose MD5 is stored is indexed exactly
when it is the path of the stored record. -/
theorem exists_getMeta_iff {store : MetadataStore} (index : UploadIndex env.codec store.db)
    {text : Bytes} (stored : store.db.get (md5Hex env.digest ctx.getForm.content) = some text) :
    (∃ record, store.getMeta env.codec (uploadPath env ctx) = some record ∧
        record.path = uploadPath env ctx ∧ record.md5 = md5Hex env.digest ctx.getForm.content) ↔
      ∃ record, store.getMeta env.codec (md5Hex env.digest ctx.getForm.content) = some record ∧
        record.path = uploadPath env ctx := by
  have hex := isHexMd5_md5Hex env.digest ctx.getForm.content
  rw [getMeta_uploadPath, getMeta_md5Hex, stored]
  constructor
  · rintro ⟨record, found, path, _⟩
    cases indexed : store.db.get (pathKey (uploadPath env ctx)) with
    | none =>
        rw [indexed] at found
        cases found
    | some md5 =>
        obtain ⟨otherHex, _, names⟩ := index.md5_of_path indexed
        rw [indexed, ← (namesMd5_uploadPath env ctx).unique hex otherHex names, Option.bind_some,
          stored] at found
        exact ⟨record, found, path⟩
  · rintro ⟨record, found, path⟩
    obtain ⟨source, named, printed, indexed⟩ := index.record_of_md5 hex stored
    have read := found
    rw [Option.bind_some, printed] at read
    obtain rfl := eq_asStored_of_deserialize read
    refine ⟨_, ?_, path, named⟩
    rw [← path, show source.asStored.path = source.path from rfl, indexed, Option.bind_some, stored]
    exact found

/-- A record saved under a new MD5 is found by its path. -/
theorem getMeta_saveMeta {codec : JsonCodec} {store : MetadataStore} {record : MetaFile}
    (hex : IsHexMd5 record.md5) (long : isMd5 record.path = false) (valid : record.IsUtf8)
    (fresh : store.db.get record.md5 = none) :
    (store.saveMeta codec record true).2.getMeta codec record.path = some record.asStored := by
  rw [MetadataStore.getMeta, long, if_neg Bool.false_ne_true,
    (MetadataStore.saveMeta_of_fresh fresh true).2 rfl]
  rw [get_saveBatch_path hex, if_pos rfl, Option.bind_some, get_saveBatch_of_isHexMd5 _ hex,
    if_pos rfl, Option.bind_some]
  exact deserialize_serialize codec valid

/-- Uploads keep the index. -/
theorem uploadIndex_run (sound : FileStore.RemovesSoundly env.host) {server : Server}
    (index : UploadIndex env.codec server.metaStore.db) (requests : List HttpContext) :
    UploadIndex env.codec (run (uploadStep env) server requests).metaStore.db := by
  induction requests generalizing server with
  | nil => exact index
  | cons ctx requests ih => exact ih (uploadIndex_step sound index ctx)

/-- The reply names the path and the MD5 of the upload. -/
theorem indexed_fileData_iff {store : MetadataStore} {mtime : Int64} :
    Indexed env.codec store (fileData env (uploadRecord env ctx (sentName env ctx) mtime)) ↔
      ∃ record, store.getMeta env.codec (uploadPath env ctx) = some record ∧
        record.path = uploadPath env ctx ∧
        record.md5 = md5Hex env.digest ctx.getForm.content := by
  let record := uploadRecord env ctx (sentName env ctx) mtime
  have path : (fileData env record).at? (bytes "path") = some (.str (uploadPath env ctx)) :=
    at?_fileData (by simp [record, uploadRecord])
  have md5 : (fileData env record).at? (bytes "md5") =
      some (.str (md5Hex env.digest ctx.getForm.content)) :=
    at?_fileData (by simp [record, uploadRecord])
  constructor
  · rintro ⟨_, _, found, namedPath, namedMd5, read, rfl, rfl⟩
    rw [show fileData env (uploadRecord env ctx (sentName env ctx) mtime) = fileData env record
      from rfl, path] at namedPath
    rw [show fileData env (uploadRecord env ctx (sentName env ctx) mtime) = fileData env record
      from rfl, md5] at namedMd5
    have samePath := Json.str.inj (Option.some.inj namedPath)
    have sameMd5 := Json.str.inj (Option.some.inj namedMd5)
    exact ⟨found, samePath ▸ read, samePath.symm, sameMd5.symm⟩
  · rintro ⟨found, read, samePath, sameMd5⟩
    exact ⟨_, _, found, path, md5, read, samePath, sameMd5⟩

/-- An acknowledged upload has saved its record. -/
theorem exists_saved_of_acknowledges (sound : FileStore.RemovesSoundly env.host)
    (writes : ∀ call, env.writes call = true) {server : Server} {data : Json}
    (acknowledged : Acknowledges (reply (handleUpload env ctx) server) data) :
    ∃ mtime, data = fileData env (uploadRecord env ctx (sentName env ctx) mtime) ∧
      (uploadReply env ctx mtime).unprintable env.codec = false ∧
      (uploadStep env server ctx).metaStore = (server.metaStore.saveMeta env.codec
        (uploadRecord env ctx (sentName env ctx) mtime) true).2 := by
  cases reply_after_of_ends (@handleUpload_ends env server sound ctx) with
  | refused _ _ silent => exact absurd acknowledged (silent data)
  | failed _ _ _ _ _ silent => exact absurd acknowledged (silent data)
  | stored _ _ _ mtime written reported metaStore replied =>
      obtain ⟨named, printable⟩ := (replied data).mp acknowledged
      rw [reported writes] at metaStore
      exact ⟨mtime, named, printable, metaStore⟩

/-- After uploads to a store opened empty, an acknowledged upload can be found by its path
if and only if its content was new, or stored before under this very path. -/
theorem indexed_iff (sound : FileStore.RemovesSoundly env.host)
    (writes : ∀ call, env.writes call = true) (peer : validUtf8 env.metaConfig.peerId = true)
    {start : Server} (fresh : start.metaStore = .opened OrderedMap.empty)
    (requests : List HttpContext) {ctx : HttpContext} {data : Json}
    (acknowledged : Acknowledges
      (reply (handleUpload env ctx) (run (uploadStep env) start requests)) data) :
    Indexed env.codec (uploadStep env (run (uploadStep env) start requests) ctx).metaStore data ↔
      FreshOrSame env ctx (run (uploadStep env) start requests).metaStore := by
  have empty : UploadIndex env.codec start.metaStore.db := by
    rw [fresh]
    exact .empty
  have index := uploadIndex_run sound empty requests
  obtain ⟨mtime, rfl, printable, saved⟩ := exists_saved_of_acknowledges sound writes acknowledged
  rw [saved, indexed_fileData_iff]
  cases stored : (run (uploadStep env) start requests).metaStore.db.get
      (md5Hex env.digest ctx.getForm.content) with
  | none =>
      refine iff_of_true ⟨(uploadRecord env ctx (sentName env ctx) mtime).asStored, ?_, rfl, rfl⟩
        (.inl stored)
      exact getMeta_saveMeta (isHexMd5_md5Hex ..) (isMd5_uploadPath env ctx)
        (isUtf8_of_printable printable peer) stored
  | some text =>
      rw [MetadataStore.saveMeta_of_get stored, exists_getMeta_iff index stored]
      refine (or_iff_right ?_).symm
      rw [stored]
      exact Option.some_ne_none text

/-- An upload of `hello` as `a.txt`. -/
def sampleUpload (scene : String) : HttpContext :=
  .ofParts [.field (bytes "scene") (bytes scene),
    .file (bytes "file") (bytes "a.txt") (bytes "text/plain") (bytes "hello")]

/-- The sample server answers the upload to `docs` with a success. -/
theorem exists_acknowledges_sampleUpload : ∃ data,
    Acknowledges (reply (handleUpload sampleEnv (sampleUpload "docs")) sampleServer) data :=
  exists_acknowledges (by decide +kernel)

/-- The first upload is found by both keys. -/
theorem indexed_sampleUpload : ∃ data,
    Acknowledges (reply (handleUpload sampleEnv (sampleUpload "docs"))
      (run (uploadStep sampleEnv) sampleServer [])) data ∧
    Indexed sampleEnv.codec (uploadStep sampleEnv (run (uploadStep sampleEnv) sampleServer [])
      (sampleUpload "docs")).metaStore data := by
  obtain ⟨data, acknowledged⟩ := exists_acknowledges_sampleUpload
  exact ⟨data, acknowledged, (indexed_iff sampleEnv_sound (fun _ => rfl)
    (by decide +kernel) rfl [] acknowledged).mpr (.inl rfl)⟩

/-- The same content uploaded to a second scene: acknowledged, and not to be found. -/
theorem not_indexed_of_second_scene : ∃ data,
    Acknowledges (reply (handleUpload sampleEnv (sampleUpload "photos"))
      (run (uploadStep sampleEnv) sampleServer [sampleUpload "docs"])) data ∧
    ¬ Indexed sampleEnv.codec (uploadStep sampleEnv
      (run (uploadStep sampleEnv) sampleServer [sampleUpload "docs"])
      (sampleUpload "photos")).metaStore data := by
  obtain ⟨message, missing⟩ : successMessage (reply (handleUpload sampleEnv (sampleUpload "photos"))
        (run (uploadStep sampleEnv) sampleServer [sampleUpload "docs"])) =
          some (bytes "Upload success") ∧
      ((uploadStep sampleEnv (run (uploadStep sampleEnv) sampleServer [sampleUpload "docs"])
        (sampleUpload "photos")).metaStore.getMeta sampleEnv.codec
          (uploadPath sampleEnv (sampleUpload "photos"))).isSome = false := by
    decide +kernel
  obtain ⟨data, acknowledged⟩ := exists_acknowledges message
  refine ⟨data, acknowledged, ?_⟩
  obtain ⟨mtime, rfl, _⟩ := exists_saved_of_acknowledges sampleEnv_sound
    (fun _ => rfl) acknowledged
  rw [indexed_fileData_iff]
  rintro ⟨record, found, _⟩
  rw [found] at missing
  cases missing

end FileCtl

end Cdfs
