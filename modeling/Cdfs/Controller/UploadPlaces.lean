import Cdfs.Controller.UploadIndex

/-! # Where uploads change the tree

An upload whose scene is a single name is stored three directories below the root, under
a name made of the MD5 and the extension. `Cdfs.FileCtl.placeAfter_uploadStep` says at
which places the tree can differ after it.
-/

namespace Cdfs

open Basis FsPath

namespace FileCtl

variable {env : Env} {ctx : HttpContext} {server : Server}

/-- The directories of an upload below the root directory. -/
def uploadDirs (env : Env) (ctx : HttpContext) : List Bytes :=
  [sentScene ctx, (md5Hex env.digest ctx.getForm.content).take 2,
    ((md5Hex env.digest ctx.getForm.content).drop 2).take 2]

/-- The name of the file of an upload. -/
def uploadName (env : Env) (ctx : HttpContext) : Bytes :=
  md5Hex env.digest ctx.getForm.content ++ extension ctx.getForm.filename

/-- A directory of two digits of an MD5. -/
theorem isName_md5_part (digest : Bytes → Digest) (data : Bytes) {from_ : Nat} (inside : from_ < 32) :
    IsName (((md5Hex digest data).drop from_).take 2) := by
  refine isName_of_hex ?_ fun byte member =>
    isHexDigit_of_mem_md5Hex (List.mem_of_mem_drop (List.mem_of_mem_take member))
  rw [← List.length_pos_iff, List.length_take, List.length_drop, length_md5Hex]
  omega

/-- The directories of an upload are names. -/
theorem isName_of_mem_uploadDirs (valid : IsName (sentScene ctx)) :
    ∀ name ∈ uploadDirs env ctx, IsName name := by
  have first := isName_md5_part env.digest ctx.getForm.content (by decide : 0 < 32)
  have second := isName_md5_part env.digest ctx.getForm.content (by decide : 2 < 32)
  rw [List.drop_zero] at first
  simp only [uploadDirs, List.mem_cons, List.not_mem_nil, or_false, forall_eq_or_imp, forall_eq]
  exact ⟨valid, first, second⟩

/-- The name of an upload has no slash. -/
theorem slash_not_mem_uploadName (env : Env) (ctx : HttpContext) :
    (47 : UInt8) ∉ uploadName env ctx := by
  rw [uploadName, List.mem_append, not_or]
  exact ⟨(isName_md5Hex ..).2.2.2.1, slash_not_mem_extension _⟩

/-- The system sees the MD5 of the name at least. -/
theorem cString_uploadName (env : Env) (ctx : HttpContext) :
    cString (uploadName env ctx) =
      md5Hex env.digest ctx.getForm.content ++ cString (extension ctx.getForm.filename) :=
  cString_append (isName_md5Hex ..).2.2.2.2 _

/-- A name that starts with an MD5. -/
theorem isName_md5Hex_append {digest : Bytes → Digest} {data rest : Bytes}
    (noSlash : (47 : UInt8) ∉ rest) (noZero : (0 : UInt8) ∉ rest) :
    IsName (md5Hex digest data ++ rest) := by
  have md5 := isName_md5Hex digest data
  refine isName_of_long ?_ (List.mem_append.not.mpr (not_or.mpr ⟨md5.2.2.2.1, noSlash⟩))
    (List.mem_append.not.mpr (not_or.mpr ⟨md5.2.2.2.2, noZero⟩))
  rw [List.length_append, length_md5Hex]
  omega

/-- The part of the name that the system reads is a name. -/
theorem isName_cString_uploadName (env : Env) (ctx : HttpContext) :
    IsName (cString (uploadName env ctx)) := by
  rw [cString_uploadName]
  refine isName_md5Hex_append ?_ (not_mem_cString _)
  exact fun slash => slash_not_mem_extension _ ((List.takeWhile_prefix _).subset slash)

/-- The path of an upload is made of its directories and its name. -/
theorem uploadPath_eq (valid : IsName (sentScene ctx)) :
    uploadPath env ctx = render (uploadDirs env ctx) ++ 47 :: uploadName env ctx := by
  have named : hasFilename (sentScene ctx) = true :=
    hasFilename_append valid.1 valid.2.2.2.1 []
  unfold uploadPath
  rw [join_named named (isAbsolute_contentPath ..)]
  simp only [contentPath, uploadDirs, uploadName, render, List.append_assoc, List.cons_append]

/-- What an upload can do at a place: nothing, create one of its directories, or touch its
file or a temporary file beside it. -/
inductive PlaceAfter (env : Env) (ctx : HttpContext) (before after : Disk) (place : List Bytes) :
    Prop where
  | same (same : after.node place = before.node place)
  | created (taken : List Bytes) (nonempty : taken ≠ []) (inside : taken <+: uploadDirs env ctx)
      (here : place = location before.cwd env.config.rootDir ++ taken)
      (absent : before.node place = none) (added : after.node place = some .dir)
  | target (here : place = location before.cwd env.config.rootDir ++ uploadDirs env ctx ++
      [cString (uploadName env ctx)])
  | temporary (number : Nat) (here : place = location before.cwd env.config.rootDir ++
      uploadDirs env ctx ++ [cString (uploadName env ctx ++ (bytes ".tmp." ++ decimal number))])

/-- An upload saves its content, or leaves the tree alone. -/
theorem storing_uploadStep (sound : FileStore.RemovesSoundly env.host) (server : Server)
    (ctx : HttpContext) : ∃ result, FileStore.Storing ctx.getForm.content
      (join env.config.rootDir (uploadPath env ctx)) (uploadPath env ctx) server.machine.disk result
      (uploadStep env server ctx).machine.disk := by
  cases reply_after_of_ends (@handleUpload_ends env server sound ctx) with
  | refused disk _ _ =>
      rw [uploadStep, disk]
      exact ⟨.ok none, ⟨0, .refl _⟩, nofun, fun _ => .inl rfl, fun _ => rfl⟩
  | failed _ _ storing _ _ _ => exact ⟨_, storing⟩
  | stored _ storing _ _ _ _ _ _ => exact ⟨_, storing⟩

/-- An acknowledged upload has been stored. -/
theorem storing_of_acknowledges (sound : FileStore.RemovesSoundly env.host) {data : Json}
    (acknowledged : Acknowledges (reply (handleUpload env ctx) server) data) :
    FileStore.Storing ctx.getForm.content (join env.config.rootDir (uploadPath env ctx))
      (uploadPath env ctx) server.machine.disk (.ok (some (uploadPath env ctx)))
      (uploadStep env server ctx).machine.disk := by
  cases reply_after_of_ends (@handleUpload_ends env server sound ctx) with
  | refused _ _ silent => exact absurd acknowledged (silent data)
  | failed _ _ _ _ _ silent => exact absurd acknowledged (silent data)
  | stored _ storing _ _ _ _ _ _ => exact storing

/-- The reply to an acknowledged upload. -/
theorem exists_fileData_of_acknowledges (sound : FileStore.RemovesSoundly env.host) {data : Json}
    (acknowledged : Acknowledges (reply (handleUpload env ctx) server) data) :
    ∃ mtime, data = fileData env (uploadRecord env ctx (sentName env ctx) mtime) := by
  cases reply_after_of_ends (@handleUpload_ends env server sound ctx) with
  | refused _ _ silent => exact absurd acknowledged (silent data)
  | failed _ _ _ _ _ silent => exact absurd acknowledged (silent data)
  | stored _ _ _ mtime _ _ _ replied => exact ⟨mtime, ((replied data).mp acknowledged).1⟩

/-- Directories stay. -/
theorem keepsDirs_uploadStep (sound : FileStore.RemovesSoundly env.host) :
    Disk.KeepsDirs server.machine.disk (uploadStep env server ctx).machine.disk := by
  obtain ⟨_, storing⟩ := storing_uploadStep sound server ctx
  obtain ⟨_, evolved⟩ := storing.evolved
  exact evolved.keepsDirs

section Rooted

variable (sound : FileStore.RemovesSoundly env.host)
  (rooted : server.machine.disk.look env.config.rootDir = some .dir) (valid : IsName (sentScene ctx))

include sound rooted valid

/-- The tree after an upload. -/
theorem placeAfter_uploadStep (place : List Bytes) :
    PlaceAfter env ctx server.machine.disk (uploadStep env server ctx).machine.disk place := by
  obtain ⟨_, storing⟩ := storing_uploadStep sound server ctx
  obtain ⟨number, evolved⟩ := storing.evolved
  rw [uploadPath_eq valid] at evolved
  have below := FileStore.evolved_below (isName_of_mem_uploadDirs valid) (List.cons_ne_nil _ _)
    env.config.rootDir_ne_nil env.config.zero_not_mem_rootDir (slash_not_mem_uploadName env ctx)
    (isName_cString_uploadName env ctx) rooted evolved place
  rcases below with same | ⟨taken, nonempty, inside, here, absent, added⟩ | here | here
  · exact .same same
  · exact .created taken nonempty inside here absent added
  · exact .target here
  · exact .temporary number here

/-- A new directory is one of the upload. -/
theorem newDirs_uploadStep {place : List Bytes}
    (directory : (uploadStep env server ctx).machine.disk.node place = some .dir) :
    server.machine.disk.node place = some .dir ∨
      ∃ taken, taken ≠ [] ∧ taken <+: uploadDirs env ctx ∧
        place = location server.machine.disk.cwd env.config.rootDir ++ taken := by
  have names := @isName_of_mem_uploadDirs env ctx valid
  obtain ⟨_, storing⟩ := storing_uploadStep sound server ctx
  obtain ⟨number, evolved⟩ := storing.evolved
  rw [uploadPath_eq valid, parentPath_join_render names (List.cons_ne_nil _ _)
    (slash_not_mem_uploadName env ctx)] at evolved
  rcases evolved.newDirs place directory with earlier | inside
  · exact .inl earlier
  · exact Fs.passed_join_render env.config.rootDir_ne_nil env.config.zero_not_mem_rootDir rooted names
      (List.cons_ne_nil _ _) inside

end Rooted

/-- If there is something at the path of an upload, the tree stays the same. -/
theorem disk_uploadStep_of_look (sound : FileStore.RemovesSoundly env.host) {entry : Node}
    (present : server.machine.disk.look (join env.config.rootDir (uploadPath env ctx)) = some entry) :
    (uploadStep env server ctx).machine.disk = server.machine.disk := by
  obtain ⟨_, storing⟩ := storing_uploadStep sound server ctx
  exact storing.untouched (present ▸ rfl)

/-- A file at the place of an upload holds its content, or was there before. -/
theorem file_uploadStep (sound : FileStore.RemovesSoundly env.host) {content : Bytes}
    (file : (uploadStep env server ctx).machine.disk.node (location server.machine.disk.cwd
      (join env.config.rootDir (uploadPath env ctx))) = some (.file content)) :
    content = ctx.getForm.content ∨ server.machine.disk.node (location server.machine.disk.cwd
      (join env.config.rootDir (uploadPath env ctx))) = some (.file content) := by
  obtain ⟨result, storing⟩ := storing_uploadStep sound server ctx
  by_cases returned : ∃ path, result = .ok (some path)
  · obtain ⟨path, returned⟩ := returned
    rcases (storing.found path returned).2 with ⟨same, _⟩ | ⟨_, found, there, _, origin⟩
    · exact .inr (same ▸ file)
    · obtain ⟨number, evolved⟩ := storing.evolved
      have here := Disk.node_location_of_look there
      rw [evolved.keepsDirs.1, file] at here
      cases here
      exact origin
  · rcases storing.nothingNew (fun path same => returned ⟨path, same⟩) with
      same | removed | ⟨_, directory⟩
    · exact .inr (same ▸ file)
    · rw [removed] at file
      cases file
    · rw [directory] at file
      cases file

end FileCtl

end Cdfs
