import Cdfs.Controller.Download
import Cdfs.Controller.UploadPlaces
import Cdfs.Http.Dispatch

/-! # What was uploaded is what is downloaded

The store holds files under the MD5 of their content. Over a run of uploads every file
that is not a temporary one holds the content its name stands for
(`Cdfs.FileCtl.Archive`), so an acknowledged upload is found under its path, and stays
there (`Cdfs.FileCtl.serves_uploaded`).
-/

namespace Cdfs

open Basis FsPath

namespace FileCtl

variable {env : Env} {ctx : HttpContext} {server : Server} {contents : List Bytes}

/-- No two of the contents have the same MD5. -/
def CollisionFree (digest : Bytes → Digest) (contents : List Bytes) : Prop :=
  ∀ first ∈ contents, ∀ second ∈ contents, digest first = digest second → first = second

instance (digest : Bytes → Digest) (contents : List Bytes) :
    Decidable (CollisionFree digest contents) :=
  inferInstanceAs (Decidable (∀ first ∈ contents, ∀ second ∈ contents, _ → _))

/-- The root directory is there, and below it nothing but directories directly in it. -/
structure EmptyRoot (config : StoreConfig) (disk : Disk) : Prop where
  rooted : disk.look config.rootDir = some .dir
  below : ∀ {names entry}, names ≠ [] →
    disk.node (location disk.cwd config.rootDir ++ names) = some entry →
    entry = .dir ∧ names.length = 1

/-- The scene is a name without the separators of a URL. -/
@[mk_iff]
structure PlainScene (ctx : HttpContext) : Prop where
  isName : IsName (sentScene ctx)
  noQuery : (63 : UInt8) ∉ sentScene ctx
  noFragment : (35 : UInt8) ∉ sentScene ctx

instance (ctx : HttpContext) : Decidable (PlainScene ctx) :=
  decidable_of_iff (IsName (sentScene ctx) ∧ (sentScene ctx).contains 63 = false ∧
    (sentScene ctx).contains 35 = false) (by
      simp [plainScene_iff])

/-- The list of extensions is not empty, and none has a separator of a URL. -/
@[mk_iff]
structure PlainExtensions (allowed : List Bytes) : Prop where
  ne_nil : allowed ≠ []
  noQuery : ∀ entry ∈ allowed, (63 : UInt8) ∉ entry
  noFragment : ∀ entry ∈ allowed, (35 : UInt8) ∉ entry

instance (allowed : List Bytes) : Decidable (PlainExtensions allowed) :=
  decidable_of_iff (allowed ≠ [] ∧ (allowed.all fun entry => !entry.contains 63) = true ∧
    (allowed.all fun entry => !entry.contains 35) = true) (by
      simp [plainExtensions_iff])

/-! ## Names -/

/-- An MD5 with an extension has at most one dot. -/
theorem count_dots_uploadName (env : Env) (ctx : HttpContext) :
    (uploadName env ctx).count 46 ≤ 1 := by
  have md5 : (md5Hex env.digest ctx.getForm.content).count 46 = 0 :=
    List.count_eq_zero_of_not_mem fun dot => absurd (isHexDigit_of_mem_md5Hex dot) (by decide)
  rw [uploadName, List.count_append, md5, Nat.zero_add]
  rcases extension_cases ctx.getForm.filename with empty | ⟨tail, dotted, noDot, _⟩
  · rw [empty]
    exact Nat.zero_le _
  · rw [dotted, List.count_cons_self, List.count_eq_zero_of_not_mem noDot]

/-- Cutting the name at a zero byte adds no dot. -/
theorem count_dots_cString_uploadName (env : Env) (ctx : HttpContext) :
    (cString (uploadName env ctx)).count 46 ≤ 1 :=
  ((List.takeWhile_prefix _).sublist.count_le _).trans (count_dots_uploadName env ctx)

/-- The temporary name has more dots, unless the system does not see what is appended. -/
theorem cString_temporary (env : Env) (ctx : HttpContext) (number : Nat) :
    cString (uploadName env ctx ++ (bytes ".tmp." ++ decimal number)) =
        cString (uploadName env ctx) ∨
      1 < (cString (uploadName env ctx ++ (bytes ".tmp." ++ decimal number))).count 46 := by
  by_cases zero : (0 : UInt8) ∈ uploadName env ctx
  · exact .inl (cString_append_of_mem zero _)
  · right
    have marker : (bytes ".tmp.").count 46 = 2 := by decide
    rw [FileStore.cString_append_temp zero, List.count_append, List.count_append, marker]
    omega

/-- The place of an upload. -/
theorem location_uploadPath (valid : IsName (sentScene ctx)) (cwd : List Bytes) :
    location cwd (join env.config.rootDir (uploadPath env ctx)) =
      location cwd env.config.rootDir ++ (uploadDirs env ctx ++ [cString (uploadName env ctx)]) := by
  rw [uploadPath_eq valid, location_join_render_append (isName_of_mem_uploadDirs valid)
    (List.cons_ne_nil _ _) env.config.rootDir_ne_nil env.config.zero_not_mem_rootDir
    (slash_not_mem_uploadName env ctx) (isName_cString_uploadName env ctx), List.append_assoc]

/-- The path of an upload starts with its scene. -/
theorem isAbsolute_uploadPath (valid : IsName (sentScene ctx)) :
    isAbsolute (uploadPath env ctx) = false := by
  have names := @isName_of_mem_uploadDirs env ctx valid
  rw [uploadPath_eq valid, isAbsolute_append, isAbsolute_render names]
  rw [uploadDirs, render]
  exact List.append_ne_nil_of_left_ne_nil valid.1 _

/-- The components of the path of an upload as the system sees them. -/
theorem components_cString_uploadPath (valid : IsName (sentScene ctx)) :
    components (cString (uploadPath env ctx)) =
      uploadDirs env ctx ++ [cString (uploadName env ctx)] := by
  have names := @isName_of_mem_uploadDirs env ctx valid
  have some : uploadDirs env ctx ≠ [] := List.cons_ne_nil _ _
  have slash : cString (47 :: uploadName env ctx) = 47 :: cString (uploadName env ctx) := rfl
  rw [uploadPath_eq valid, cString_append (not_mem_render_of_isName names), slash,
    components_append, components_render some fun name member => (names name member).2.2.2.1,
    components_of_not_mem (isName_cString_uploadName env ctx).2.2.2.1]

/-! ## The invariant -/

/-- The tree below the root directory after uploads of the contents: directories are at
most three deep, files are just below, and a file whose name has at most one dot holds
the content whose MD5 the name starts with. -/
structure Archive (env : Env) (contents : List Bytes) (disk : Disk) : Prop where
  rooted : disk.look env.config.rootDir = some .dir
  dirs : ∀ {names}, disk.node (location disk.cwd env.config.rootDir ++ names) = some .dir →
    names.length ≤ 3
  files : ∀ {names content}, disk.node (location disk.cwd env.config.rootDir ++ names) =
    some (.file content) → names.length = 4
  published : ∀ {dirs name content}, name.count 46 ≤ 1 →
    disk.node (location disk.cwd env.config.rootDir ++ (dirs ++ [name])) = some (.file content) →
    content ∈ contents ∧ md5Hex env.digest content <+: name

namespace Archive

/-- An empty root directory is an archive of nothing. -/
theorem empty {disk : Disk} (empty : EmptyRoot env.config disk) : Archive env contents disk where
  rooted := empty.rooted
  dirs := by
    intro names directory
    by_cases top : names = []
    · rw [top]
      exact Nat.zero_le _
    · rw [(empty.below top directory).2]
      decide
  files := by
    intro names content file
    by_cases top : names = []
    · rw [top, List.append_nil, Disk.node_location_of_look empty.rooted] at file
      cases file
    · exact nomatch (empty.below top file).1
  published := by
    intro dirs name content _ file
    exact nomatch (empty.below (List.append_ne_nil_of_right_ne_nil _ (List.cons_ne_nil _ _)) file).1

variable {disk : Disk}

/-- What stands at the place of an upload holds the content of the upload. -/
theorem eq_file (archive : Archive env contents disk) (distinct : CollisionFree env.digest contents)
    (member : ctx.getForm.content ∈ contents) {entry : Node}
    (stored : disk.node (location disk.cwd env.config.rootDir ++
      (uploadDirs env ctx ++ [cString (uploadName env ctx)])) = some entry) :
    entry = .file ctx.getForm.content := by
  cases entry with
  | dir =>
      have deep := archive.dirs stored
      rw [List.length_append, uploadDirs] at deep
      simp at deep
  | file content =>
      obtain ⟨known, front⟩ :=
        archive.published (count_dots_cString_uploadName env ctx) stored
      rw [cString_uploadName] at front
      have same : md5Hex env.digest content = md5Hex env.digest ctx.getForm.content := by
        have short := List.prefix_of_prefix_length_le front (List.prefix_append ..)
          (by rw [length_md5Hex, length_md5Hex])
        exact short.eq_of_length (by rw [length_md5Hex, length_md5Hex])
      rw [distinct content known _ member (md5Hex_injective same)]

/-- An upload keeps the invariant. -/
theorem uploadStep (sound : FileStore.RemovesSoundly env.host)
    (archive : Archive env contents server.machine.disk) (valid : IsName (sentScene ctx))
    (member : ctx.getForm.content ∈ contents) :
    Archive env contents (uploadStep env server ctx).machine.disk := by
  have kept := @keepsDirs_uploadStep env ctx server sound
  have cwd := kept.1
  -- a file at the place of the upload holds its content, or was there before
  have target {dirs : List Bytes} {name content : Bytes} (few : name.count 46 ≤ 1)
      (file : (FileCtl.uploadStep env server ctx).machine.disk.node
        (location server.machine.disk.cwd env.config.rootDir ++ (dirs ++ [name])) =
          some (.file content))
      (here : dirs ++ [name] = uploadDirs env ctx ++ [cString (uploadName env ctx)]) :
      content ∈ contents ∧ md5Hex env.digest content <+: name := by
    rw [here, ← location_uploadPath valid] at file
    rcases file_uploadStep sound file with rfl | earlier
    · rw [(List.cons.inj (List.append_inj_right' here rfl)).1, cString_uploadName]
      exact ⟨member, List.prefix_append ..⟩
    · rw [location_uploadPath valid, ← here] at earlier
      exact archive.published few earlier
  refine ⟨kept.look_dir archive.rooted, ?_, ?_, ?_⟩
  · intro names directory
    rw [cwd] at directory
    rcases newDirs_uploadStep sound archive.rooted valid directory with
      earlier | ⟨taken, _, inside, here⟩
    · exact archive.dirs earlier
    · rw [List.append_cancel_left here]
      exact inside.length_le
  · intro names content file
    rw [cwd] at file
    cases placeAfter_uploadStep sound archive.rooted valid
      (location server.machine.disk.cwd env.config.rootDir ++ names) with
    | same same => exact archive.files (same ▸ file)
    | created _ _ _ _ _ added =>
        rw [added] at file
        cases file
    | target here =>
        rw [List.append_assoc] at here
        rw [List.append_cancel_left here]
        rfl
    | temporary number here =>
        rw [List.append_assoc] at here
        rw [List.append_cancel_left here]
        rfl
  · intro dirs name content few file
    rw [cwd] at file
    cases placeAfter_uploadStep sound archive.rooted valid
      (location server.machine.disk.cwd env.config.rootDir ++ (dirs ++ [name])) with
    | same same => exact archive.published few (same ▸ file)
    | created _ _ _ _ _ added =>
        rw [added] at file
        cases file
    | target here =>
        rw [List.append_assoc] at here
        exact target few file (List.append_cancel_left here)
    | temporary number here =>
        rw [List.append_assoc] at here
        have names := List.append_cancel_left here
        rcases cString_temporary env ctx number with same | many
        · rw [same] at names
          exact target few file names
        · have last := (List.cons.inj (List.append_inj_right' names rfl)).1
          rw [← last] at many
          omega

end Archive

/-! ## The path of an upload -/

section Path

variable (sound : FileStore.RemovesSoundly env.host)
  (archive : Archive env contents server.machine.disk)
  (distinct : CollisionFree env.digest contents) (valid : IsName (sentScene ctx))

include sound archive distinct valid

/-- An acknowledged upload is found under its path. -/
theorem look_of_acknowledges (member : ctx.getForm.content ∈ contents) {data : Json}
    (acknowledged : Acknowledges (reply (handleUpload env ctx) server) data) :
    (uploadStep env server ctx).machine.disk.look (join env.config.rootDir (uploadPath env ctx)) =
      some (.file ctx.getForm.content) := by
  have storing := storing_of_acknowledges sound acknowledged
  have held {entry : Node} (stored : server.machine.disk.node (location server.machine.disk.cwd
      (join env.config.rootDir (uploadPath env ctx))) = some entry) :
      entry = .file ctx.getForm.content := by
    rw [location_uploadPath valid] at stored
    exact archive.eq_file distinct member stored
  rcases (storing.found _ rfl).2 with ⟨same, present⟩ | ⟨_, content, there, _, origin⟩
  · obtain ⟨entry, found⟩ := Option.isSome_iff_exists.mp present
    rw [same, found, held (Disk.node_location_of_look found)]
  · rcases origin with rfl | earlier
    · exact there
    · rw [there, held earlier]

end Path

/-- Paths of uploads to the same place are the same to the system. -/
theorem look_uploadPath_congr {other : HttpContext} {disk : Disk}
    (rooted : disk.look env.config.rootDir = some .dir) (valid : IsName (sentScene ctx))
    (otherValid : IsName (sentScene other))
    (same : uploadDirs env ctx ++ [cString (uploadName env ctx)] =
      uploadDirs env other ++ [cString (uploadName env other)]) :
    disk.look (join env.config.rootDir (uploadPath env ctx)) =
      disk.look (join env.config.rootDir (uploadPath env other)) := by
  have resolved {request : HttpContext} (valid : IsName (sentScene request)) :
      disk.resolve (join env.config.rootDir (uploadPath env request)) =
        disk.walk (location disk.cwd env.config.rootDir)
          (uploadDirs env request ++ [cString (uploadName env request)]) := by
    rw [Disk.resolve_join_of_look env.config.rootDir_ne_nil env.config.zero_not_mem_rootDir rooted
      (isAbsolute_uploadPath valid), components_cString_uploadPath valid]
  unfold Disk.look
  rw [resolved valid, resolved otherValid, same]

/-- A later upload leaves an acknowledged one where it is. -/
theorem look_uploadStep (sound : FileStore.RemovesSoundly env.host) {later : HttpContext}
    (rooted : server.machine.disk.look env.config.rootDir = some .dir)
    (valid : IsName (sentScene ctx)) (laterValid : IsName (sentScene later)) {content : Bytes}
    (found : server.machine.disk.look (join env.config.rootDir (uploadPath env ctx)) =
      some (.file content)) :
    (uploadStep env server later).machine.disk.look
      (join env.config.rootDir (uploadPath env ctx)) = some (.file content) := by
  have shared (same : uploadDirs env ctx ++ [cString (uploadName env ctx)] =
      uploadDirs env later ++ [cString (uploadName env later)]) :
      (uploadStep env server later).machine.disk.look
        (join env.config.rootDir (uploadPath env ctx)) = some (.file content) := by
    rw [look_uploadPath_congr rooted valid laterValid same] at found
    rw [disk_uploadStep_of_look sound found, look_uploadPath_congr rooted valid laterValid same]
    exact found
  obtain ⟨place, resolved, stored⟩ := Option.bind_eq_some_iff.mp found
  have here := Disk.location_of_resolve resolved
  rw [location_uploadPath valid] at here
  subst here
  have still := (@keepsDirs_uploadStep env later server sound).resolve resolved
  cases placeAfter_uploadStep sound rooted laterValid _ with
  | same same => exact Option.bind_eq_some_iff.mpr ⟨_, still, same.trans stored⟩
  | created _ _ _ _ absent _ =>
      rw [absent] at stored
      cases stored
  | target here =>
      rw [List.append_assoc] at here
      exact shared (List.append_cancel_left here)
  | temporary number here =>
      rw [List.append_assoc] at here
      have names := List.append_cancel_left here
      rcases cString_temporary env later number with same | many
      · rw [same] at names
        exact shared names
      · have few := count_dots_cString_uploadName env ctx
        rw [(List.cons.inj (List.append_inj_right' names rfl)).1] at few
        omega

/-! ## Runs of uploads -/

/-- Uploads keep the tree an archive. -/
theorem archive_run (sound : FileStore.RemovesSoundly env.host)
    (archive : Archive env contents server.machine.disk) {requests : List HttpContext}
    (scenes : ∀ request ∈ requests, PlainScene request)
    (members : ∀ request ∈ requests, request.getForm.content ∈ contents) :
    Archive env contents (run (uploadStep env) server requests).machine.disk := by
  induction requests generalizing server with
  | nil => exact archive
  | cons request requests ih =>
      rw [List.forall_mem_cons] at scenes members
      exact ih (archive.uploadStep sound scenes.1.isName members.1) scenes.2 members.2

/-- An uploaded file stays where it is through later uploads. -/
theorem look_run (sound : FileStore.RemovesSoundly env.host)
    (rooted : server.machine.disk.look env.config.rootDir = some .dir)
    (valid : IsName (sentScene ctx)) {content : Bytes}
    (found : server.machine.disk.look (join env.config.rootDir (uploadPath env ctx)) =
      some (.file content)) {later : List HttpContext}
    (scenes : ∀ request ∈ later, PlainScene request) :
    (run (uploadStep env) server later).machine.disk.look
      (join env.config.rootDir (uploadPath env ctx)) = some (.file content) := by
  induction later generalizing server with
  | nil => exact found
  | cons request later ih =>
      rw [List.forall_mem_cons] at scenes
      exact ih ((keepsDirs_uploadStep sound).look_dir rooted)
        (look_uploadStep sound rooted valid scenes.1.isName found) scenes.2

/-- The root directory stays. -/
theorem rooted_run (sound : FileStore.RemovesSoundly env.host)
    (rooted : server.machine.disk.look env.config.rootDir = some .dir)
    (requests : List HttpContext) :
    (run (uploadStep env) server requests).machine.disk.look env.config.rootDir = some .dir := by
  induction requests generalizing server with
  | nil => exact rooted
  | cons request requests ih => exact ih ((keepsDirs_uploadStep sound).look_dir rooted)

/-! ## The download -/

/-- An allowed extension has no separator of a URL. -/
theorem not_mem_extension {allowed : List Bytes} {filename : Bytes} {byte : UInt8}
    (nonempty : allowed ≠ []) (plain : ∀ entry ∈ allowed, byte ∉ entry)
    (lower : toLower byte = byte) (permitted : checkFileExt filename allowed = true) :
    byte ∉ extension filename := by
  intro inside
  unfold checkFileExt at permitted
  rw [List.isEmpty_eq_false_iff.mpr nonempty, Bool.false_or, List.contains_iff_mem] at permitted
  exact plain _ permitted (List.mem_map.mpr ⟨byte, inside, lower⟩)

/-- A byte that is neither in the scene nor in the extension is not in the path. -/
theorem not_mem_uploadPath {byte : UInt8} (valid : IsName (sentScene ctx)) (noSlash : byte ≠ 47)
    (separator : isHexDigit byte = false) (outside : byte ∉ sentScene ctx)
    (plain : byte ∉ extension ctx.getForm.filename) : byte ∉ uploadPath env ctx := by
  have digits : byte ∉ md5Hex env.digest ctx.getForm.content := fun member => by
    rw [isHexDigit_of_mem_md5Hex member] at separator
    cases separator
  have dirs : byte ∉ render (uploadDirs env ctx) := by
    refine not_mem_render noSlash ?_
    simp only [uploadDirs, List.mem_cons, List.not_mem_nil, or_false, forall_eq_or_imp, forall_eq]
    exact ⟨outside, fun inside => digits (List.mem_of_mem_take inside),
      fun inside => digits (List.mem_of_mem_drop (List.mem_of_mem_take inside))⟩
  rw [uploadPath_eq valid, uploadName]
  simp only [List.mem_append, List.mem_cons, not_or]
  exact ⟨dirs, noSlash, digits, plain⟩

/-- A GET of the path of a stored upload behind the group serves the file. -/
theorem serves_uploadPath (opens : env.host.fault server.machine.calls = .none)
    (extensions : PlainExtensions env.config.allowExtensions) (scene : PlainScene ctx)
    (permitted : checkFileExt ctx.getForm.filename env.config.allowExtensions = true)
    (rooted : server.machine.disk.look env.config.rootDir = some .dir) {content : Bytes}
    (found : server.machine.disk.look (join env.config.rootDir (uploadPath env ctx)) =
      some (.file content))
    (sorting : RouteSort Route) (status : HttpContext → Handler Reply) :
    Serves (reply (dispatch env sorting status
      { method := .get, target := bytes "/group1/" ++ uploadPath env ctx }) server) content := by
  have group : bytes "/group1/" = bytes "/group1" ++ [47] := by decide
  have noQuery : (63 : UInt8) ∉ uploadPath env ctx :=
    not_mem_uploadPath scene.isName (by decide) (by decide) scene.noQuery
      (not_mem_extension extensions.ne_nil extensions.noQuery (by decide) permitted)
  have noFragment : (35 : UInt8) ∉ uploadPath env ctx :=
    not_mem_uploadPath scene.isName (by decide) (by decide) scene.noFragment
      (not_mem_extension extensions.ne_nil extensions.noFragment (by decide) permitted)
  have split : UrlUtils.splitTarget (bytes "/group1/" ++ uploadPath env ctx) =
      (bytes "/group1/" ++ uploadPath env ctx, []) := by
    apply UrlUtils.splitTarget_of_not_mem
    · rw [List.mem_append, not_or]
      exact ⟨by decide, noFragment⟩
    · rw [List.mem_append, not_or]
      exact ⟨by decide, noQuery⟩
  have deep : ∀ name, (47 : UInt8) ∉ name →
      (UrlUtils.splitTarget (bytes "/group1/" ++ uploadPath env ctx)).1 ≠ 47 :: name := by
    intro name plain same
    rw [split, show bytes "/group1/" = 47 :: (bytes "group1" ++ [47]) by decide] at same
    rw [← (List.cons.inj same).2] at plain
    exact plain (List.mem_append_left _ (List.mem_append_right _ (List.mem_singleton_self _)))
  rw [serves_dispatch_iff opens sorting status content deep, split, group, List.append_assoc]
  refine ⟨by rw [UrlUtils.parseQuery_nil]; rfl, List.prefix_append .., ?_⟩
  have behind : (bytes "/group1" ++ ([47] ++ uploadPath env ctx)).drop 7 =
      47 :: uploadPath env ctx := rfl
  rw [behind]
  refine ⟨List.cons_ne_nil _ _, ?_⟩
  rw [← found]
  unfold Disk.look
  rw [Disk.resolve_slash_of_look env.config.rootDir_ne_nil env.config.zero_not_mem_rootDir rooted,
    Disk.resolve_join_of_look env.config.rootDir_ne_nil env.config.zero_not_mem_rootDir rooted
      (isAbsolute_uploadPath scene.isName)]

/-- The path in the reply to an acknowledged upload. -/
theorem path_fileData (sound : FileStore.RemovesSoundly env.host) {data : Json}
    (acknowledged : Acknowledges (reply (handleUpload env ctx) server) data) :
    data.at? (bytes "path") = some (.str (uploadPath env ctx)) := by
  obtain ⟨mtime, rfl⟩ := exists_fileData_of_acknowledges sound acknowledged
  exact at?_fileData (by simp [uploadRecord])

/-- Only an upload with an allowed extension is acknowledged. -/
theorem allowed_of_acknowledges (sound : FileStore.RemovesSoundly env.host) {data : Json}
    (acknowledged : Acknowledges (reply (handleUpload env ctx) server) data) :
    checkFileExt ctx.getForm.filename env.config.allowExtensions = true := by
  cases reply_after_of_ends (@handleUpload_ends env server sound ctx) with
  | refused _ _ silent => exact absurd acknowledged (silent data)
  | failed allowed => exact allowed
  | stored allowed => exact allowed

/-- Whenever an upload to an initially empty store has been acknowledged, a GET of its
path behind the group serves its content, then and after any further uploads. -/
theorem serves_uploaded (sound : FileStore.RemovesSoundly env.host)
    (extensions : PlainExtensions env.config.allowExtensions) {start : Server}
    (empty : EmptyRoot env.config start.machine.disk) {earlier later : List HttpContext}
    (scenes : ∀ request ∈ earlier ++ ctx :: later, PlainScene request)
    (distinct : CollisionFree env.digest
      ((earlier ++ ctx :: later).map fun request => request.getForm.content))
    {data : Json} {path : Bytes}
    (acknowledged : Acknowledges
      (reply (handleUpload env ctx) (run (uploadStep env) start earlier)) data)
    (returned : data.at? (bytes "path") = some (.str path))
    (opens : env.host.fault
      (run (uploadStep env) start (earlier ++ ctx :: later)).machine.calls = .none)
    (sorting : RouteSort Route) (status : HttpContext → Handler Reply) :
    Serves (reply (dispatch env sorting status
        { method := .get, target := bytes "/group1/" ++ path })
      (run (uploadStep env) start (earlier ++ ctx :: later))) ctx.getForm.content := by
  have member {request : HttpContext} (listed : request ∈ earlier ++ ctx :: later) :
      request.getForm.content ∈
        (earlier ++ ctx :: later).map fun request => request.getForm.content :=
    List.mem_map.mpr ⟨request, listed, rfl⟩
  have here : ctx ∈ earlier ++ ctx :: later := List.mem_append_right _ List.mem_cons_self
  have archive := archive_run sound (Archive.empty empty)
    (fun request listed => scenes request (List.mem_append_left _ listed))
    (fun request listed => member (List.mem_append_left _ listed))
  have scene := scenes ctx here
  have found := look_of_acknowledges sound archive distinct scene.isName (member here) acknowledged
  rw [path_fileData sound acknowledged] at returned
  cases returned
  have split : run (uploadStep env) start (earlier ++ ctx :: later) =
      run (uploadStep env) (uploadStep env (run (uploadStep env) start earlier) ctx) later := by
    rw [run_append]
    rfl
  have rooted := (@keepsDirs_uploadStep env ctx _ sound).look_dir archive.rooted
  have later := look_run sound rooted scene.isName found fun request listed =>
    scenes request (List.mem_append_right _ (List.mem_cons_of_mem _ listed))
  rw [split] at opens ⊢
  exact serves_uploadPath opens extensions scene (allowed_of_acknowledges sound acknowledged)
    (rooted_run sound rooted _) later sorting status

/-- Nothing stands below the root directory of the sample server. -/
theorem emptyRoot_sampleServer : EmptyRoot sampleEnv.config sampleServer.machine.disk where
  rooted := by decide +kernel
  below := by
    intro names entry nonempty stored
    have shallow : ∀ entry ∈ sampleDisk.tree.entries, entry.1.length ≤ 3 := by decide +kernel
    have deep := shallow _ (OrderedMap.mem_entries_iff.mpr stored)
    have root : (location sampleServer.machine.disk.cwd sampleEnv.config.rootDir).length = 3 := by
      decide +kernel
    rw [List.length_append, root] at deep
    exact absurd (List.length_eq_zero_iff.mp (by omega)) nonempty

theorem plainExtensions_sampleEnv : PlainExtensions sampleEnv.config.allowExtensions := by
  decide +kernel

/-- The content of two scenes, the second one uploaded later. -/
theorem serves_sampleUpload : ∃ data path,
    Acknowledges (reply (handleUpload sampleEnv (sampleUpload "docs"))
      (run (uploadStep sampleEnv) sampleServer [])) data ∧
    data.at? (bytes "path") = some (.str path) ∧
    Serves (reply (dispatch sampleEnv (Router.mergeSorting _) (fun _ => return .notFound)
        { method := .get, target := bytes "/group1/" ++ path })
      (run (uploadStep sampleEnv) sampleServer
        ([] ++ sampleUpload "docs" :: [sampleUpload "photos"])))
      (sampleUpload "docs").getForm.content := by
  obtain ⟨data, acknowledged⟩ : ∃ data,
      Acknowledges (reply (handleUpload sampleEnv (sampleUpload "docs"))
        (run (uploadStep sampleEnv) sampleServer [])) data :=
    exists_acknowledges_sampleUpload
  obtain ⟨scenes, distinct⟩ :
      (∀ request ∈ [] ++ sampleUpload "docs" :: [sampleUpload "photos"], PlainScene request) ∧
      CollisionFree sampleEnv.digest (([] ++ sampleUpload "docs" :: [sampleUpload "photos"]).map
        fun request : HttpContext => request.getForm.content) := by
    decide +kernel
  have path := path_fileData sampleEnv_sound acknowledged
  exact ⟨data, _, acknowledged, path, serves_uploaded sampleEnv_sound plainExtensions_sampleEnv
    emptyRoot_sampleServer scenes distinct acknowledged path rfl _ _⟩

end FileCtl

end Cdfs
