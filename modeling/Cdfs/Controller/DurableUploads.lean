import Cdfs.Basis.Region
import Cdfs.Controller.ChunkGuard
import Cdfs.Controller.ServerRuns

/-! # Acknowledged uploads last

Whatever the server is asked for, chunks are written below the temporary directory only, and
a merge finds no directory to merge: it looks below a directory of another name, with a blank
in front, which no request creates unless an upload names it as its scene. So the files that
uploads have stored elsewhere stay, and each is served under the path of its acknowledgement
(`Cdfs.FileCtl.serves_of_requests`).
-/

namespace Cdfs

open Basis FsPath

namespace FileCtl

variable {env : Env} {sorting : RouteSort Route} {status : HttpContext → Handler Reply}
  {server : Server} {ctx : HttpContext} {contents : List Bytes}

/-! ## Chunks -/

/-- The place of the temporary directory. -/
def tempPlace (env : Env) (cwd : List Bytes) : List Bytes :=
  location cwd env.config.rootDir ++ [env.config.tempDir]

/-- The temporary directory stands below the root. -/
theorem location_tempDir (env : Env) (cwd : List Bytes) :
    location cwd (join env.config.rootDir env.config.tempDir) = tempPlace env cwd := by
  have valid : ∀ name ∈ [env.config.tempDir], IsName name :=
    List.forall_mem_singleton.mpr env.config.isName_tempDir
  exact location_join_render env.config.rootDir_ne_nil env.config.zero_not_mem_rootDir valid cwd

/-- A chunk is saved below the temporary directory. -/
theorem join_tempDir_chunkPath (env : Env) (md5 chunk : Bytes) :
    join env.config.rootDir (chunkPath env md5 chunk) =
      join env.config.rootDir env.config.tempDir ++ 47 :: (md5 ++ 47 :: chunk) := by
  have valid : ∀ name ∈ [env.config.tempDir], IsName name :=
    List.forall_mem_singleton.mpr env.config.isName_tempDir
  rw [chunkPath_cons]
  exact join_render_append valid (List.cons_ne_nil _ _) _ _

/-- What leads to the temporary directory is there, or it is this directory. -/
theorem passed_tempDir {disk : Disk} (rooted : disk.look env.config.rootDir = some .dir)
    {place : List Bytes}
    (passed : place ∈ Fs.passed disk.cwd (join env.config.rootDir env.config.tempDir)) :
    disk.node place = some .dir ∨ tempPlace env disk.cwd <+: place := by
  have valid : ∀ name ∈ [env.config.tempDir], IsName name :=
    List.forall_mem_singleton.mpr env.config.isName_tempDir
  rcases Fs.passed_join_render env.config.rootDir_ne_nil env.config.zero_not_mem_rootDir rooted valid
    (List.cons_ne_nil _ _) passed with directory | ⟨taken, some, inside, rfl⟩
  · exact .inl directory
  · right
    obtain ⟨rest, whole⟩ := inside
    cases taken with
    | nil => exact absurd rfl some
    | cons first taken =>
        obtain ⟨rfl, _⟩ := List.cons.inj whole
        exact (List.prefix_append_right_inj _).mpr (List.cons_prefix_cons.mpr ⟨rfl, List.nil_prefix⟩)

/-- Behind the temporary directory the path of a chunk that the guard lets through does not
lead up. -/
theorem ne_dots_chunk {md5 chunk : Bytes}
    (accepted : (find (chunkPath env md5 chunk) (bytes "..") 0).isSome = false) :
    ∀ name ∈ components (cString (md5 ++ 47 :: chunk)), name ≠ [46, 46] := by
  intro name member
  refine (downward_chunkPath accepted).ne_dots ?_
  have named := env.config.isName_tempDir
  have slash : cString (47 :: (md5 ++ 47 :: chunk)) = 47 :: cString (md5 ++ 47 :: chunk) := rfl
  rw [chunkPath_cons, cString_append named.2.2.2.2, slash, components_append]
  exact List.mem_append_right _ member

/-- An upload of a chunk changes nothing outside the temporary directory. -/
theorem sameOutside_handleChunkUpload (sound : FileStore.RemovesSoundly env.host)
    (rooted : server.machine.disk.look env.config.rootDir = some .dir) (ctx : HttpContext) :
    Disk.SameOutside (tempPlace env server.machine.disk.cwd) server.machine.disk
      (after (handleChunkUpload env ctx) server).machine.disk := by
  obtain ⟨_, saved⟩ := reply_after_of_ends (@handleChunkUpload_ends env server sound ctx)
  rcases saved with same | ⟨accepted, _, saving⟩
  · rw [same]
    exact .refl _ _
  · obtain ⟨number, evolved⟩ := saving.evolved
    have nonempty : join env.config.rootDir env.config.tempDir ≠ [] :=
      join_ne_nil env.config.rootDir_ne_nil _
    have plain : (0 : UInt8) ∉ join env.config.rootDir env.config.tempDir := by
      rw [join_of_relative (isAbsolute_of_not_mem env.config.isName_tempDir.2.2.2.1)]
      simp only [List.mem_append, not_or]
      refine ⟨env.config.zero_not_mem_rootDir, ?_, env.config.isName_tempDir.2.2.2.2⟩
      split <;> decide
    rw [sentPath] at accepted evolved
    generalize ctx.getForm.getParam (bytes "md5") = md5 at accepted evolved
    generalize ctx.getForm.getParam (bytes "chunk") = chunk at accepted evolved
    have down := ne_dots_chunk accepted
    rw [join_tempDir_chunkPath] at evolved
    rw [← location_tempDir]
    refine evolved.sameOutside nonempty plain down ?_ fun place passed => ?_
    · rintro place (rfl | rfl)
      · exact within_slash_of_ne_dots nonempty plain down
      · have suffix := FileStore.isName_append_temp List.not_mem_nil List.not_mem_nil number
        rw [List.nil_append] at suffix
        have long : 2 < (bytes ".tmp." ++ decimal number).length := by
          rw [List.length_append]
          exact Nat.lt_of_lt_of_le (by decide) (Nat.le_add_right ..)
        have text : FileStore.tempPath
            (join env.config.rootDir env.config.tempDir ++ 47 :: (md5 ++ 47 :: chunk)) number =
            join env.config.rootDir env.config.tempDir ++
              47 :: ((md5 ++ 47 :: chunk) ++ (bytes ".tmp." ++ decimal number)) := by
          rw [FileStore.tempPath, List.append_assoc, List.cons_append]
        rw [text]
        exact within_slash_of_ne_dots nonempty plain
          (ne_dots_append down long suffix.2.2.2.1 suffix.2.2.2.2)
    · rw [location_tempDir]
      exact passed_tempDir rooted passed

/-! ## Merges -/

/-- The directory below which a merge looks for chunks. -/
def mergeRoot (env : Env) : Bytes := 32 :: env.config.tempDir

/-- Where this directory is missing a merge finds nothing, unless it is given an absolute path. -/
theorem look_mergeDir_of_missing {disk : Disk} {md5 : Bytes}
    (missing : disk.node (location disk.cwd env.config.rootDir ++ [mergeRoot env]) = none)
    (relative : isAbsolute md5 = false) : disk.look (mergeDir env md5) = none := by
  have named : IsName (mergeRoot env) := isName_space env.config.isName_tempDir
  have front : env.config.rootDir ++ (bytes "/ " ++ env.config.tempDir) =
      env.config.rootDir ++ 47 :: mergeRoot env := by
    have blank : bytes "/ " = [47, 32] := by decide
    rw [blank]
    rfl
  have plain : (0 : UInt8) ∉ env.config.rootDir ++ 47 :: mergeRoot env := by
    simp only [List.mem_append, List.mem_cons, not_or]
    exact ⟨env.config.zero_not_mem_rootDir, by decide, named.2.2.2.2⟩
  have some : env.config.rootDir ++ 47 :: mergeRoot env ≠ [] :=
    List.append_ne_nil_of_left_ne_nil env.config.rootDir_ne_nil _
  have filename : hasFilename (env.config.rootDir ++ 47 :: mergeRoot env) = true := by
    rw [List.append_cons]
    exact hasFilename_append named.1 named.2.2.2.1 _
  rw [mergeDir, front, join_named filename relative]
  by_contra found
  obtain ⟨entry, there⟩ := Option.ne_none_iff_exists'.mp found
  have directory := Disk.node_location_of_look (Disk.look_dir_of_slash some plain there)
  rw [location_append_isName env.config.rootDir_ne_nil env.config.zero_not_mem_rootDir named,
    missing] at directory
  cases directory

/-- Then it changes nothing. -/
theorem disk_handleMerge
    (missing : server.machine.disk.node
      (location server.machine.disk.cwd env.config.rootDir ++ [mergeRoot env]) = none)
    (relative : isAbsolute (mergeMd5 ctx) = false) :
    (after (handleMerge env ctx) server).machine.disk = server.machine.disk := by
  have ended : Ends (handleMerge env ctx) server fun _ final =>
      final.machine.disk = server.machine.disk := by
    have sending {reply : Reply} {middle : Server}
        (same : middle.machine.disk = server.machine.disk) :
        Ends (send env reply) middle fun _ final => final.machine.disk = server.machine.disk :=
      (send_ends reply).mono fun _ _ ended => by rw [ended.1, same]
    unfold handleMerge
    refine Ends.ite (fun _ => sending rfl) fun _ => ?_
    apply Ends.bind (onDisk_ends (Fs.exists_ends _))
    · rintro found middle ⟨⟨same, rfl⟩, _⟩
      refine Ends.ite (fun found => ?_) fun _ => sending same
      rw [show ctx.getForm.getParam (bytes "md5") = mergeMd5 ctx from rfl,
        look_mergeDir_of_missing missing relative] at found
      cases found
    · exact fun thrown final ended => ended.1.1
  exact reply_after_of_ends ended

/-! ## Uploads -/

/-- A file with at most one dot in its name was there before an upload, or it is the file of
the upload. -/
theorem earlier_or_own (sound : FileStore.RemovesSoundly env.host)
    (rooted : server.machine.disk.look env.config.rootDir = some .dir)
    (valid : IsName (sentScene ctx)) {dirs : List Bytes} {name content : Bytes}
    (few : name.count 46 ≤ 1)
    (file : (uploadStep env server ctx).machine.disk.node
      (location server.machine.disk.cwd env.config.rootDir ++ (dirs ++ [name])) =
        some (.file content)) :
    server.machine.disk.node (location server.machine.disk.cwd env.config.rootDir ++
        (dirs ++ [name])) = some (.file content) ∨
      content = ctx.getForm.content ∧ name = cString (uploadName env ctx) := by
  have target (here : dirs ++ [name] = uploadDirs env ctx ++ [cString (uploadName env ctx)]) :
      server.machine.disk.node (location server.machine.disk.cwd env.config.rootDir ++
          (dirs ++ [name])) = some (.file content) ∨
        content = ctx.getForm.content ∧ name = cString (uploadName env ctx) := by
    rw [here, ← location_uploadPath valid] at file ⊢
    have last := (List.cons.inj (List.append_inj_right' here rfl)).1
    exact (file_uploadStep sound file).symm.imp_right fun own => ⟨own, last⟩
  cases placeAfter_uploadStep sound rooted valid
    (location server.machine.disk.cwd env.config.rootDir ++ (dirs ++ [name])) with
  | same same => exact .inl (same ▸ file)
  | created _ _ _ _ _ added =>
      rw [added] at file
      cases file
  | target here =>
      rw [List.append_assoc] at here
      exact target (List.append_cancel_left here)
  | temporary number here =>
      rw [List.append_assoc] at here
      have names := List.append_cancel_left here
      rcases cString_temporary env ctx number with same | many
      · rw [same] at names
        exact target names
      · rw [← (List.cons.inj (List.append_inj_right' names rfl)).1] at many
        omega

/-! ## The invariant -/

/-- The tree while requests are served: no directory for merges, and below the root directory,
outside the temporary one, directories at most three deep and files with at most one dot
in their names that hold the content whose MD5 the name starts with. -/
structure Housed (env : Env) (contents : List Bytes) (disk : Disk) : Prop where
  rooted : disk.look env.config.rootDir = some .dir
  unmerged : disk.node (location disk.cwd env.config.rootDir ++ [mergeRoot env]) = none
  dirs : ∀ {scene names}, scene ≠ env.config.tempDir →
    disk.node (location disk.cwd env.config.rootDir ++ scene :: names) = some .dir →
    names.length ≤ 2
  published : ∀ {scene dirs name content}, scene ≠ env.config.tempDir → name.count 46 ≤ 1 →
    disk.node (location disk.cwd env.config.rootDir ++ scene :: (dirs ++ [name])) =
      some (.file content) →
    content ∈ contents ∧ md5Hex env.digest content <+: name

namespace Housed

variable {disk after : Disk}

/-- An empty root directory without one for merges is housed. -/
theorem empty (empty : EmptyRoot env.config disk)
    (unmerged : disk.node (location disk.cwd env.config.rootDir ++ [mergeRoot env]) = none) :
    Housed env contents disk where
  rooted := empty.rooted
  unmerged := unmerged
  dirs := by
    intro scene names _ directory
    have short := (empty.below (List.cons_ne_nil _ _) directory).2
    rw [List.length_cons] at short
    omega
  published := by
    intro scene dirs name content _ _ file
    cases (empty.below (List.cons_ne_nil _ _) file).1

/-- What happens in the temporary directory does not matter. -/
theorem sameOutside (housed : Housed env contents disk)
    (same : Disk.SameOutside (tempPlace env disk.cwd) disk after) : Housed env contents after := by
  have elsewhere {scene : Bytes} (outside : scene ≠ env.config.tempDir) (names : List Bytes) :
      after.node (location disk.cwd env.config.rootDir ++ scene :: names) =
        disk.node (location disk.cwd env.config.rootDir ++ scene :: names) := by
    refine same.node _ fun inside => outside ?_
    rw [tempPlace, List.prefix_append_right_inj, List.cons_prefix_cons] at inside
    exact inside.1.symm
  have longer : mergeRoot env ≠ env.config.tempDir := List.cons_ne_self _ _
  refine ⟨same.keepsDirs.look_dir housed.rooted, ?_, ?_, ?_⟩ <;> rw [same.keepsDirs.1]
  · rw [elsewhere longer, housed.unmerged]
  · intro scene names outside directory
    rw [elsewhere outside] at directory
    exact housed.dirs outside directory
  · intro scene dirs name content outside few file
    rw [elsewhere outside] at file
    exact housed.published outside few file

/-- An upload into a single directory keeps the invariant, unless this is where merges look. -/
theorem uploadStep (sound : FileStore.RemovesSoundly env.host)
    (housed : Housed env contents server.machine.disk) (valid : IsName (sentScene ctx))
    (apart : sentScene ctx ≠ mergeRoot env) (member : ctx.getForm.content ∈ contents) :
    Housed env contents (FileCtl.uploadStep env server ctx).machine.disk := by
  have kept := @keepsDirs_uploadStep env ctx server sound
  refine ⟨kept.look_dir housed.rooted, ?_, ?_, ?_⟩ <;> rw [kept.1]
  · cases placeAfter_uploadStep sound housed.rooted valid
      (location server.machine.disk.cwd env.config.rootDir ++ [mergeRoot env]) with
    | same same => rw [same, housed.unmerged]
    | created taken nonempty inside here _ _ =>
        cases taken with
        | nil => exact absurd rfl nonempty
        | cons first taken =>
            rw [uploadDirs, List.cons_prefix_cons] at inside
            have scene := (List.cons.inj (List.append_cancel_left here)).1
            exact absurd (scene.trans inside.1).symm apart
    | target here =>
        rw [List.append_assoc] at here
        exact absurd (congrArg List.length (List.append_cancel_left here)) (by simp [uploadDirs])
    | temporary number here =>
        rw [List.append_assoc] at here
        exact absurd (congrArg List.length (List.append_cancel_left here)) (by simp [uploadDirs])
  · intro scene names outside directory
    rcases newDirs_uploadStep sound housed.rooted valid directory with
      earlier | ⟨taken, _, inside, here⟩
    · exact housed.dirs outside earlier
    · rw [← List.append_cancel_left here] at inside
      exact Nat.le_of_succ_le_succ inside.length_le
  · intro scene dirs name content outside few file
    rw [← List.cons_append] at file
    rcases earlier_or_own sound housed.rooted valid few file with earlier | ⟨rfl, own⟩
    · exact housed.published outside few earlier
    · rw [own, cString_uploadName]
      exact ⟨member, List.prefix_append ..⟩

/-- What stands at the place of an upload holds the content of the upload. -/
theorem eq_file (housed : Housed env contents disk) (distinct : CollisionFree env.digest contents)
    (member : ctx.getForm.content ∈ contents) (outside : sentScene ctx ≠ env.config.tempDir)
    {entry : Node}
    (stored : disk.node (location disk.cwd env.config.rootDir ++
      (uploadDirs env ctx ++ [cString (uploadName env ctx)])) = some entry) :
    entry = .file ctx.getForm.content := by
  cases entry with
  | dir =>
      have deep := housed.dirs outside stored
      simp at deep
  | file content =>
      obtain ⟨known, front⟩ :=
        housed.published outside (count_dots_cString_uploadName env ctx) stored
      rw [cString_uploadName] at front
      have same : md5Hex env.digest content = md5Hex env.digest ctx.getForm.content := by
        have short := List.prefix_of_prefix_length_le front (List.prefix_append ..)
          (by rw [length_md5Hex, length_md5Hex])
        exact short.eq_of_length (by rw [length_md5Hex, length_md5Hex])
      rw [distinct content known _ member (md5Hex_injective same)]

end Housed

/-- An acknowledged upload is found under its path. -/
theorem look_of_housed (sound : FileStore.RemovesSoundly env.host)
    (housed : Housed env contents server.machine.disk)
    (distinct : CollisionFree env.digest contents) (valid : IsName (sentScene ctx))
    (outside : sentScene ctx ≠ env.config.tempDir) (member : ctx.getForm.content ∈ contents)
    {data : Json} (acknowledged : Acknowledges (reply (handleUpload env ctx) server) data) :
    (uploadStep env server ctx).machine.disk.look (join env.config.rootDir (uploadPath env ctx)) =
      some (.file ctx.getForm.content) := by
  have storing := storing_of_acknowledges sound acknowledged
  have held {entry : Node} (stored : server.machine.disk.node (location server.machine.disk.cwd
      (join env.config.rootDir (uploadPath env ctx))) = some entry) :
      entry = .file ctx.getForm.content := by
    rw [location_uploadPath valid] at stored
    exact housed.eq_file distinct member outside stored
  rcases (storing.found _ rfl).2 with ⟨same, present⟩ | ⟨_, content, there, _, origin⟩
  · obtain ⟨entry, found⟩ := Option.isSome_iff_exists.mp present
    rw [same, found, held (Disk.node_location_of_look found)]
  · rcases origin with rfl | earlier
    · exact there
    · rw [there, held earlier]

/-! ## Runs of requests -/

/-- The request keeps to the tree of the store: an upload names a single directory as its
scene, and not the one where merges look, and a merge no absolute path as MD5. -/
@[mk_iff]
structure TameRequest (env : Env) (sorting : RouteSort Route) (request : HttpRequest) : Prop where
  upload : ∀ {ctx}, routed sorting request = some (.upload, ctx) →
    IsName (sentScene ctx) ∧ sentScene ctx ≠ mergeRoot env
  merge : ∀ {ctx}, routed sorting request = some (.merge, ctx) → isAbsolute (mergeMd5 ctx) = false

instance (env : Env) (sorting : RouteSort Route) (request : HttpRequest) :
    Decidable (TameRequest env sorting request) :=
  decidable_of_iff _ (tameRequest_iff env sorting request).symm

/-- The content of a request for an upload. -/
def uploadedContent (sorting : RouteSort Route) (request : HttpRequest) : Option Bytes :=
  match routed sorting request with
  | some (.upload, ctx) => some ctx.getForm.content
  | _ => none

/-- The content of an upload. -/
theorem uploadedContent_of_routed {request : HttpRequest}
    (found : routed sorting request = some (.upload, ctx)) :
    uploadedContent sorting request = some ctx.getForm.content := by
  rw [uploadedContent, found]

/-- A request that is acknowledged has its upload acknowledged. -/
theorem acknowledges_of_routed {request : HttpRequest}
    (found : routed sorting request = some (.upload, ctx)) {data : Json}
    (acknowledged : Acknowledges (reply (dispatch env sorting status request) server) data) :
    Acknowledges (reply (handleUpload env ctx) server) data := by
  rw [dispatch_of_routed found] at acknowledged
  exact acknowledged

/-- A request is an upload, or changes nothing outside the temporary directory. -/
theorem upload_or_sameOutside (sound : FileStore.RemovesSoundly env.host) (reads : ReadsOnly status)
    (housed : Housed env contents server.machine.disk) {request : HttpRequest}
    (tame : TameRequest env sorting request) :
    (∃ ctx, routed sorting request = some (.upload, ctx) ∧
      serverStep env sorting status server request = uploadStep env server ctx) ∨
    Disk.SameOutside (tempPlace env server.machine.disk.cwd) server.machine.disk
      (serverStep env sorting status server request).machine.disk := by
  have step {route : Route} {ctx : HttpContext} (found : routed sorting request = some (route, ctx)) :
      serverStep env sorting status server request = after (handle env status ctx route) server := by
    rw [serverStep, dispatch_of_routed found]
  by_cases only : OnlyReads sorting request
  · rw [(@sameContents_serverStep env sorting status reads request only server).disk]
    exact .inr (.refl _ _)
  · simp only [OnlyReads, not_forall, not_and_or, not_not] at only
    obtain ⟨route, ctx, found, upload | chunkUpload | merge⟩ := only
    · subst upload
      exact .inl ⟨ctx, found, step found⟩
    · subst chunkUpload
      right
      rw [step found]
      exact sameOutside_handleChunkUpload sound housed.rooted ctx
    · subst merge
      right
      rw [step found]
      have same := @disk_handleMerge env server ctx housed.unmerged (tame.merge found)
      exact same.symm ▸ .refl _ _

/-- A tame request keeps the tree housed. -/
theorem Housed.serverStep (sound : FileStore.RemovesSoundly env.host) (reads : ReadsOnly status)
    (housed : Housed env contents server.machine.disk) {request : HttpRequest}
    (tame : TameRequest env sorting request)
    (members : ∀ content ∈ uploadedContent sorting request, content ∈ contents) :
    Housed env contents (FileCtl.serverStep env sorting status server request).machine.disk := by
  rcases upload_or_sameOutside sound reads housed tame with ⟨ctx, found, upload⟩ | same
  · obtain ⟨valid, apart⟩ := tame.upload found
    rw [upload]
    exact housed.uploadStep sound valid apart (members _ (uploadedContent_of_routed found))
  · exact housed.sameOutside same

/-- Tame requests keep the tree housed. -/
theorem Housed.serverRun (sound : FileStore.RemovesSoundly env.host) (reads : ReadsOnly status)
    (housed : Housed env contents server.machine.disk) {requests : List HttpRequest}
    (tame : ∀ request ∈ requests, TameRequest env sorting request)
    (members : ∀ request ∈ requests, ∀ content ∈ uploadedContent sorting request, content ∈ contents) :
    Housed env contents (FileCtl.serverRun env sorting status server requests).machine.disk := by
  induction requests generalizing server with
  | nil => exact housed
  | cons request requests ih =>
      rw [List.forall_mem_cons] at tame members
      exact ih (housed.serverStep sound reads tame.1 members.1) tame.2 members.2

/-- A later request leaves an acknowledged upload where it is. -/
theorem look_serverStep (sound : FileStore.RemovesSoundly env.host) (reads : ReadsOnly status)
    (housed : Housed env contents server.machine.disk) {request : HttpRequest}
    (tame : TameRequest env sorting request) (valid : IsName (sentScene ctx))
    (outside : sentScene ctx ≠ env.config.tempDir) {content : Bytes}
    (found : server.machine.disk.look (join env.config.rootDir (uploadPath env ctx)) =
      some (.file content)) :
    (serverStep env sorting status server request).machine.disk.look
      (join env.config.rootDir (uploadPath env ctx)) = some (.file content) := by
  rcases upload_or_sameOutside sound reads housed tame with ⟨later, routed, upload⟩ | same
  · rw [upload]
    exact look_uploadStep sound housed.rooted valid (tame.upload routed).1 found
  · refine same.look_file (fun inside => outside ?_) found
    rw [location_uploadPath valid, tempPlace, List.prefix_append_right_inj, uploadDirs,
      List.cons_append, List.cons_prefix_cons] at inside
    exact inside.1.symm

/-- An uploaded file stays where it is through tame requests. -/
theorem look_serverRun (sound : FileStore.RemovesSoundly env.host) (reads : ReadsOnly status)
    (housed : Housed env contents server.machine.disk) {requests : List HttpRequest}
    (tame : ∀ request ∈ requests, TameRequest env sorting request)
    (members : ∀ request ∈ requests, ∀ content ∈ uploadedContent sorting request, content ∈ contents)
    (valid : IsName (sentScene ctx)) (outside : sentScene ctx ≠ env.config.tempDir) {content : Bytes}
    (found : server.machine.disk.look (join env.config.rootDir (uploadPath env ctx)) =
      some (.file content)) :
    (serverRun env sorting status server requests).machine.disk.look
      (join env.config.rootDir (uploadPath env ctx)) = some (.file content) := by
  induction requests generalizing server with
  | nil => exact found
  | cons request requests ih =>
      rw [List.forall_mem_cons] at tame members
      exact ih (housed.serverStep sound reads tame.1 members.1) tame.2 members.2
        (look_serverStep sound reads housed tame.1 valid outside found)

/-- **Acknowledged uploads last.** Whenever an upload to an initially empty store has been
acknowledged, a GET of its path behind the group serves its content, then and after any
further requests, whatever these are for and whatever of them fails. -/
theorem serves_of_requests (sound : FileStore.RemovesSoundly env.host) (reads : ReadsOnly status)
    (extensions : PlainExtensions env.config.allowExtensions) {start : Server}
    (empty : EmptyRoot env.config start.machine.disk)
    (unmerged : start.machine.disk.node
      (location start.machine.disk.cwd env.config.rootDir ++ [mergeRoot env]) = none)
    {earlier later : List HttpRequest} {request : HttpRequest}
    (tame : ∀ other ∈ earlier ++ request :: later, TameRequest env sorting other)
    (upload : routed sorting request = some (.upload, ctx)) (scene : PlainScene ctx)
    (outside : sentScene ctx ≠ env.config.tempDir)
    (distinct : CollisionFree env.digest
      ((earlier ++ request :: later).filterMap (uploadedContent sorting)))
    {data : Json} {path : Bytes}
    (acknowledged : Acknowledges (reply (dispatch env sorting status request)
      (serverRun env sorting status start earlier)) data)
    (returned : data.at? (bytes "path") = some (.str path))
    (opens : env.host.fault (serverRun env sorting status start
      (earlier ++ request :: later)).machine.calls = .none) :
    Serves (reply (dispatch env sorting status
        { method := .get, target := bytes "/group1/" ++ path })
      (serverRun env sorting status start (earlier ++ request :: later))) ctx.getForm.content := by
  have split : serverRun env sorting status start (earlier ++ request :: later) =
      serverRun env sorting status (serverStep env sorting status
        (serverRun env sorting status start earlier) request) later := by
    rw [serverRun, run_append]
    rfl
  have members : ∀ other ∈ earlier ++ request :: later, ∀ content ∈ uploadedContent sorting other,
      content ∈ (earlier ++ request :: later).filterMap (uploadedContent sorting) :=
    fun other listed content brought => List.mem_filterMap.mpr ⟨other, listed, brought⟩
  rw [List.forall_mem_append, List.forall_mem_cons] at tame members
  obtain ⟨tameBefore, tameHere, tameAfter⟩ := tame
  obtain ⟨membersBefore, membersHere, membersAfter⟩ := members
  have member := membersHere _ (uploadedContent_of_routed upload)
  have before := (Housed.empty empty unmerged).serverRun sound reads tameBefore membersBefore
  have housed := before.serverStep sound reads tameHere membersHere
  have step : serverStep env sorting status (serverRun env sorting status start earlier) request =
      uploadStep env (serverRun env sorting status start earlier) ctx := by
    rw [serverStep, dispatch_of_routed upload]
    rfl
  have acknowledged := acknowledges_of_routed upload acknowledged
  have found := look_of_housed sound before distinct scene.isName outside member acknowledged
  rw [← step] at found
  rw [path_fileData sound acknowledged] at returned
  cases returned
  rw [split] at opens ⊢
  exact serves_uploadPath opens extensions scene (allowed_of_acknowledges sound acknowledged)
    (housed.serverRun sound reads tameAfter membersAfter).rooted
    (look_serverRun sound reads housed tameAfter membersAfter scene.isName outside found) sorting
    status

/-- A chunk comes before the upload, and its merge and another upload of the content after it. -/
theorem serves_of_sampleRequests :
    let chunk := chunkRequest "5d41402abc4b2a76b9719d911017c592" "0" "other"
    let earlier := [formRequest .get "/upload_chunk" chunk]
    let request := formRequest .post "/upload" (sampleUpload "docs")
    let later := [formRequest .post "/merge" chunk, formRequest .post "/upload" (sampleUpload "photos")]
    ∃ data path,
      Acknowledges (reply (dispatch sampleEnv (Router.mergeSorting _) sampleStatus request)
        (serverRun sampleEnv (Router.mergeSorting _) sampleStatus sampleServer earlier)) data ∧
      data.at? (bytes "path") = some (.str path) ∧
      Serves (reply (dispatch sampleEnv (Router.mergeSorting _) sampleStatus
          { method := .get, target := bytes "/group1/" ++ path })
        (serverRun sampleEnv (Router.mergeSorting _) sampleStatus sampleServer
          (earlier ++ request :: later)))
        (sampleUpload "docs").getForm.content := by
  intro chunk earlier request later
  obtain ⟨tame, distinct⟩ :
      (∀ other ∈ earlier ++ request :: later,
        TameRequest sampleEnv (Router.mergeSorting _) other) ∧
      CollisionFree sampleEnv.digest ((earlier ++ request :: later).filterMap
        (uploadedContent (Router.mergeSorting _))) := by
    decide +kernel
  obtain ⟨unmerged, scenes⟩ :
      sampleServer.machine.disk.node (location sampleServer.machine.disk.cwd
        sampleEnv.config.rootDir ++ [mergeRoot sampleEnv]) = none ∧
      ∀ found ∈ routed (Router.mergeSorting _) request,
        PlainScene found.2 ∧ sentScene found.2 ≠ sampleEnv.config.tempDir := by
    decide +kernel
  have upload : routed (Router.mergeSorting _) request = some (.upload, _) := rfl
  obtain ⟨scene, outside⟩ := scenes _ upload
  obtain ⟨data, acknowledged⟩ := @exists_acknowledges
    (reply (dispatch sampleEnv (Router.mergeSorting _) sampleStatus request)
      (serverRun sampleEnv (Router.mergeSorting _) sampleStatus sampleServer earlier))
    (by decide +kernel)
  have returned := path_fileData sampleEnv_sound (acknowledges_of_routed upload acknowledged)
  have calm (calls : Nat) : sampleEnv.host.fault calls = .none := rfl
  exact ⟨data, _, acknowledged, returned, serves_of_requests sampleEnv_sound readsOnly_sampleStatus
    plainExtensions_sampleEnv emptyRoot_sampleServer unmerged tame upload scene outside distinct
    acknowledged returned (calm _)⟩

end FileCtl

end Cdfs
