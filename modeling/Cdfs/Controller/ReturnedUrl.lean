import Cdfs.Controller.Download
import Cdfs.Controller.UploadPlaces
import Cdfs.Http.Dispatch

/-! # The URL of an upload

The reply to an upload gives the path of the file behind the domain as its URL, without
the group; files are served under `/group1` only. So the URL leads nowhere, unless the
scene happens to start with the name of the group: then it leads beside the stored file.
`Cdfs.FileCtl.serves_url_iff` says exactly when it serves the content that was uploaded.
-/

namespace Cdfs

open Basis FsPath

namespace FileCtl

variable {env : Env} {ctx : HttpContext} {server : Server}

/-! ## Beside the stored file -/

/-- The head of a name is a hexadecimal digit. -/
def StartsHex (name : Bytes) : Prop := ∃ digit rest, name = digit :: rest ∧ isHexDigit digit = true

/-- A path that starts with digits. -/
theorem startsHex_append {name : Bytes} (nonempty : name ≠ [])
    (hex : ∀ byte ∈ name, isHexDigit byte = true) (rest : Bytes) : StartsHex (name ++ rest) := by
  obtain ⟨digit, tail, rfl⟩ := List.exists_cons_of_ne_nil nonempty
  exact ⟨digit, tail ++ rest, rfl, hex digit List.mem_cons_self⟩

/-- The directories of an MD5 start with digits. -/
theorem startsHex_md5_part (digest : Bytes → Digest) (data : Bytes) {from_ : Nat}
    (inside : from_ < 32) : StartsHex (((md5Hex digest data).drop from_).take 2) := by
  have whole := startsHex_append (isName_md5_part digest data inside).1 (fun byte member =>
    isHexDigit_of_mem_md5Hex (List.mem_of_mem_drop (List.mem_of_mem_take member))) []
  rwa [List.append_nil] at whole

/-- What starts with a digit is not the group. -/
theorem StartsHex.ne_group {name rest : Bytes} (hex : StartsHex name) :
    name ≠ bytes "group1" ++ rest := by
  obtain ⟨digit, tail, rfl, isDigit⟩ := hex
  intro same
  have head : digit = 103 := (List.cons.inj same).1
  rw [head] at isDigit
  exact absurd isDigit (by decide)

/-- What starts with a digit does not start with a dot. -/
theorem StartsHex.ne_dot {name rest : Bytes} (hex : StartsHex name) : name ≠ 46 :: rest := by
  obtain ⟨digit, tail, rfl, isDigit⟩ := hex
  intro same
  rw [(List.cons.inj same).1] at isDigit
  exact absurd isDigit (by decide)

/-- With a text behind its last component a path hardly ever leads below itself: only from
`..` does it, to an entry of a directory beside. -/
theorem between_of_enter_append {above between : List Bytes} {name rest scene : Bytes}
    (long : 2 + rest.length < scene.length)
    (same : enter above (name ++ rest) = enter above name ++ scene :: between) :
    between = [46 :: 46 :: rest] := by
  have lengths := congrArg List.length same
  rw [List.length_append, List.length_cons] at lengths
  by_cases stays : name = [] ∨ name = [46]
  · have short : name.length ≤ 1 := by
      rcases stays with rfl | rfl
      · decide
      · decide
    rw [show enter above name = above by rw [enter, if_pos stays]] at same
    unfold enter at same
    split at same
    · have longer := congrArg List.length same
      rw [List.length_append, List.length_cons] at longer
      omega
    · split at same
      · have longer := congrArg List.length same
        rw [List.length_append, List.length_cons, List.length_dropLast] at longer
        omega
      · obtain ⟨whole, _⟩ := List.cons.inj (List.append_cancel_left same)
        rw [← whole, List.length_append] at long
        omega
  · by_cases up : name = [46, 46]
    · subst up
      by_cases empty : rest = []
      · subst empty
        rw [List.append_nil] at lengths
        omega
      · have named : [46, 46] ++ rest ≠ [46, 46] := by simpa using empty
        have down : enter above ([46, 46] ++ rest) = above ++ [46 :: 46 :: rest] := by
          unfold enter
          rw [if_neg (by simp), if_neg named]
          rfl
        rw [down, show enter above [46, 46] = above.dropLast from rfl] at same
        rcases List.eq_nil_or_concat' above with rfl | ⟨front, final, rfl⟩
        · obtain ⟨whole, _⟩ := List.cons.inj (show [46 :: 46 :: rest] = scene :: between from same)
          rw [← whole, List.length_cons, List.length_cons] at long
          omega
        · rw [List.dropLast_concat, List.append_assoc] at same
          exact (List.cons.inj (List.append_cancel_left same)).2.symm
    · have nonempty : name ≠ [] := fun empty => stays (.inl empty)
      have whole : enter above name = above ++ [name] := by
        rw [enter, if_neg stays, if_neg up]
      have short : (enter above (name ++ rest)).length ≤ above.length + 1 := by
        unfold enter
        split
        · omega
        · split
          · rw [List.length_dropLast]
            omega
          · rw [List.length_append]
            rfl
      rw [whole, List.length_append, List.length_singleton] at lengths
      omega

/-- With the rest of the scene put behind the root directory, one comes to directories
other than those of the upload. -/
theorem beside_ne {root rest first second third : Bytes} (plain : (0 : UInt8) ∉ root)
    (noSlash : (47 : UInt8) ∉ rest) (noZero : (0 : UInt8) ∉ rest) (firstHex : StartsHex first)
    (secondHex : StartsHex second) (thirdHex : StartsHex third) (cwd : List Bytes)
    {walked taken : List Bytes} {last : Bytes} (walk : walked <+: [first, second, third])
    (nonempty : taken ≠ []) (take : taken <+: [bytes "group1" ++ rest, first, second, last]) :
    location cwd (root ++ rest) ++ walked ≠ location cwd root ++ taken := by
  let scene := bytes "group1" ++ rest
  have length : scene.length = 6 + rest.length := by
    rw [List.length_append]
    rfl
  have outside : scene ∉ walked := by
    intro member
    have inside := walk.subset member
    simp only [List.mem_cons, List.not_mem_nil, or_false] at inside
    rcases inside with same | same | same
    · exact firstHex.ne_group same.symm
    · exact secondHex.ne_group same.symm
    · exact thirdHex.ne_group same.symm
  obtain ⟨next, later, rfl⟩ := List.exists_cons_of_ne_nil nonempty
  obtain ⟨rfl, inner⟩ := List.cons_prefix_cons.mp take
  intro same
  -- the scene is a component of the place in front of the walk
  obtain ⟨between, front, following⟩ : ∃ between,
      location cwd (root ++ rest) = location cwd root ++ scene :: between ∧
      later = between ++ walked := by
    rcases List.append_eq_append_iff.mp same with ⟨more, _, whole⟩ | ⟨more, whole, split⟩
    · exact absurd (whole ▸ List.mem_append_right _ List.mem_cons_self) outside
    · cases more with
      | nil =>
          rw [List.nil_append] at split
          exact absurd (split ▸ List.mem_cons_self) outside
      | cons head tail =>
          obtain ⟨rfl, following⟩ := List.cons.inj split
          exact ⟨tail, whole, following⟩
  obtain ⟨above, here, beside⟩ := exists_location_enter plain noSlash noZero cwd
  rw [here, beside] at front
  obtain rfl := between_of_enter_append (by omega) front
  obtain ⟨tail, whole⟩ := inner
  rw [following] at whole
  exact firstHex.ne_dot (List.cons.inj whole).1.symm

/-! ## The target of the URL -/

/-- The part of the URL of an upload behind the domain. -/
def urlTarget (env : Env) (ctx : HttpContext) : Bytes := 47 :: uploadPath env ctx

/-- The last name of the path of the URL: a `#` or `?` in the extension ends it. -/
def urlName (env : Env) (ctx : HttpContext) : Bytes :=
  md5Hex env.digest ctx.getForm.content ++
    ((extension ctx.getForm.filename).takeWhile (· ≠ 35)).takeWhile (· ≠ 63)

/-- The names of the path of the URL below the scene. -/
def urlNames (env : Env) (ctx : HttpContext) : List Bytes :=
  [(md5Hex env.digest ctx.getForm.content).take 2,
    ((md5Hex env.digest ctx.getForm.content).drop 2).take 2, urlName env ctx]

/-- The path of the URL. -/
theorem splitTarget_urlTarget (valid : IsName (sentScene ctx))
    (noFragment : (35 : UInt8) ∉ sentScene ctx) (noQuery : (63 : UInt8) ∉ sentScene ctx) :
    (UrlUtils.splitTarget (urlTarget env ctx)).1 =
      47 :: (sentScene ctx ++ 47 :: render (urlNames env ctx)) := by
  let md5 := md5Hex env.digest ctx.getForm.content
  let front := 47 :: (sentScene ctx ++ 47 :: (md5.take 2 ++ 47 :: ((md5.drop 2).take 2 ++ 47 :: md5)))
  have whole : urlTarget env ctx = front ++ extension ctx.getForm.filename := by
    rw [urlTarget, uploadPath_eq valid]
    simp only [uploadDirs, uploadName, render, List.append_assoc, List.cons_append, front, md5]
  have kept {byte : UInt8} (separator : isHexDigit byte = false) (noSlash : byte ≠ 47)
      (absent : byte ∉ sentScene ctx) : ∀ other ∈ front, decide (other ≠ byte) = true := by
    have digits : byte ∉ md5 := fun member => by
      rw [isHexDigit_of_mem_md5Hex member] at separator
      cases separator
    intro other member
    refine decide_eq_true ?_
    rintro rfl
    simp only [front, List.mem_cons, List.mem_append] at member
    rcases member with same | inside | same | inside | same | inside | same | inside
    · exact noSlash same
    · exact absent inside
    · exact noSlash same
    · exact digits (List.mem_of_mem_take inside)
    · exact noSlash same
    · exact digits (List.mem_of_mem_drop (List.mem_of_mem_take inside))
    · exact noSlash same
    · exact digits inside
  rw [UrlUtils.splitTarget_fst, whole,
    List.takeWhile_append_of_pos (kept (by decide) (by decide) noFragment),
    List.takeWhile_append_of_pos (kept (by decide) (by decide) noQuery)]
  simp only [front, md5, urlNames, urlName, render, List.append_assoc, List.cons_append]

/-- A name is a prefix of a path if it is one of its first component. -/
theorem prefix_append_slash_iff {name first rest : Bytes} (plain : (47 : UInt8) ∉ name) :
    name <+: first ++ 47 :: rest ↔ name <+: first := by
  constructor
  · intro front
    rcases Nat.le_total name.length first.length with short | long
    · exact List.prefix_of_prefix_length_le front (List.prefix_append ..) short
    · rcases Nat.eq_or_lt_of_le long with same | longer
      · exact List.prefix_of_prefix_length_le front (List.prefix_append ..) (Nat.le_of_eq same.symm)
      · have slash : first ++ [47] <+: name := by
          refine List.prefix_of_prefix_length_le ⟨rest, ?_⟩ front ?_
          · rw [List.append_assoc, List.singleton_append]
          · rw [List.length_append]
            exact longer
        exact absurd (slash.subset (List.mem_append_right _ List.mem_cons_self)) plain
  · exact fun front => front.trans (List.prefix_append ..)

section Target

variable (valid : IsName (sentScene ctx)) (noFragment : (35 : UInt8) ∉ sentScene ctx)
  (noQuery : (63 : UInt8) ∉ sentScene ctx)

include valid noFragment noQuery

/-- The URL goes down into the scene. -/
theorem urlTarget_deep (name : Bytes) (plain : (47 : UInt8) ∉ name) :
    (UrlUtils.splitTarget (urlTarget env ctx)).1 ≠ 47 :: name := by
  intro same
  rw [splitTarget_urlTarget valid noFragment noQuery] at same
  rw [← (List.cons.inj same).2] at plain
  exact plain (List.mem_append_right _ List.mem_cons_self)

/-- The URL is routed to the download if the scene starts with the group. -/
theorem group_urlTarget_iff :
    bytes "/group1" <+: (UrlUtils.splitTarget (urlTarget env ctx)).1 ↔
      bytes "group1" <+: sentScene ctx := by
  rw [splitTarget_urlTarget valid noFragment noQuery,
    show bytes "/group1" = 47 :: bytes "group1" by decide, List.cons_prefix_cons,
    prefix_append_slash_iff (by decide)]
  exact and_iff_right rfl

end Target

/-- The names of the path of the URL as the system sees them. -/
theorem components_cString_urlNames (env : Env) (ctx : HttpContext) : ∃ last,
    components (cString (render (urlNames env ctx))) =
      [(md5Hex env.digest ctx.getForm.content).take 2,
        ((md5Hex env.digest ctx.getForm.content).drop 2).take 2, last] ∧
    IsName last ∧ StartsHex last := by
  let md5 := md5Hex env.digest ctx.getForm.content
  let tail := ((extension ctx.getForm.filename).takeWhile (· ≠ 35)).takeWhile (· ≠ 63)
  have first := isName_md5_part env.digest ctx.getForm.content (by decide : 0 < 32)
  have second := isName_md5_part env.digest ctx.getForm.content (by decide : 2 < 32)
  rw [List.drop_zero] at first
  have hex := isName_md5Hex env.digest ctx.getForm.content
  have noSlash : (47 : UInt8) ∉ cString tail := fun slash => slash_not_mem_extension _
    ((List.takeWhile_prefix _).subset ((List.takeWhile_prefix _).subset
      ((List.takeWhile_prefix _).subset slash)))
  have valid : IsName (md5 ++ cString tail) := isName_md5Hex_append noSlash (not_mem_cString _)
  have front : (0 : UInt8) ∉ md5.take 2 ++ 47 :: ((md5.drop 2).take 2 ++ 47 :: md5) := by
    simp only [List.mem_append, List.mem_cons, not_or]
    exact ⟨first.2.2.2.2, by decide, second.2.2.2.2, by decide, hex.2.2.2.2⟩
  have text : render (urlNames env ctx) =
      (md5.take 2 ++ 47 :: ((md5.drop 2).take 2 ++ 47 :: md5)) ++ tail := by
    simp only [urlNames, urlName, render, List.append_assoc, List.cons_append, md5, tail]
  have cut : (md5.take 2 ++ 47 :: ((md5.drop 2).take 2 ++ 47 :: md5)) ++ cString tail =
      render [md5.take 2, (md5.drop 2).take 2, md5 ++ cString tail] := by
    simp only [render, List.append_assoc, List.cons_append]
  refine ⟨md5 ++ cString tail, ?_, valid,
    startsHex_append hex.1 (fun _ => isHexDigit_of_mem_md5Hex) _⟩
  rw [text, cString_append front, cut]
  refine components_render (List.cons_ne_nil _ _) ?_
  simp only [List.mem_cons, List.not_mem_nil, or_false, forall_eq_or_imp, forall_eq]
  exact ⟨first.2.2.2.1, second.2.2.2.1, valid.2.2.2.1⟩

/-- The upload does not change what the URL leads to. -/
theorem look_url_uploadStep (sound : FileStore.RemovesSoundly env.host)
    (rooted : server.machine.disk.look env.config.rootDir = some .dir)
    (valid : IsName (sentScene ctx)) {rest : Bytes} (scene : sentScene ctx = bytes "group1" ++ rest) :
    (uploadStep env server ctx).machine.disk.look
        (env.config.rootDir ++ (rest ++ 47 :: render (urlNames env ctx))) =
      server.machine.disk.look
        (env.config.rootDir ++ (rest ++ 47 :: render (urlNames env ctx))) := by
  let before := server.machine.disk
  let after := (uploadStep env server ctx).machine.disk
  let start := location before.cwd (env.config.rootDir ++ rest)
  have plainRoot := env.config.zero_not_mem_rootDir
  have noSlash : (47 : UInt8) ∉ rest := fun slash =>
    valid.2.2.2.1 (scene ▸ List.mem_append_right _ slash)
  have noZero : (0 : UInt8) ∉ rest := fun zero =>
    valid.2.2.2.2 (scene ▸ List.mem_append_right _ zero)
  have plain : (0 : UInt8) ∉ env.config.rootDir ++ rest := by
    rw [List.mem_append, not_or]
    exact ⟨plainRoot, noZero⟩
  have nonempty : env.config.rootDir ++ rest ≠ [] :=
    List.append_ne_nil_of_left_ne_nil env.config.rootDir_ne_nil _
  have resolved : before.resolve (env.config.rootDir ++ rest) = some start := by
    obtain ⟨place, root, _⟩ := Option.bind_eq_some_iff.mp rooted
    have goesOn : (before.resolve (env.config.rootDir ++ rest)).isSome = true := by
      rw [Disk.isSome_resolve_append env.config.rootDir_ne_nil plainRoot noSlash noZero, root]
      rfl
    obtain ⟨found, resolved⟩ := Option.isSome_iff_exists.mp goesOn
    rw [resolved, Disk.location_of_resolve resolved]
  obtain ⟨last, parts, validLast, lastHex⟩ := components_cString_urlNames env ctx
  have firstName := isName_md5_part env.digest ctx.getForm.content (by decide : 0 < 32)
  have secondName := isName_md5_part env.digest ctx.getForm.content (by decide : 2 < 32)
  have firstHex := startsHex_md5_part env.digest ctx.getForm.content (by decide : 0 < 32)
  have secondHex := startsHex_md5_part env.digest ctx.getForm.content (by decide : 2 < 32)
  rw [List.drop_zero] at firstName firstHex
  have same : ∀ front, front <+: components (cString (render (urlNames env ctx))) →
      after.node (start ++ front) = before.node (start ++ front) := by
    intro front taken
    rw [parts] at taken
    have apart {last : Bytes} {dirs : List Bytes} (some : dirs ≠ [])
        (inside : dirs <+: uploadDirs env ctx ++ [last])
        (here : start ++ front = location before.cwd env.config.rootDir ++ dirs) : False := by
      rw [uploadDirs, scene] at inside
      exact beside_ne plainRoot noSlash noZero firstHex secondHex lastHex _ taken some inside here
    cases placeAfter_uploadStep sound rooted valid (start ++ front) with
    | same same => exact same
    | created dirs some inside here _ _ =>
        exact (apart some (inside.trans (List.prefix_append _ [[]])) here).elim
    | target here =>
        rw [List.append_assoc] at here
        exact (apart (List.cons_ne_nil _ _) (List.prefix_refl _) here).elim
    | temporary number here =>
        rw [List.append_assoc] at here
        exact (apart (List.cons_ne_nil _ _) (List.prefix_refl _) here).elim
  have names : ∀ name ∈ components (cString (render (urlNames env ctx))), IsName name := by
    rw [parts]
    simp only [List.mem_cons, List.not_mem_nil, or_false, forall_eq_or_imp, forall_eq]
    exact ⟨firstName, secondName, validLast⟩
  rw [← List.append_assoc]
  change (after.resolve _).bind after.node = (before.resolve _).bind before.node
  rw [Disk.resolve_slash _ nonempty plain, Disk.resolve_slash _ nonempty plain, resolved,
    (keepsDirs_uploadStep sound).resolve resolved, Option.bind_some, Option.bind_some,
    Disk.walk_congr names same]
  cases walked : before.walk start (components (cString (render (urlNames env ctx)))) with
  | none => rfl
  | some place =>
      have there := Disk.eq_foldl_of_walk walked
      rw [foldl_enter names] at there
      rw [Option.bind_some, Option.bind_some, there]
      exact same _ (List.prefix_refl _)

/-- The URL of the upload leads to a file with the uploaded content: the scene starts with
the group, what the extension puts into the query can be parsed, and the file stands at
the root directory followed by the rest of the path of the URL. -/
@[mk_iff]
structure CopyAtUrl (env : Env) (ctx : HttpContext) (disk : Disk) : Prop where
  group : bytes "group1" <+: sentScene ctx
  query : (UrlUtils.parseQuery (UrlUtils.splitTarget (urlTarget env ctx)).2).isOk = true
  copy : disk.look (env.config.rootDir ++ (UrlUtils.splitTarget (urlTarget env ctx)).1.drop 7) =
    some (.file ctx.getForm.content)

instance (env : Env) (ctx : HttpContext) (disk : Disk) : Decidable (CopyAtUrl env ctx disk) :=
  decidable_of_iff _ (copyAtUrl_iff env ctx disk).symm

/-- The URL in the reply to an acknowledged upload. -/
theorem url_fileData {data : Json} (sound : FileStore.RemovesSoundly env.host)
    (acknowledged : Acknowledges (reply (handleUpload env ctx) server) data) :
    data.at? (bytes "url") = some (.str (env.metaConfig.domain ++ urlTarget env ctx)) := by
  obtain ⟨mtime, rfl⟩ := exists_fileData_of_acknowledges sound acknowledged
  exact at?_fileData (by simp [uploadRecord, urlTarget, show bytes "/" = [47] by decide])

/-- The target of the returned URL. -/
theorem target_eq_urlTarget (sound : FileStore.RemovesSoundly env.host) {data : Json}
    (acknowledged : Acknowledges (reply (handleUpload env ctx) server) data) {target : Bytes}
    (returned : data.at? (bytes "url") = some (.str (env.metaConfig.domain ++ target))) :
    target = urlTarget env ctx := by
  rw [url_fileData sound acknowledged] at returned
  exact (List.append_cancel_left (Json.str.inj (Option.some.inj returned))).symm

/-- The URL of an acknowledged upload serves the uploaded content exactly when there was
a copy of it where the URL leads before the upload. -/
theorem serves_url_iff (reliable : env.host.Reliable)
    (rooted : server.machine.disk.look env.config.rootDir = some .dir)
    (valid : IsName (sentScene ctx)) (noFragment : (35 : UInt8) ∉ sentScene ctx)
    (noQuery : (63 : UInt8) ∉ sentScene ctx) {data : Json}
    (acknowledged : Acknowledges (reply (handleUpload env ctx) server) data) {target : Bytes}
    (returned : data.at? (bytes "url") = some (.str (env.metaConfig.domain ++ target)))
    (sorting : RouteSort Route) (status : HttpContext → Handler Reply) :
    Serves (reply (dispatch env sorting status { method := .get, target })
        (uploadStep env server ctx)) ctx.getForm.content ↔
      CopyAtUrl env ctx server.machine.disk := by
  have sound : FileStore.RemovesSoundly env.host := reliable.removeFault
  obtain rfl := target_eq_urlTarget sound acknowledged returned
  have path : (UrlUtils.splitTarget (urlTarget env ctx)).1 = _ :=
    splitTarget_urlTarget valid noFragment noQuery
  rw [serves_dispatch_iff (reliable.fault _) sorting status _ (urlTarget_deep valid noFragment noQuery),
    group_urlTarget_iff valid noFragment noQuery]
  have unchanged (group : bytes "group1" <+: sentScene ctx) :
      (UrlUtils.splitTarget (urlTarget env ctx)).1.drop 7 ≠ [] ∧
      (uploadStep env server ctx).machine.disk.look
        (env.config.rootDir ++ (UrlUtils.splitTarget (urlTarget env ctx)).1.drop 7) =
      server.machine.disk.look
        (env.config.rootDir ++ (UrlUtils.splitTarget (urlTarget env ctx)).1.drop 7) := by
    obtain ⟨rest, scene⟩ := group
    have behind : (UrlUtils.splitTarget (urlTarget env ctx)).1.drop 7 =
        rest ++ 47 :: render (urlNames env ctx) := by
      rw [path, ← scene, List.append_assoc]
      rfl
    rw [behind]
    exact ⟨List.append_ne_nil_of_right_ne_nil _ (List.cons_ne_nil _ _),
      look_url_uploadStep sound rooted valid scene.symm⟩
  constructor
  · rintro ⟨query, group, _, found⟩
    exact ⟨group, query, (unchanged group).2 ▸ found⟩
  · intro copied
    obtain ⟨nonempty, same⟩ := unchanged copied.group
    exact ⟨copied.query, copied.group, nonempty, same.trans copied.copy⟩

/-- A copy of `hello` at the place to which the URL of an upload to `group1` leads: it was
uploaded to the scene `.`. -/
def copyServer : Server := uploadStep sampleEnv sampleServer (sampleUpload ".")

/-- No system status. -/
def noStatus (_ : HttpContext) : Handler Reply := return .notFound

/-- The URL leads to the copy, not to the file that was uploaded. -/
theorem serves_url_of_copy : ∃ data,
    Acknowledges (reply (handleUpload sampleEnv (sampleUpload "group1")) copyServer) data ∧
    Serves (reply (dispatch sampleEnv (Router.mergeSorting _) noStatus
        { method := .get, target := urlTarget sampleEnv (sampleUpload "group1") })
      (uploadStep sampleEnv copyServer (sampleUpload "group1"))) (bytes "hello") := by
  obtain ⟨message, rooted, copied⟩ :
      successMessage (reply (handleUpload sampleEnv (sampleUpload "group1")) copyServer) =
        some (bytes "Upload success") ∧
      copyServer.machine.disk.look sampleEnv.config.rootDir = some .dir ∧
      CopyAtUrl sampleEnv (sampleUpload "group1") copyServer.machine.disk := by
    decide +kernel
  obtain ⟨content, valid, noFragment, noQuery⟩ :
      (sampleUpload "group1").getForm.content = bytes "hello" ∧
      IsName (sentScene (sampleUpload "group1")) ∧
      (35 : UInt8) ∉ sentScene (sampleUpload "group1") ∧
      (63 : UInt8) ∉ sentScene (sampleUpload "group1") := by
    decide +kernel
  obtain ⟨data, acknowledged⟩ := exists_acknowledges message
  rw [← content]
  exact ⟨data, acknowledged, (serves_url_iff calmHost_reliable rooted valid noFragment noQuery
    acknowledged (url_fileData sampleEnv_sound acknowledged) _ _).mpr copied⟩

/-- The URL of an upload to `docs` has no route. -/
theorem not_serves_url_sampleUpload : ∃ data,
    Acknowledges (reply (handleUpload sampleEnv (sampleUpload "docs")) sampleServer) data ∧
    data.at? (bytes "url") =
      some (.str (sampleEnv.metaConfig.domain ++ urlTarget sampleEnv (sampleUpload "docs"))) ∧
    ¬ Serves (reply (dispatch sampleEnv (Router.mergeSorting _) noStatus
        { method := .get, target := urlTarget sampleEnv (sampleUpload "docs") })
      (uploadStep sampleEnv sampleServer (sampleUpload "docs"))) (bytes "hello") := by
  obtain ⟨data, acknowledged⟩ := exists_acknowledges_sampleUpload
  obtain ⟨valid, noFragment, noQuery, elsewhere⟩ : IsName (sentScene (sampleUpload "docs")) ∧
      (35 : UInt8) ∉ sentScene (sampleUpload "docs") ∧
      (63 : UInt8) ∉ sentScene (sampleUpload "docs") ∧
      ¬ bytes "group1" <+: sentScene (sampleUpload "docs") := by
    decide +kernel
  refine ⟨data, acknowledged, url_fileData sampleEnv_sound acknowledged, ?_⟩
  rw [serves_dispatch_iff (calmHost_reliable.fault _) _ _ _ (urlTarget_deep valid noFragment noQuery),
    group_urlTarget_iff valid noFragment noQuery]
  exact fun all => elsewhere all.2.1

end FileCtl

end Cdfs
