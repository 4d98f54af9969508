import Cdfs.Controller.FileCtlRules

/-! # Chunks and their merge

A file cut into chunks is sent chunk by chunk, in any order, and then merged. The
chunks are written below `root/_tmp/` while the merge looks below `root/ _tmp/`, with a
space in front of the name. So on a store without chunk directory the merge does not
find one, whatever file was sent and however it was cut.
-/

namespace Cdfs

open Basis FsPath

namespace FileCtl

/-- A file cut into chunks, and the order in which they are sent. -/
structure ChunkedFile where
  chunks : List Bytes
  order : List Nat
  chunks_ne_nil : chunks ≠ []
  chunk_ne_nil : ∀ chunk ∈ chunks, chunk ≠ []
  order_perm : order.Perm (List.range chunks.length)

/-- The file itself. -/
def ChunkedFile.content (file : ChunkedFile) : Bytes := file.chunks.flatten

/-- The request sends the chunk with the index. -/
@[mk_iff]
structure SendsChunk (md5 : Bytes) (file : ChunkedFile) (ctx : HttpContext) (index : Nat) : Prop where
  md5 : ctx.getForm.getParam (bytes "md5") = md5
  chunk : ctx.getForm.getParam (bytes "chunk") = decimal index
  content : file.chunks[index]? = some ctx.getForm.content

instance (md5 : Bytes) (file : ChunkedFile) (ctx : HttpContext) (index : Nat) :
    Decidable (SendsChunk md5 file ctx index) :=
  decidable_of_iff _ (sendsChunk_iff md5 file ctx index).symm

/-- The store is set up and has no chunk directory for the MD5, neither where chunks are
written nor where the merge looks. -/
@[mk_iff]
structure Fresh (env : Env) (md5 : Bytes) (server : Server) : Prop where
  root : server.machine.disk.look env.config.rootDir = some .dir
  noChunks : server.machine.disk.look (checkDir env md5) = none
  noMerge : server.machine.disk.look (mergeDir env md5) = none

instance (env : Env) (md5 : Bytes) (server : Server) : Decidable (Fresh env md5 server) :=
  decidable_of_iff _ (fresh_iff env md5 server).symm

/-- The server after chunk uploads. -/
def afterChunks (env : Env) (server : Server) (requests : List HttpContext) : Server :=
  run (fun server ctx => after (handleChunkUpload env ctx) server) server requests

/-- The merge succeeds and the file stands at the path it gives. -/
def Delivers (env : Env) (content : Bytes) (server : Server) (ctx : HttpContext) : Prop :=
  ∃ data path, reply (handleMerge env ctx) server = .ok (.success (bytes "Merge success") data) ∧
    data.at? (bytes "path") = some (.str path) ∧
    (after (handleMerge env ctx) server).machine.disk.look (join env.config.rootDir path) =
      some (.file content)

variable {env : Env} {md5 : Bytes}

/-- A name with a blank in front is a name. -/
theorem isName_space {name : Bytes} (valid : IsName name) : IsName (32 :: name) := by
  refine ⟨nofun, fun dot => ?_, fun dots => ?_, ?_, ?_⟩
  · exact absurd (List.cons.inj dot).1 (by decide)
  · exact absurd (List.cons.inj dots).1 (by decide)
  · rw [List.mem_cons, not_or]
    exact ⟨by decide, valid.2.2.2.1⟩
  · rw [List.mem_cons, not_or]
    exact ⟨by decide, valid.2.2.2.2⟩

/-- The merge looks in a directory whose name starts with a blank. -/
theorem mergeDir_eq (env : Env) (valid : IsName md5) :
    mergeDir env md5 = env.config.rootDir ++ 47 :: render [32 :: env.config.tempDir, md5] := by
  have temp := env.config.isName_tempDir
  have slash : bytes "/ " = [47, 32] := by decide
  have named : hasFilename (env.config.rootDir ++ (bytes "/ " ++ env.config.tempDir)) = true := by
    rw [← List.append_assoc]
    exact hasFilename_append temp.1 temp.2.2.2.1 _
  rw [mergeDir, join_named named (isAbsolute_of_not_mem valid.2.2.2.1), slash,
    render_cons _ (List.cons_ne_nil _ _)]
  simp only [render, List.append_assoc, List.cons_append, List.nil_append]

/-- The merge finds what stands at the place of its directory, if the directory above it
is there. -/
theorem look_mergeDir (valid : IsName md5) {disk : Disk}
    (root : disk.look env.config.rootDir = some .dir) :
    disk.look (mergeDir env md5) =
      if disk.node (location disk.cwd env.config.rootDir ++ [32 :: env.config.tempDir]) = some .dir
      then disk.node (location disk.cwd env.config.rootDir ++ [32 :: env.config.tempDir, md5])
      else none := by
  have spaced := isName_space env.config.isName_tempDir
  have names : ∀ name ∈ [32 :: env.config.tempDir, md5], IsName name := by
    simpa only [List.mem_cons, List.not_mem_nil, or_false, forall_eq_or_imp, forall_eq]
      using ⟨spaced, valid⟩
  obtain ⟨place, resolved, directory⟩ := Option.bind_eq_some_iff.mp root
  have here := Disk.location_of_resolve resolved
  subst here
  rw [mergeDir_eq env valid, Disk.look,
    Disk.resolve_slash disk env.config.rootDir_ne_nil env.config.zero_not_mem_rootDir, resolved,
    cString_of_not_mem (not_mem_render_of_isName names),
    components_render (List.cons_ne_nil _ _) fun name member => (names name member).2.2.2.1]
  simp only [Option.bind_some, Disk.walk, directory, ↓reduceIte, enter_of_isName spaced,
    enter_of_isName valid, List.append_assoc, List.singleton_append]
  split <;> rfl

/-- What the chunks leave to the merge. -/
structure Unmerged (env : Env) (md5 : Bytes) (disk : Disk) : Prop where
  root : disk.look env.config.rootDir = some .dir
  noMerge : disk.look (mergeDir env md5) = none

/-- A number is a name. -/
theorem isName_decimal (number : Nat) : IsName (decimal number) := by
  have digits (other : UInt8) (notDigit : isDigit other = false) : other ∉ decimal number :=
    fun member => by
      rw [isDigit_of_mem_decimal member] at notDigit
      cases notDigit
  have dot := digits 46 (by decide)
  refine ⟨decimal_ne_nil number, fun same => dot ?_, fun same => dot ?_, digits 47 (by decide),
    digits 0 (by decide)⟩
  · rw [same]
    exact List.mem_cons_self ..
  · rw [same]
    exact List.mem_cons_self ..

/-- Chunks are saved in a directory without the blank. -/
theorem chunkPath_eq (env : Env) (md5 chunk : Bytes) :
    chunkPath env md5 chunk = render [env.config.tempDir, md5] ++ 47 :: chunk := by
  simp only [chunkPath_cons, render, List.append_assoc, List.cons_append]

/-- Saving a chunk does not create the directory that the merge looks up: below the root
directory it only touches what lies in the temporary directory. -/
theorem unmerged_of_saving (valid : IsName md5) {before after : Disk} {data : Bytes}
    {index : Nat} {result : Except Exn Bool}
    (saving : FileStore.Saving data (join env.config.rootDir (chunkPath env md5 (decimal index)))
      before result after) (unmerged : Unmerged env md5 before) : Unmerged env md5 after := by
  obtain ⟨number, evolved⟩ := saving.evolved
  have kept := evolved.keepsDirs.look_dir unmerged.root
  have names : ∀ name ∈ [env.config.tempDir, md5], IsName name := by
    simpa only [List.mem_cons, List.not_mem_nil, or_false, forall_eq_or_imp, forall_eq]
      using ⟨env.config.isName_tempDir, valid⟩
  have digits := isName_decimal index
  rw [chunkPath_eq] at evolved
  have unmoved (rest : List Bytes) :
      after.node (location before.cwd env.config.rootDir ++ (32 :: env.config.tempDir) :: rest) =
        before.node (location before.cwd env.config.rootDir ++ (32 :: env.config.tempDir) :: rest) := by
    have other (tail : List Bytes) : (32 :: env.config.tempDir) :: rest ≠ env.config.tempDir :: tail := by
      intro same
      have lengths := congrArg List.length (List.cons.inj same).1
      rw [List.length_cons] at lengths
      omega
    rcases FileStore.evolved_below names (List.cons_ne_nil _ _) env.config.rootDir_ne_nil
      env.config.zero_not_mem_rootDir digits.2.2.2.1
      ((cString_of_not_mem digits.2.2.2.2).symm ▸ digits) unmerged.root evolved
      (location before.cwd env.config.rootDir ++ (32 :: env.config.tempDir) :: rest) with
      same | ⟨taken, taking, front, here, _⟩ | target | temporary
    · exact same
    · cases taken with
      | nil => exact absurd rfl taking
      | cons first tail =>
          obtain ⟨rfl, _⟩ := List.cons_prefix_cons.mp front
          exact absurd (List.append_cancel_left here) (other tail)
    · rw [List.append_assoc] at target
      exact absurd (List.append_cancel_left target) (other _)
    · rw [List.append_assoc] at temporary
      exact absurd (List.append_cancel_left temporary) (other _)
  refine ⟨kept, ?_⟩
  rw [look_mergeDir valid kept, evolved.keepsDirs.1, unmoved [], unmoved [md5],
    ← look_mergeDir valid unmerged.root]
  exact unmerged.noMerge

/-- Sending chunks does not create the directory that the merge looks up. -/
theorem unmerged_afterChunks (sound : FileStore.RemovesSoundly env.host) (valid : IsName md5)
    {file : ChunkedFile} {requests : List HttpContext} {order : List Nat}
    (sent : List.Forall₂ (SendsChunk md5 file) requests order) {server : Server}
    (unmerged : Unmerged env md5 server.machine.disk) :
    Unmerged env md5 (afterChunks env server requests).machine.disk := by
  induction sent generalizing server with
  | nil => exact unmerged
  | @cons ctx index requests order sends _ ih =>
      have kept : Ends (handleChunkUpload env ctx) server fun _ final =>
          Unmerged env md5 final.machine.disk := by
        refine (handleChunkUpload_ends sound ctx).mono ?_
        rintro _ final ⟨_, same | ⟨_, saved, saving⟩⟩
        · rw [same]
          exact unmerged
        · rw [sentPath, sends.md5, sends.chunk] at saving
          exact unmerged_of_saving valid saving unmerged
      exact ih (reply_after_of_ends kept)

/-- Without its directory the merge gives up. -/
theorem handleMerge_unmerged {ctx : HttpContext} {server : Server} (reliable : env.host.Reliable)
    (unmerged : Unmerged env (ctx.getForm.getParam (bytes "md5")) server.machine.disk)
    (given : ctx.getForm.getParam (bytes "md5") ≠ [])
    (named : ctx.getForm.getParam (bytes "filename") ≠ []) :
    reply (handleMerge env ctx) server =
      .ok (.error (bytes "Chunk directory not found or expired") badRequest) := by
  suffices ends : Ends (handleMerge env ctx) server fun result _ =>
      result = .ok (.error (bytes "Chunk directory not found or expired") badRequest) from
    reply_after_of_ends ends
  unfold handleMerge
  dsimp only
  rw [if_neg (not_or.mpr ⟨given, named⟩)]
  apply Ends.bind (onDisk_ends (Fs.exists_ends _))
  · rintro found middle ⟨⟨_, isSome⟩, _⟩
    rw [unmerged.noMerge] at isSome
    rw [isSome, Option.isSome_none, if_neg Bool.false_ne_true]
    exact (send_error_ends (by decide +kernel) _).mono fun _ _ sent => sent.1
  · rintro thrown final ⟨⟨_, unreliable⟩, _⟩
    exact absurd reliable.fault unreliable

/-- A merge that is answered with an error delivers nothing. -/
theorem not_delivers_of_error {content message : Bytes} {status : Nat} {ctx : HttpContext}
    {server : Server} (replied : reply (handleMerge env ctx) server = .ok (.error message status)) :
    ¬ Delivers env content server ctx := by
  rintro ⟨data, path, succeeded, _⟩
  rw [replied] at succeeded
  cases succeeded

/-- The merge after the chunks of a file gives up. -/
theorem handleMerge_of_sent (reliable : env.host.Reliable) (file : ChunkedFile)
    {requests : List HttpContext}
    (sent : List.Forall₂ (SendsChunk (md5Hex env.digest file.content) file) requests file.order)
    {start : Server} (fresh : Fresh env (md5Hex env.digest file.content) start) {ctx : HttpContext}
    (same : ctx.getForm.getParam (bytes "md5") = md5Hex env.digest file.content)
    (named : ctx.getForm.getParam (bytes "filename") ≠ []) :
    reply (handleMerge env ctx) (afterChunks env start requests) =
      .ok (.error (bytes "Chunk directory not found or expired") badRequest) := by
  have valid := isName_md5Hex env.digest file.content
  have unmerged := unmerged_afterChunks reliable.removeFault valid sent ⟨fresh.root, fresh.noMerge⟩
  refine handleMerge_unmerged reliable ?_ ?_ named
  · rw [same]
    exact unmerged
  · rw [same]
    exact valid.1

/-- **A file sent in chunks is never delivered.** However a file is cut and in whatever
order its chunks are sent, with no file system call failing, the merge that follows does
not succeed: it looks for the chunks in another directory. -/
theorem not_delivers_of_sent (reliable : env.host.Reliable) (file : ChunkedFile)
    {requests : List HttpContext}
    (sent : List.Forall₂ (SendsChunk (md5Hex env.digest file.content) file) requests file.order)
    {start : Server} (fresh : Fresh env (md5Hex env.digest file.content) start) {ctx : HttpContext}
    (same : ctx.getForm.getParam (bytes "md5") = md5Hex env.digest file.content)
    (named : ctx.getForm.getParam (bytes "filename") ≠ []) :
    ¬ Delivers env file.content (afterChunks env start requests) ctx :=
  not_delivers_of_error (handleMerge_of_sent reliable file sent fresh same named)

/-- `hello` in two chunks, the second one sent first. -/
def sampleFile : ChunkedFile where
  chunks := [bytes "hel", bytes "lo"]
  order := [1, 0]
  chunks_ne_nil := List.cons_ne_nil _ _
  chunk_ne_nil := by decide
  order_perm := by decide

/-- The requests that send the chunks. -/
def sampleRequests : List HttpContext :=
  [.ofParts [.field (bytes "md5") (bytes "5d41402abc4b2a76b9719d911017c592"),
     .field (bytes "chunk") (bytes "1"),
     .file (bytes "file") (bytes "blob") (bytes "application/octet-stream") (bytes "lo")],
   .ofParts [.field (bytes "md5") (bytes "5d41402abc4b2a76b9719d911017c592"),
     .field (bytes "chunk") (bytes "0"),
     .file (bytes "file") (bytes "blob") (bytes "application/octet-stream") (bytes "hel")]]

/-- The request that merges them. -/
def sampleMerge : HttpContext :=
  .ofParts [.field (bytes "md5") (bytes "5d41402abc4b2a76b9719d911017c592"),
    .field (bytes "filename") (bytes "a.txt")]

/-- The requests send the two chunks in their order. -/
theorem sampleRequests_sent : List.Forall₂
    (SendsChunk (md5Hex sampleEnv.digest sampleFile.content) sampleFile) sampleRequests
      sampleFile.order := by
  decide +kernel

theorem sampleServer_fresh :
    Fresh sampleEnv (md5Hex sampleEnv.digest sampleFile.content) sampleServer := by
  decide +kernel

/-- The merge names the file. -/
theorem sampleMerge_form :
    sampleMerge.getForm.getParam (bytes "md5") = md5Hex sampleEnv.digest sampleFile.content ∧
      sampleMerge.getForm.getParam (bytes "filename") ≠ [] := by
  decide +kernel

/-- The chunks of `hello` have been sent to a store without chunk directory, and the
merge replies that there is none. -/
theorem reply_sampleMerge :
    Fresh sampleEnv (md5Hex sampleEnv.digest sampleFile.content) sampleServer ∧
      List.Forall₂ (SendsChunk (md5Hex sampleEnv.digest sampleFile.content) sampleFile)
        sampleRequests sampleFile.order ∧
      reply (handleMerge sampleEnv sampleMerge) (afterChunks sampleEnv sampleServer sampleRequests) =
        .ok (.error (bytes "Chunk directory not found or expired") badRequest) ∧
      ¬ Delivers sampleEnv sampleFile.content (afterChunks sampleEnv sampleServer sampleRequests)
        sampleMerge := by
  have replied := handleMerge_of_sent calmHost_reliable sampleFile sampleRequests_sent
    sampleServer_fresh sampleMerge_form.1 sampleMerge_form.2
  exact ⟨sampleServer_fresh, sampleRequests_sent, replied, not_delivers_of_error replied⟩

/-- The file is not delivered. -/
theorem not_delivers_sampleFile :
    ¬ Delivers sampleEnv sampleFile.content (afterChunks sampleEnv sampleServer sampleRequests)
      sampleMerge :=
  not_delivers_of_sent calmHost_reliable sampleFile sampleRequests_sent sampleServer_fresh
    sampleMerge_form.1 sampleMerge_form.2

end FileCtl

end Cdfs
