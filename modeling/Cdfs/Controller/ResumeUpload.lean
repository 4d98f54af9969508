import Cdfs.Controller.ChunkSlots
import Cdfs.Controller.StoredIntegrity

/-! # Resuming an upload

A client asks `handleCheckChunk` which chunks of a file the store has, sends the ones that
are missing and asks again. Whatever uploads have come before, in whatever order, of
whatever files, and whichever of them have failed: the list names only numbers that have
been sent, and a chunk whose uploads have all been acknowledged is named once and stands in
the directory with its content.
-/

namespace Cdfs

open Basis FsPath

namespace FileCtl

variable {env : Env} {server : Server}

/-- The request names its chunk by an MD5 and a number that fits an `int`. -/
structure NumbersChunk (ctx : HttpContext) : Prop where
  md5 : IsHexMd5 (ctx.getForm.getParam (bytes "md5"))
  chunk : ∃ index : Nat, index < 2 ^ 31 ∧ ctx.getForm.getParam (bytes "chunk") = decimal index

/-- The reply reports success. -/
def acknowledged : Except Exn Reply → Bool
  | .ok (.success _ _) => true
  | _ => false

/-- The reply that lists the numbers of a directory. -/
def chunkList (numbers : List Int) : Reply :=
  .success [] (.object [(bytes "list", .arr (numbers.map .num))])

/-- Chunk uploads so far: the server, and what their clients know. -/
structure Uploading where
  server : Server
  slots : Slots := fun _ _ => .empty

/-- One more upload of a chunk. -/
def Uploading.step (env : Env) (uploading : Uploading) (ctx : HttpContext) : Uploading where
  server := after (handleChunkUpload env ctx) uploading.server
  slots := uploading.slots.sent (ctx.getForm.getParam (bytes "md5"))
    (ctx.getForm.getParam (bytes "chunk")) ctx.getForm.content
    (acknowledged (reply (handleChunkUpload env ctx) uploading.server))

/-- Uploads of chunks in turn. -/
def uploading (env : Env) (server : Server) (requests : List HttpContext) : Uploading :=
  run (Uploading.step env) { server } requests

/-- The reply tells the numbers apart. -/
theorem chunkList_injective : Function.Injective chunkList := by
  intro first second same
  have listed (numbers : List Int) : Json.at? (bytes "list")
      (.object [(bytes "list", .arr (numbers.map .num))]) = some (.arr (numbers.map .num)) := by
    refine Json.at?_object_of_mem ?_ (List.mem_singleton_self _)
    exact List.nodup_singleton _
  have data := congrArg (Json.at? (bytes "list")) (Reply.success.inj same).2
  rw [listed, listed] at data
  exact List.map_injective_iff.mpr (fun _ _ => Json.num.inj) (Json.arr.inj (Option.some.inj data))

/-! ## One upload -/

/-- An upload of a chunk keeps the directories as its client then knows them. -/
theorem Shows.handleChunkUpload {slots : Slots} (shows : Shows env slots server.machine.disk)
    {ctx : HttpContext} (numbers : NumbersChunk ctx) :
    Ends (handleChunkUpload env ctx) server fun result final =>
      Shows env (slots.sent (ctx.getForm.getParam (bytes "md5"))
        (ctx.getForm.getParam (bytes "chunk")) ctx.getForm.content (acknowledged result))
        final.machine.disk := by
  obtain ⟨hex, index, small, named⟩ := numbers
  have failing {message : Bytes} {status : Nat} {middle : Server}
      (kept : Shows env (slots.sent (ctx.getForm.getParam (bytes "md5")) (decimal index)
        ctx.getForm.content false) middle.machine.disk) :
      Ends (send env (.error message status)) middle fun result final =>
        Shows env (slots.sent (ctx.getForm.getParam (bytes "md5")) (decimal index)
          ctx.getForm.content (acknowledged result)) final.machine.disk := by
    refine (send_ends _).mono ?_
    rintro result final ⟨rfl, rfl | rfl⟩
    · exact kept
    · exact kept
  unfold FileCtl.handleChunkUpload
  dsimp only
  rw [named]
  refine Ends.ite (fun _ => failing ?_) fun _ => ?_
  · exact @Shows.sent _ _ _ ctx.getForm.content _ 0 _ _ shows hex (.refl _) false nofun small
  · have saving := (FileStore.saveFileAt_places fun files tree evolved =>
      shows.writable hex evolved).and (@FileStore.saveFileAt_result env.host server.machine
        ctx.getForm.content env.config
        (chunkPath env (ctx.getForm.getParam (bytes "md5")) (decimal index)))
    apply Ends.bind (onDisk_ends saving)
    · rintro success middle ⟨⟨⟨number, evolved⟩, saved⟩, _⟩
      cases success with
      | false =>
          rw [if_neg Bool.false_ne_true]
          exact failing (shows.sent hex evolved nofun small)
      | true =>
          rw [if_pos rfl]
          refine (send_ends _).mono ?_
          rintro result final ⟨rfl, _⟩
          exact shows.sent hex evolved (fun _ => saved) small
    · rintro thrown final ⟨⟨⟨number, evolved⟩, _⟩, _⟩
      exact shows.sent hex evolved nofun small

/-- An upload of a numbered chunk keeps what the slots say true. -/
theorem Uploading.step_shows {uploading : Uploading}
    (shows : Shows env uploading.slots uploading.server.machine.disk) {ctx : HttpContext}
    (numbers : NumbersChunk ctx) : Shows env (uploading.step env ctx).slots
      (uploading.step env ctx).server.machine.disk :=
  reply_after_of_ends (shows.handleChunkUpload numbers)

/-! ## Runs -/

/-- A store without chunks shows empty slots. -/
theorem shows_of_noShards {disk : Disk}
    (nothing : ∀ md5, IsHexMd5 md5 → FileStore.NoShards env.config md5 disk) {md5 : Bytes}
    (hex : IsHexMd5 md5) : Shows env (fun _ _ => .empty) disk where
  root := (nothing md5 hex).root
  listed := by
    intro md5 hex name entry there
    rw [← location_checkDir hex, checkDir_eq] at there
    refine absurd ?_ ((nothing md5 hex).nothing name)
    rw [FileStore.Holds, there]
    exact Option.some_ne_none _
  held := by
    intro md5 hex index content held
    cases held

/-- So do any number of them. -/
theorem shows_uploading {state : Uploading} (shows : Shows env state.slots state.server.machine.disk)
    {requests : List HttpContext} (numbered : ∀ ctx ∈ requests, NumbersChunk ctx) :
    Shows env (run (Uploading.step env) state requests).slots
      (run (Uploading.step env) state requests).server.machine.disk := by
  induction requests generalizing state with
  | nil => exact shows
  | cons ctx requests ih =>
      exact ih (Uploading.step_shows shows (numbered ctx (List.mem_cons_self ..)))
        fun other member => numbered other (List.mem_cons_of_mem _ member)

/-- A list of numbers can always be printed. -/
theorem printable_chunkList (codec : JsonCodec) (numbers : List Int) :
    (chunkList numbers).unprintable codec = false := by
  have items : (Json.arr (numbers.map .num)).isUtf8 = true := by
    rw [Json.isUtf8, Json.isUtf8Items_eq, List.all_map]
    exact List.all_eq_true.mpr fun _ _ => rfl
  refine printable_success codec rfl ?_
  apply Json.isUtf8_object
  simp only [List.mem_singleton, forall_eq]
  exact ⟨by decide +kernel, items⟩

/-- A scan that returns is replied. -/
theorem handleCheckChunk_outcome {ctx : HttpContext} (given : ctx.queryParam (bytes "md5") ≠ []) :
    reply (handleCheckChunk env ctx) server = (outcome (FileStore.getShardIndex env.host
      (checkDir env (ctx.queryParam (bytes "md5")))) server.machine).map chunkList := by
  have ends : Ends (handleCheckChunk env ctx) server fun result _ =>
      result = (outcome (FileStore.getShardIndex env.host
        (checkDir env (ctx.queryParam (bytes "md5")))) server.machine).map chunkList := by
    unfold handleCheckChunk
    dsimp only
    rw [if_neg given]
    apply Ends.bind (onDisk_ends (Ends.any ..).outcome)
    · rintro indices middle ⟨⟨returned, _⟩, _⟩
      rw [← returned]
      refine (send_printed_ends (chunkList indices)).mono ?_
      rintro result final ⟨_, ⟨_, sent⟩ | ⟨unprintable, _⟩⟩
      · exact sent
      · rw [printable_chunkList] at unprintable
        cases unprintable
    · rintro thrown final ⟨⟨returned, _⟩, _⟩
      rw [← returned]
      rfl
  exact reply_after_of_ends ends

/-- What a client learns by asking, whatever uploads have come before. -/
theorem listed_of_shows {slots : Slots} (shows : Shows env slots server.machine.disk)
    {ctx : HttpContext} (hex : IsHexMd5 (ctx.queryParam (bytes "md5"))) :
    (env.host.Faultless →
      ∃ numbers, reply (handleCheckChunk env ctx) server = .ok (chunkList numbers)) ∧
    ∀ numbers, reply (handleCheckChunk env ctx) server = .ok (chunkList numbers) →
      (∀ number ∈ numbers, ∃ index : Nat, number = index ∧
        slots (ctx.queryParam (bytes "md5")) (decimal index) ≠ .empty) ∧
      ∀ index content, slots (ctx.queryParam (bytes "md5")) (decimal index) = .held content →
        numbers.count (index : Int) = 1 ∧ server.machine.disk.look
          (join (checkDir env (ctx.queryParam (bytes "md5"))) (decimal index)) =
            some (.file content) := by
  have given : ctx.queryParam (bytes "md5") ≠ [] := by
    intro empty
    have long := hex.1
    rw [empty] at long
    cases long
  rw [handleCheckChunk_outcome given]
  cases scan : outcome (FileStore.getShardIndex env.host
      (checkDir env (ctx.queryParam (bytes "md5")))) server.machine with
  | error thrown =>
      refine ⟨fun faultless => ?_, fun numbers returned => by cases returned⟩
      have ends := @FileStore.getShardIndex_ends env.host server.machine
        (checkDir env (ctx.queryParam (bytes "md5")))
      exact absurd faultless (ends.outcome.const fun result final ended =>
        ended.2.2.2 thrown (ended.1.trans scan))
  | ok indices =>
      refine ⟨fun _ => ⟨indices, rfl⟩, fun numbers returned => ?_⟩
      rw [← chunkList_injective (Except.ok.inj returned)]
      exact shows.scanned hex (FileStore.scan_perm scan)

/-- **The list of chunks is right.** Behind any uploads of numbered chunks, of any files in
any order and whichever of them fail, a list that `handleCheckChunk` replies names only
numbers that have been sent, and a chunk whose uploads have all been acknowledged exactly
once; that chunk stands in the directory with the content its client knows. Where no call
fails there is such a reply. -/
theorem listed_of_uploads {server : Server}
    (nothing : ∀ md5, IsHexMd5 md5 → FileStore.NoShards env.config md5 server.machine.disk)
    {requests : List HttpContext} (numbered : ∀ ctx ∈ requests, NumbersChunk ctx)
    {ctx : HttpContext} {md5 : Bytes} (asked : ctx.queryParam (bytes "md5") = md5)
    (hex : IsHexMd5 md5) {final : Uploading} (behind : uploading env server requests = final) :
    (env.host.Faultless →
      ∃ numbers, reply (handleCheckChunk env ctx) final.server = .ok (chunkList numbers)) ∧
    ∀ numbers, reply (handleCheckChunk env ctx) final.server = .ok (chunkList numbers) →
      (∀ number ∈ numbers, ∃ index : Nat, number = index ∧
        final.slots md5 (decimal index) ≠ .empty) ∧
      ∀ index content, final.slots md5 (decimal index) = .held content →
        numbers.count (index : Int) = 1 ∧
          final.server.machine.disk.look (join (checkDir env md5) (decimal index)) =
            some (.file content) := by
  subst asked behind
  exact listed_of_shows (shows_uploading (shows_of_noShards nothing hex) numbered) hex

/-- A chunk of `hello`, the MD5 as the file has it. -/
def helloChunk (chunk content : Bytes) : HttpContext :=
  .ofParts [.field (bytes "md5") FileStore.helloMd5, .field (bytes "chunk") chunk,
    .file (bytes "file") (bytes "blob") (bytes "application/octet-stream") content]

/-- A request for the chunks of `hello`. -/
def helloCheck : HttpContext where
  query := OrderedMap.empty.put (bytes "md5") FileStore.helloMd5

/-- The second chunk is sent twice, the second time with another content of the same size. -/
def helloChunks : List HttpContext :=
  [helloChunk (bytes "1") (bytes "lo"), helloChunk (bytes "1") (bytes "xx")]

/-- The sample server has no chunk of any file. -/
theorem noShards_sampleServer (md5 : Bytes) (hex : IsHexMd5 md5) :
    FileStore.NoShards sampleEnv.config md5 sampleServer.machine.disk where
  root := by decide +kernel
  nothing := by
    intro name there
    have shallow : ∀ entry ∈ sampleServer.machine.disk.tree.entries, entry.1.length ≤ 3 := by
      decide +kernel
    have root : location sampleServer.machine.disk.cwd sampleEnv.config.rootDir =
        [bytes "srv", bytes "data", bytes "store"] := by decide +kernel
    obtain ⟨entry, stored⟩ := Option.ne_none_iff_exists'.mp there
    have deep := shallow _ (OrderedMap.mem_entries_iff.mpr stored)
    rw [FileStore.location_shardDir hex, root] at deep
    exact absurd deep (by simp)

/-- A form with the MD5 of `hello` and a number names a chunk. -/
theorem numbersChunk_of_form {ctx : HttpContext} {index : Nat} (small : index < 2 ^ 31)
    (form : ctx.getForm.getParam (bytes "md5") = FileStore.helloMd5 ∧
      ctx.getForm.getParam (bytes "chunk") = decimal index) : NumbersChunk ctx :=
  ⟨form.1 ▸ FileStore.isHexMd5_helloMd5, index, small, form.2⟩

/-- Both requests name a chunk. -/
theorem numbersChunk_helloChunks : ∀ ctx ∈ helloChunks, NumbersChunk ctx := by
  have forms : ∀ ctx ∈ helloChunks, ctx.getForm.getParam (bytes "md5") = FileStore.helloMd5 ∧
      ctx.getForm.getParam (bytes "chunk") = decimal 1 := by decide +kernel
  exact fun ctx member => numbersChunk_of_form (by decide) (forms ctx member)

theorem asked_helloCheck : helloCheck.queryParam (bytes "md5") = FileStore.helloMd5 := by
  decide +kernel

/-- The chunk is listed once, with the content sent first. -/
theorem listed_of_helloChunks : ∃ numbers,
    reply (handleCheckChunk sampleEnv helloCheck)
        (uploading sampleEnv sampleServer helloChunks).server = .ok (chunkList numbers) ∧
      numbers.count 1 = 1 ∧ (uploading sampleEnv sampleServer helloChunks).server.machine.disk.look
        (join (checkDir sampleEnv FileStore.helloMd5) (decimal 1)) = some (.file (bytes "lo")) := by
  obtain ⟨replies, listed⟩ := @listed_of_uploads sampleEnv sampleServer
    noShards_sampleServer helloChunks numbersChunk_helloChunks helloCheck FileStore.helloMd5
    asked_helloCheck FileStore.isHexMd5_helloMd5 _ rfl
  obtain ⟨numbers, replied⟩ := replies calmHost_reliable.fault
  have held : (uploading sampleEnv sampleServer helloChunks).slots FileStore.helloMd5 (decimal 1) =
      .held (bytes "lo") := by decide +kernel
  exact ⟨numbers, replied, (listed numbers replied).2 1 _ held⟩

/-! ## A file sent in chunks -/

/-- The state behind one upload more. -/
theorem uploading_concat (requests : List HttpContext) (ctx : HttpContext) :
    uploading env server (requests ++ [ctx]) = (uploading env server requests).step env ctx :=
  run_concat ..

/-- A slot is empty as long as nothing has been sent for it. -/
theorem slots_ne_empty_iff (requests : List HttpContext) (md5 chunk : Bytes) :
    (uploading env server requests).slots md5 chunk ≠ .empty ↔ ∃ ctx ∈ requests,
      ctx.getForm.getParam (bytes "md5") = md5 ∧ ctx.getForm.getParam (bytes "chunk") = chunk := by
  induction requests using List.reverseRecOn with
  | nil =>
      refine ⟨fun sent => absurd rfl sent, ?_⟩
      rintro ⟨_, member, _⟩
      cases member
  | append_singleton requests ctx ih =>
      simp only [List.mem_append, List.mem_singleton]
      rw [uploading_concat]
      unfold Uploading.step Slots.sent
      dsimp only
      split
      · next here =>
        exact ⟨fun _ => ⟨ctx, .inr rfl, here.1.symm, here.2.symm⟩, fun _ => Slot.sent_ne_empty _ _ _⟩
      · next other =>
        rw [ih]
        refine ⟨fun ⟨earlier, member, same⟩ => ⟨earlier, .inl member, same⟩, ?_⟩
        rintro ⟨later, member | rfl, same⟩
        · exact ⟨later, member, same⟩
        · exact absurd ⟨same.1.symm, same.2.symm⟩ other

/-- Uploads of a file's own chunks put nothing else into its slots. -/
theorem chunk_of_held {file : ChunkedFile} {md5 : Bytes} {requests : List HttpContext}
    (own : ∀ ctx ∈ requests, ctx.getForm.getParam (bytes "md5") = md5 →
      ∃ index, SendsChunk md5 file ctx index) {index : Nat} {content : Bytes}
    (held : (uploading env server requests).slots md5 (decimal index) = .held content) :
    file.chunks[index]? = some content := by
  induction requests using List.reverseRecOn with
  | nil => cases held
  | append_singleton requests ctx ih =>
      have earlier := ih fun other member => own other (List.mem_append_left _ member)
      rw [uploading_concat] at held
      unfold Uploading.step Slots.sent at held
      dsimp only at held
      split at held
      · next here =>
        obtain ⟨number, sends⟩ := own ctx (List.mem_append_right _ (List.mem_singleton_self _))
          here.1.symm
        have same : index = number := decimal_injective (here.2.trans sends.chunk)
        rcases Slot.eq_of_sent_held held with old | new
        · exact earlier old
        · rw [same, sends.content, new]
      · exact earlier held

/-- No upload of the file fails. -/
def Unfailing (env : Env) (server : Server) (md5 : Bytes) (requests : List HttpContext) : Prop :=
  ∀ index : Fin requests.length, (requests.get index).getForm.getParam (bytes "md5") = md5 →
    acknowledged (reply (handleChunkUpload env (requests.get index))
      (uploading env server (requests.take index)).server) = true

/-- Where no upload of the file fails, its slots are known. -/
theorem slots_ne_unknown {md5 : Bytes} {requests : List HttpContext}
    (unfailing : Unfailing env server md5 requests) (chunk : Bytes) :
    (uploading env server requests).slots md5 chunk ≠ .unknown := by
  induction requests using List.reverseRecOn with
  | nil => exact Slot.noConfusion
  | append_singleton requests ctx ih =>
      have known := ih fun index same => by
        have earlier := unfailing ⟨index, by rw [List.length_append]; omega⟩
        simp only [List.get_eq_getElem, List.getElem_append_left index.isLt,
          List.take_append_of_le_length index.isLt.le] at earlier
        exact earlier same
      rw [uploading_concat]
      unfold Uploading.step Slots.sent
      dsimp only
      split
      · next here =>
        have last := unfailing ⟨requests.length, by rw [List.length_append]; exact Nat.lt_succ_self _⟩
        simp only [List.get_eq_getElem, List.getElem_concat_length, List.take_left] at last
        rw [last here.1.symm]
        exact Slot.sent_ne_unknown known
      · exact known

/-- **A resumed upload.** A client sends chunks of a file, in any order and with repeats,
while other files are uploaded, and no upload of the file fails. Then each list that it
gets names exactly the numbers it has sent, each once, and the chunk of the file stands at
each of them. -/
theorem resumed_of_uploads {server : Server}
    (nothing : ∀ md5, IsHexMd5 md5 → FileStore.NoShards env.config md5 server.machine.disk)
    {requests : List HttpContext} (numbered : ∀ ctx ∈ requests, NumbersChunk ctx)
    {ctx : HttpContext} {md5 : Bytes} (asked : ctx.queryParam (bytes "md5") = md5)
    (hex : IsHexMd5 md5) {file : ChunkedFile}
    (own : ∀ ctx ∈ requests, ctx.getForm.getParam (bytes "md5") = md5 →
      ∃ index, SendsChunk md5 file ctx index)
    (unfailing : Unfailing env server md5 requests)
    {final : Uploading} (behind : uploading env server requests = final) {numbers : List Int}
    (replied : reply (handleCheckChunk env ctx) final.server = .ok (chunkList numbers)) :
    numbers.Nodup ∧
      (∀ number, number ∈ numbers ↔ ∃ index : Nat, number = index ∧
        ∃ ctx ∈ requests, SendsChunk md5 file ctx index) ∧
      ∀ index : Nat, (index : Int) ∈ numbers → ∃ chunk, file.chunks[index]? = some chunk ∧
        final.server.machine.disk.look (join (checkDir env md5) (decimal index)) =
          some (.file chunk) := by
  subst asked behind
  obtain ⟨onlySent, once⟩ := (listed_of_shows
    (shows_uploading (shows_of_noShards nothing hex) numbered) hex).2 numbers replied
  have heldOfSent (index : Nat) (sent : (uploading env server requests).slots
      (ctx.queryParam (bytes "md5")) (decimal index) ≠ .empty) :
      ∃ content, (uploading env server requests).slots (ctx.queryParam (bytes "md5"))
        (decimal index) = .held content := by
    cases slot : (uploading env server requests).slots (ctx.queryParam (bytes "md5"))
        (decimal index) with
    | empty => exact absurd slot sent
    | held content => exact ⟨content, rfl⟩
    | unknown => exact absurd slot (slots_ne_unknown unfailing _)
  have heldOfListed (index : Nat) (member : (index : Int) ∈ numbers) :
      ∃ content, (uploading env server requests).slots (ctx.queryParam (bytes "md5"))
        (decimal index) = .held content := by
    obtain ⟨other, same, sent⟩ := onlySent index member
    rw [Nat.cast_inj] at same
    exact heldOfSent index (same ▸ sent)
  refine ⟨List.nodup_iff_count_le_one.mpr fun number => ?_, fun number => ⟨fun member => ?_, ?_⟩, ?_⟩
  · by_cases member : number ∈ numbers
    · obtain ⟨index, rfl, sent⟩ := onlySent number member
      obtain ⟨content, held⟩ := heldOfSent index sent
      exact (once index content held).1.le
    · rw [List.count_eq_zero_of_not_mem member]
      exact Nat.zero_le 1
  · obtain ⟨index, rfl, sent⟩ := onlySent number member
    obtain ⟨sender, among, md5, chunk⟩ := (slots_ne_empty_iff ..).mp sent
    obtain ⟨other, sends⟩ := own sender among md5
    rw [decimal_injective (chunk.symm.trans sends.chunk)]
    exact ⟨other, rfl, sender, among, sends⟩
  · rintro ⟨index, rfl, sender, among, sends⟩
    obtain ⟨content, held⟩ := heldOfSent index
      ((slots_ne_empty_iff ..).mpr ⟨sender, among, sends.md5, sends.chunk⟩)
    exact List.count_pos_iff.mp ((once index content held).1 ▸ Nat.one_pos)
  · intro index member
    obtain ⟨content, held⟩ := heldOfListed index member
    exact ⟨content, chunk_of_held own held, (once index content held).2⟩

/-- Both chunks of `hello` have been sent. -/
theorem resumed_of_sampleRequests : ∃ numbers : List Int,
    numbers.Nodup ∧ 0 ∈ numbers ∧ 1 ∈ numbers ∧
      reply (handleCheckChunk sampleEnv helloCheck)
        (uploading sampleEnv sampleServer sampleRequests).server = .ok (chunkList numbers) := by
  have hex := FileStore.isHexMd5_helloMd5
  have sent := sampleRequests_sent
  have digest : md5Hex sampleEnv.digest sampleFile.content = FileStore.helloMd5 := by decide +kernel
  rw [digest] at sent
  obtain ⟨first, rest⟩ := List.forall₂_cons.mp sent
  have second := (List.forall₂_cons.mp rest).1
  have numbered : ∀ ctx ∈ sampleRequests, NumbersChunk ctx := by
    simp only [sampleRequests, List.mem_cons, List.not_mem_nil, or_false, forall_eq_or_imp, forall_eq]
    exact ⟨numbersChunk_of_form (by decide) ⟨first.md5, first.chunk⟩,
      numbersChunk_of_form (by decide) ⟨second.md5, second.chunk⟩⟩
  have shows := @shows_uploading sampleEnv { server := sampleServer }
    (shows_of_noShards noShards_sampleServer hex) sampleRequests numbered
  obtain ⟨numbers, replied⟩ := (listed_of_shows shows (asked_helloCheck.symm ▸ hex)).1 calmHost_reliable.fault
  have unfailing : Unfailing sampleEnv sampleServer FileStore.helloMd5 sampleRequests := by
    unfold Unfailing
    decide +kernel
  have resumed := @resumed_of_uploads sampleEnv sampleServer
    noShards_sampleServer sampleRequests numbered helloCheck FileStore.helloMd5 asked_helloCheck hex sampleFile
    (by
      simp only [sampleRequests, List.mem_cons, List.not_mem_nil, or_false, forall_eq_or_imp,
        forall_eq]
      exact ⟨fun _ => ⟨1, first⟩, fun _ => ⟨0, second⟩⟩) unfailing _ rfl numbers replied
  have among (index : Nat) {ctx : HttpContext} (member : ctx ∈ sampleRequests)
      (sends : SendsChunk FileStore.helloMd5 sampleFile ctx index) : (index : Int) ∈ numbers :=
    (resumed.2.1 index).mpr ⟨index, rfl, ctx, member, sends⟩
  exact ⟨numbers, resumed.1, among 0 (List.mem_cons_of_mem _ (List.mem_cons_self ..)) second,
    among 1 (List.mem_cons_self ..) first, replied⟩

end FileCtl

end Cdfs
