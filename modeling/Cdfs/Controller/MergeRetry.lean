import Cdfs.Controller.MergeSuccess

/-! # Trying a merge again

A merge removes the chunks before it has saved the record and built the reply, inside one
handler of exceptions. So a merge that comes to the removal can still reply with an error,
and then the chunks are gone: when the removal stops halfway, when the file is not found at
its place, or when the file name cannot be printed. Before the removal it writes to the
merged file only. A failed merge therefore leaves the chunks alone if it cannot come to the
removal (`Cdfs.FileCtl.Loses`).
-/

namespace Cdfs

open Basis FsPath

namespace FileCtl

variable {env : Env} {ctx : HttpContext} {server : Server}

/-- The place of an entry of the directory of the chunks. -/
def chunkPlace (env : Env) (disk : Disk) (md5 name : Bytes) : List Bytes :=
  location disk.cwd (mergeDir env md5) ++ [name]

/-- Whatever calls fail, an error reply to a merge leaves every file in the directory of
the chunks as it was. -/
structure Retryable (env : Env) (ctx : HttpContext) (server : Server) : Prop where
  keeps : ∀ host, Ends (handleMerge { env with host } ctx) server fun result final =>
    (∃ message status, result = .ok (.error message status)) →
      ∀ name content,
        server.machine.disk.node (chunkPlace env server.machine.disk (mergeMd5 ctx) name) =
          some (.file content) →
        final.machine.disk.node (chunkPlace env server.machine.disk (mergeMd5 ctx) name) =
          some (.file content)

/-- The merged file is one of the files in the directory of the chunks. -/
def MergesInside (env : Env) (disk : Disk) (md5 : Bytes) : Prop :=
  Openable env disk md5 ∧ ∃ name content,
    location disk.cwd (mergedFile env md5) = chunkPlace env disk md5 name ∧
      disk.node (chunkPlace env disk md5 name) = some (.file content)

/-- The merge gets as far as removing the chunks or writing over one of them. -/
def Loses (env : Env) (ctx : HttpContext) (disk : Disk) : Prop :=
  mergeMd5 ctx ≠ [] ∧ mergeName ctx ≠ [] ∧ chunkIndices env disk (mergeMd5 ctx) ≠ [] ∧
    (Reaches env disk (mergeMd5 ctx) (mergeName ctx) (sentScene ctx) ∨
      MergesInside env disk (mergeMd5 ctx))

/-! ## A merge that does not come to the removal -/

/-- Writing the merged file and creating directories keeps the other files. -/
theorem file_of_kept {before tree after : Disk} {md5 content name data : Bytes}
    (written : FileStore.Rewritten (mergedFile env md5) content before tree)
    (grown : Disk.Grown tree after) (outside : ¬ MergesInside env before md5)
    (there : before.node (chunkPlace env before md5 name) = some (.file data)) :
    after.node (chunkPlace env before md5 name) = some (.file data) := by
  refine (grown.file_iff _ data).mpr ?_
  rw [written.touched.node _ ?_]
  · exact there
  · intro merged
    exact outside ⟨⟨written.opens.resolves, written.opens.free⟩, name, data, merged.symm, there⟩

/-- A merge that neither comes to the removal nor writes over a chunk can be tried again. -/
theorem retryable_of_not_loses (safe : ¬ Loses env ctx server.machine.disk) :
    Retryable env ctx server := by
  refine ⟨fun host => ?_⟩
  refine (handleMerge_ends ctx).mono fun result final ended _ name content there => ?_
  cases ended with
  | refused same _ _ _ =>
      rw [same]
      exact there
  | attempted given named ended _ =>
      cases ended with
      | idle same _ _ _ =>
          rw [same]
          exact there
      | kept found written grown _ _ _ =>
          have outside : ¬ MergesInside env server.machine.disk (mergeMd5 ctx) := fun inside =>
            safe ⟨given, named, found, .inr inside⟩
          exact file_of_kept written grown outside there
      | removed reaches _ _ _ _ _ _ =>
          exact absurd ⟨given, named, reaches.found, .inl reaches.ofHost⟩ safe
      | merged reaches =>
          exact absurd ⟨given, named, reaches.found, .inl reaches.ofHost⟩ safe

theorem not_loses_of_empty {disk : Disk} (empty : chunkIndices env disk (mergeMd5 ctx) = []) :
    ¬ Loses env ctx disk := by
  rintro ⟨_, _, found, _⟩
  exact found empty

/-! ## A merge that does -/

/-- Every removal takes everything away and then fails. -/
def losingHost : Host :=
  { calmHost with
    removeFault := fun _ => true
    removedFirst := fun _ _ => true }

/-- Beside the directory of its chunks the merged file is none of them. -/
theorem not_mergesInside {disk : Disk} {md5 : Bytes} (valid : IsName md5) :
    ¬ MergesInside env disk md5 := by
  rintro ⟨_, name, _, same, _⟩
  rw [location_mergedFile env valid, chunkPlace, location_mergeDir env valid,
    List.append_assoc] at same
  have lengths := congrArg List.length (List.append_cancel_left same)
  simp only [List.length_append, List.length_cons, List.length_nil] at lengths
  omega

/-- There is a file in the directory of the chunks if the merge finds an index. -/
theorem exists_chunk {disk : Disk} {md5 : Bytes} (valid : IsName md5) (names : disk.Named)
    (found : chunkIndices env disk md5 ≠ []) :
    ∃ name content, disk.node (chunkPlace env disk md5 name) = some (.file content) := by
  obtain ⟨index, member⟩ := List.exists_mem_of_ne_nil _ found
  rw [chunkIndices, if_pos (look_mergeDir_of_found found)] at member
  obtain ⟨name, listed, number⟩ := List.mem_filterMap.mp member
  unfold FileStore.numbered at number
  split at number
  · rename_i content there
    have plain := (zero_mem_mergeDir_iff env md5).not.mpr valid.2.2.2.2
    have here := location_join_name (mergeDir_ne_nil env md5) plain (names.isName listed) disk.cwd
    refine ⟨name, content, ?_⟩
    rw [chunkPlace, ← here]
    exact Disk.node_location_of_look there
  · cases number

/-- The message of a removal that failed is printed if the path of the directory is. -/
theorem printable_mergeFailure (codec : JsonCodec) {path : Bytes} (utf8 : validUtf8 path = true) :
    (mergeFailure (.filesystem [path])).unprintable codec = false := by
  refine printable_error codec ?_ _
  rw [validUtf8_append (by decide +kernel), Exn.what, List.flatMap_singleton,
    validUtf8_append (by decide +kernel), validUtf8_append (by decide +kernel), validUtf8_append utf8]
  decide +kernel

/-- A merge that comes to the removal cannot be tried again: the removal may fail after it
has taken all chunks away. -/
theorem not_retryable_of_reaches (valid : IsName (mergeMd5 ctx)) (names : server.machine.disk.Named)
    (named : mergeName ctx ≠ [])
    (reaches : Reaches env server.machine.disk (mergeMd5 ctx) (mergeName ctx) (sentScene ctx))
    (utf8 : validUtf8 (mergeDir env (mergeMd5 ctx)) = true) : ¬ Retryable env ctx server := by
  intro retryable
  have faultless : losingHost.Faultless := fun _ => rfl
  have reached := reaches.onHost losingHost
  obtain ⟨name, content, there⟩ := exists_chunk valid names reaches.found
  refine ((retryable.keeps losingHost).and (handleMerge_ends ctx)).const
    fun result final ⟨kept, ended⟩ => ?_
  cases ended with
  | refused _ _ _ unreached => exact unreached faultless valid.1 named reached
  | attempted _ _ ended replied =>
      cases ended with
      | idle _ _ _ unreached => exact unreached faultless reached
      | kept _ _ _ _ _ unreached => exact unreached faultless reached
      | removed _ _ _ stopped _ _ failed =>
          obtain ⟨rfl, gone⟩ := stopped (fun _ => rfl) fun _ _ => rfl
          rcases replied with ⟨_, reply, sent⟩ | ⟨_, thrown, sent⟩
          · rw [failed] at sent
            cases sent
          · rw [failed] at thrown
            cases thrown
            have printable := printable_mergeFailure env.codec utf8
            rcases sent with ⟨_, sent⟩ | ⟨unprintable, _⟩
            · have still := kept ⟨_, _, sent⟩ name content there
              have lost : final.machine.disk.node
                  (chunkPlace env server.machine.disk (mergeMd5 ctx) name) = none := gone name
              rw [lost] at still
              cases still
            · rw [show (mergeFailure (.filesystem [mergeDir env (mergeMd5 ctx)])).unprintable
                env.codec = true from unprintable] at printable
              cases printable
      | merged _ _ _ _ _ _ _ _ _ working => exact working fun _ => rfl

/-- A merge that goes through has removed the chunks before the reply turns out not to be
printable. -/
theorem not_retryable_of_unprintable {relPath : Bytes}
    (through : GoesThrough env ctx server.machine.disk relPath)
    (unprintable : ¬ PrintableFile env
      (mergedRecord env (mergeMd5 ctx) (mergeName ctx) (sentScene ctx) relPath 0 0))
    (valid : IsName (mergeMd5 ctx)) (names : server.machine.disk.Named) :
    ¬ Retryable env ctx server := by
  intro retryable
  obtain ⟨name, content, there⟩ := exists_chunk valid names through.reaches.found
  refine ((retryable.keeps calmHost).and
    (handleMerge_through calmHost_reliable (through.onHost calmHost))).const ?_
  rintro result final ⟨kept, mtime, stored, merged⟩
  have text : (mergeFailure invalidUtf8).unprintable env.codec = false :=
    printable_error env.codec (by decide +kernel) _
  obtain ⟨inner, replied, ⟨printed, _⟩ | ⟨_, rfl⟩⟩ := merged.replied
  · exact unprintable ((printable_mergedReply_iff ..).mp printed)
  · rcases replied with ⟨_, reply, sent⟩ | ⟨_, thrown, ⟨_, sent⟩ | ⟨failed, _⟩⟩
    · cases sent
    · cases thrown
      have still := kept ⟨_, _, sent⟩ name content there
      have lost : final.machine.disk.node
          (chunkPlace env server.machine.disk (mergeMd5 ctx) name) = none :=
        merged.gone _ (Disk.sweeps_entry ..)
      rw [lost] at still
      cases still
    · cases thrown
      exact absurd (text.symm.trans failed) Bool.false_ne_true

/-- A request to merge under a file name that is not UTF-8. -/
def unprintableMerge : HttpContext :=
  .ofParts [.field (bytes "md5") (bytes "5d41402abc4b2a76b9719d911017c592"),
    .field (bytes "filename") (0xFF :: bytes ".txt")]

theorem goesThrough_unprintableMerge :
    GoesThrough sampleEnv unprintableMerge (stagedDisk (bytes "other")) stagedPath := by
  obtain ⟨md5, name, scene⟩ : mergeMd5 unprintableMerge = bytes "5d41402abc4b2a76b9719d911017c592" ∧
      mergeName unprintableMerge = 0xFF :: bytes ".txt" ∧
      sentScene unprintableMerge = bytes "default" := by
    decide +kernel
  refine goesThrough_of_takesChunk md5 ?_ scene takesChunk_stagedPath ?_ <;> rw [name] <;> decide +kernel

end FileCtl

end Cdfs
