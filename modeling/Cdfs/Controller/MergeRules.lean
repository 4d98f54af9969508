import Cdfs.Controller.ChunkMerge
import Cdfs.Store.ShardScan

/-! # What a merge does

`handleMerge` reads the indices off the entries of its chunk directory, puts the chunks
together in a file beside that directory, moves this file to its place and removes the
directory. The steps are described by the tree before the merge: the indices
(`Cdfs.FileCtl.chunkIndices`), the tree once the merged file is open
(`Cdfs.FileCtl.openedTree`), and what the chunks add up to (`Cdfs.FileCtl.chunkData`).
-/

namespace Cdfs

open Basis FsPath

namespace FileStore

/-! ## Rewritten files -/

section Rewritten

variable {path first second : Bytes} {start one other : Disk}

/-- While a file is written, other files are found as before. -/
theorem Rewritten.look_of_ne (written : Rewritten path first start one) {place : Bytes}
    (apart : location start.cwd place ≠ location start.cwd path) :
    one.look place = start.look place := by
  unfold Disk.look
  rw [written.resolve]
  cases resolved : start.resolve place with
  | none => rfl
  | some there =>
      rw [Disk.location_of_resolve resolved]
      exact written.touched.node _ apart

/-- Whatever has been written to a file, the same paths lead somewhere. -/
theorem Rewritten.look_eq_none_iff (written : Rewritten path first start one)
    (again : Rewritten path second start other) (place : Bytes) :
    one.look place = none ↔ other.look place = none := by
  unfold Disk.look
  rw [written.resolve, again.resolve]
  cases resolved : start.resolve place with
  | none => exact Iff.rfl
  | some there =>
      rw [Option.bind_some, Option.bind_some]
      by_cases here : there = location start.cwd path
      · rw [here, written.node_self, again.node_self]
        exact iff_of_false (Option.some_ne_none _) (Option.some_ne_none _)
      · rw [written.touched.node _ here, again.touched.node _ here]

end Rewritten

end FileStore

namespace FileCtl

variable {env : Env} {machine : Machine}

/-- The indices of the chunks that a merge finds. -/
def chunkIndices (env : Env) (disk : Disk) (md5 : Bytes) : List Int :=
  if disk.look (mergeDir env md5) = some .dir then
    (disk.names (location disk.cwd (mergeDir env md5))).filterMap
      (FileStore.numbered disk (mergeDir env md5))
  else []

/-- Reading the indices off the chunk directory. -/
theorem readIndices_ends (md5 : Bytes) :
    Ends (Fs.list env.host (mergeDir env md5) >>= fun names =>
        FileStore.numberedFiles env.host (mergeDir env md5) names) machine fun result final =>
      final.disk = machine.disk ∧
      ((∃ indices, result = .ok indices ∧
          indices.Perm (chunkIndices env machine.disk md5)) ∨
        (∃ thrown, result = .error thrown) ∧
          (env.host.Faultless → chunkIndices env machine.disk md5 = [])) := by
  apply Ends.bind (Fs.list_ends (mergeDir env md5))
  · rintro names middle ⟨same, ⟨_, listed, directory, perm⟩ | ⟨⟨_, failed⟩, _⟩⟩
    · cases listed
      refine (FileStore.numberedFiles_ends _ names).mono ?_
      rintro result final ⟨unchanged, read | ⟨thrown, failing⟩⟩
      · refine ⟨unchanged.trans same, .inl ⟨_, read, ?_⟩⟩
        rw [chunkIndices, if_pos directory, same]
        exact perm.filterMap _
      · exact ⟨unchanged.trans same, .inr ⟨thrown, fun faultless => absurd faultless failing⟩⟩
    · cases failed
  · rintro thrown final ⟨same, ⟨_, listed, _⟩ | ⟨_, failed⟩⟩
    · cases listed
    · refine ⟨same, .inr ⟨⟨_, rfl⟩, fun faultless => ?_⟩⟩
      rw [chunkIndices, if_neg (failed faultless)]

/-! ## Putting the chunks together -/

/-- The tree once the merged file has been opened. -/
def openedTree (env : Env) (disk : Disk) (md5 : Bytes) : Disk :=
  disk.put (location disk.cwd (mergedFile env md5)) (.file [])

/-- The merged file can be opened. -/
def Openable (env : Env) (disk : Disk) (md5 : Bytes) : Prop :=
  (disk.resolve (mergedFile env md5)).isSome = true ∧
    disk.look (mergedFile env md5) ≠ some .dir

instance (env : Env) (disk : Disk) (md5 : Bytes) : Decidable (Openable env disk md5) :=
  inferInstanceAs (Decidable (_ ∧ _))

/-- The path of a chunk for the merge. -/
def chunkFile (env : Env) (md5 : Bytes) (index : Int) : Bytes :=
  join (mergeDir env md5) (decimalInt index)

/-- The merged file can be opened, and then there is an entry for every index. -/
def Assembles (env : Env) (disk : Disk) (md5 : Bytes) : Prop :=
  Openable env disk md5 ∧ ∀ index ∈ chunkIndices env disk md5,
    (openedTree env disk md5).look (chunkFile env md5 index) ≠ none

instance (env : Env) (disk : Disk) (md5 : Bytes) : Decidable (Assembles env disk md5) :=
  inferInstanceAs (Decidable (_ ∧ ∀ _ ∈ _, _))

/-- What the chunks with the indices add up to: nothing is added behind an empty chunk or
a directory. -/
def chunkData (disk : Disk) (chunkDir : Bytes) : List Int → Bool → Bytes
  | [], _ => []
  | index :: rest, good =>
      match disk.look (join chunkDir (decimalInt index)) with
      | some (.file content) =>
          if good ∧ content ≠ [] then content ++ chunkData disk chunkDir rest true
          else chunkData disk chunkDir rest false
      | _ => chunkData disk chunkDir rest false

theorem openRead_look_ends {host : Host} (path : Bytes) :
    Ends (Fs.openRead host path) machine fun result final => final.disk = machine.disk ∧
      ∃ opened, result = .ok opened ∧
        (∀ entry, opened = .opened entry → machine.disk.look path = some entry) ∧
        ((∀ entry, opened ≠ .opened entry) → host.Faultless → machine.disk.look path = none) := by
  unfold Fs.openRead
  apply Fs.ends_begin
  cases failing : host.fault machine.calls with
  | fails written noticed =>
      refine ⟨rfl, _, rfl, nofun, fun _ faultless => ?_⟩
      rw [faultless _] at failing
      cases failing
  | none =>
      apply Fs.ends_disk
      have same : (Fs.begun machine [path]).disk = machine.disk := rfl
      rw [same]
      cases found : machine.disk.look path with
      | some entry =>
          refine ⟨rfl, _, rfl, fun other opened => ?_, fun closed => absurd rfl (closed entry)⟩
          cases opened
          rfl
      | none =>
          refine ⟨rfl, _, rfl, fun entry opened => ?_, fun _ _ => rfl⟩
          split at opened
          · cases opened
          · cases opened

/-- Appending the chunks writes to the merged file only. It throws at an index without
entry; without faults it adds what the chunks add up to. -/
theorem appendChunks_ends {merged chunkDir content : Bytes} {start opened : Disk}
    (first : FileStore.Rewritten merged [] start opened) (indices : List Int) (good : Bool)
    (written : FileStore.Rewritten merged content start machine.disk) :
    Ends (appendChunks env merged chunkDir indices good) machine fun result final =>
      (∃ more, FileStore.Rewritten merged (content ++ more) start final.disk ∧
        (env.host.Faultless → result = .ok ⟨⟩ →
          (∀ index ∈ indices, location start.cwd (join chunkDir (decimalInt index)) ≠
            location start.cwd merged) → more = chunkData start chunkDir indices good)) ∧
      (result = .ok ⟨⟩ → ∀ index ∈ indices,
        opened.look (join chunkDir (decimalInt index)) ≠ none) ∧
      (result ≠ .ok ⟨⟩ → env.host.Faultless → ∃ index ∈ indices,
        opened.look (join chunkDir (decimalInt index)) = none) := by
  induction indices generalizing machine content good with
  | nil =>
      refine ⟨⟨[], ?_, fun _ _ _ => rfl⟩, fun _ => nofun, fun failed => absurd rfl failed⟩
      rwa [List.append_nil]
  | cons index rest ih =>
      let chunk := join chunkDir (decimalInt index)
      -- the rest of the indices, after what this one has added
      have further {later : Bool} {added : Bytes} {middle : Machine}
          (rewritten : FileStore.Rewritten merged (content ++ added) start middle.disk)
          (there : opened.look chunk ≠ none)
          (adds : env.host.Faultless → location start.cwd chunk ≠ location start.cwd merged →
            chunkData start chunkDir (index :: rest) good =
              added ++ chunkData start chunkDir rest later) :
          Ends (appendChunks env merged chunkDir rest later) middle fun result final =>
            (∃ more, FileStore.Rewritten merged (content ++ more) start final.disk ∧
              (env.host.Faultless → result = .ok ⟨⟩ →
                (∀ other ∈ index :: rest, location start.cwd (join chunkDir (decimalInt other)) ≠
                  location start.cwd merged) →
                more = chunkData start chunkDir (index :: rest) good)) ∧
            (result = .ok ⟨⟩ → ∀ other ∈ index :: rest,
              opened.look (join chunkDir (decimalInt other)) ≠ none) ∧
            (result ≠ .ok ⟨⟩ → env.host.Faultless → ∃ other ∈ index :: rest,
              opened.look (join chunkDir (decimalInt other)) = none) := by
        refine (ih later rewritten).mono ?_
        rintro result final ⟨⟨more, total, complete⟩, all, missing⟩
        refine ⟨⟨added ++ more, ?_, fun faultless returned apart => ?_⟩, fun returned other member => ?_,
          fun failed faultless => ?_⟩
        · rwa [← List.append_assoc]
        · rw [adds faultless (apart index (List.mem_cons_self ..)), complete faultless returned
            fun other member => apart other (List.mem_cons_of_mem _ member)]
        · rcases List.mem_cons.mp member with rfl | member
          · exact there
          · exact all returned other member
        · obtain ⟨other, member, absent⟩ := missing failed faultless
          exact ⟨other, List.mem_cons_of_mem _ member, absent⟩
      have present {entry : Node} (found : machine.disk.look chunk = some entry) :
          opened.look chunk ≠ none := by
        rw [ne_eq, first.look_eq_none_iff written, found]
        exact Option.some_ne_none entry
      -- the chunk is read as it was before the merge
      have before {entry : Node} (found : machine.disk.look chunk = some entry)
          (apart : location start.cwd chunk ≠ location start.cwd merged) :
          start.look (join chunkDir (decimalInt index)) = some entry :=
        (written.look_of_ne apart).symm.trans found
      rw [appendChunks]
      apply Ends.bind (openRead_look_ends chunk)
      · rintro value read ⟨same, _, returned, found, absent⟩
        cases returned
        have nothing : FileStore.Rewritten merged (content ++ []) start read.disk := by
          rw [List.append_nil, same]
          exact written
        have gone (closed : ∀ entry, value ≠ .opened entry) (faultless : env.host.Faultless) :
            ∃ other ∈ index :: rest, opened.look (join chunkDir (decimalInt other)) = none :=
          ⟨index, List.mem_cons_self .., (first.look_eq_none_iff written _).mpr (absent closed faultless)⟩
        cases value with
        | notFound => exact ⟨⟨[], nothing, nofun⟩, nofun, fun _ => gone nofun⟩
        | failed => exact ⟨⟨[], nothing, nofun⟩, nofun, fun _ => gone nofun⟩
        | opened entry =>
            have there := found entry rfl
            cases entry with
            | dir =>
                refine further nothing (present there) fun _ apart => ?_
                rw [chunkData, before there apart, List.nil_append]
            | file data =>
                refine Ends.ite (fun both => ?_) fun either => ?_
                · have current : FileStore.Rewritten merged content start read.disk := same ▸ written
                  apply Ends.bind (FileStore.append_rewritten current)
                  · rintro good appended ⟨_, added, returned, rewritten, _, complete⟩
                    cases returned
                    refine further rewritten (present there) fun faultless apart => ?_
                    obtain ⟨rfl, rfl⟩ := complete faultless
                    rw [chunkData, before there apart]
                    exact if_pos both
                  · rintro thrown final ⟨_, _, returned, _⟩
                    cases returned
                · refine further nothing (present there) fun _ apart => ?_
                  rw [chunkData, before there apart, List.nil_append]
                  exact if_neg either
      · rintro thrown final ⟨_, _, returned, _⟩
        cases returned

/-- A file that can be opened is opened, if no call fails. -/
theorem openTruncate_openable {host : Host} {path : Bytes}
    (resolved : (machine.disk.resolve path).isSome = true)
    (free : machine.disk.look path ≠ some .dir) :
    Ends (Fs.openTruncate host path) machine fun result _ => host.Faultless → result = .ok true := by
  by_cases calm : host.fault machine.calls = .none
  · exact (FileStore.openTruncate_opens calm path).mono fun _ _ ended _ => ended.2 resolved free
  · exact (Ends.any _ _).mono fun _ _ _ faultless => absurd (faultless _) calm

/-- Putting the chunks together succeeds only if they assemble, and without faults it does
then; it writes to the merged file only. -/
theorem assemble_ends {md5 : Bytes} {indices : List Int}
    (listed : ∀ index, index ∈ indices ↔ index ∈ chunkIndices env machine.disk md5) :
    Ends (assemble env (mergedFile env md5) (mergeDir env md5) indices) machine fun result final =>
      (result = .ok ⟨⟩ → Assembles env machine.disk md5) ∧
      (env.host.Faultless → Assembles env machine.disk md5 → result = .ok ⟨⟩) ∧
      (final.disk = machine.disk ∧ result ≠ .ok ⟨⟩ ∨
        ∃ content, FileStore.Rewritten (mergedFile env md5) content machine.disk final.disk ∧
          (env.host.Faultless → result = .ok ⟨⟩ →
            (∀ index ∈ indices, location machine.disk.cwd (chunkFile env md5 index) ≠
              location machine.disk.cwd (mergedFile env md5)) →
            content = chunkData machine.disk (mergeDir env md5) indices true)) := by
  unfold assemble
  have opening : Ends (Fs.openTruncate env.host (mergedFile env md5)) machine fun result _ =>
      env.host.Faultless → Openable env machine.disk md5 → result = .ok true := by
    by_cases openable : Openable env machine.disk md5
    · exact (openTruncate_openable openable.1 openable.2).mono fun _ _ done faultless _ =>
        done faultless
    · exact (Ends.any _ _).mono fun _ _ _ _ other => absurd other openable
  apply Ends.bind ((Fs.openTruncate_ends _).and (FileStore.openTruncate_rewritten.and opening))
  · rintro success opened ⟨⟨_, returned, ended⟩, ⟨_, again, rewritten⟩, openable⟩
    cases returned
    cases again
    cases success with
    | false =>
        refine ⟨nofun, fun faultless assembles => ?_, .inl ⟨ended, nofun⟩⟩
        cases openable faultless assembles.1
    | true =>
        obtain ⟨free, resolved, stored⟩ := ended
        have tree : opened.disk = openedTree env machine.disk md5 := stored
        have can : Openable env machine.disk md5 := by
          refine ⟨by rw [resolved]; rfl, fun directory => free ?_⟩
          exact Disk.node_location_of_look directory
        refine (appendChunks_ends rewritten indices true rewritten).mono ?_
        rintro result final ⟨⟨more, total, complete⟩, all, missing⟩
        rw [tree] at all missing
        refine ⟨fun succeeded => ⟨can, fun index member => ?_⟩, fun faultless assembles => ?_,
          .inr ⟨more, ?_, complete⟩⟩
        · exact all succeeded index ((listed index).mpr member)
        · by_contra failed
          obtain ⟨index, member, absent⟩ := missing failed faultless
          exact assembles.2 index ((listed index).mp member) absent
        · exact total
  · rintro thrown final ⟨⟨_, returned, _⟩, _⟩
    cases returned

end FileCtl

end Cdfs
