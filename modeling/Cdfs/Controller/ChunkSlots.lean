import Cdfs.Basis.DecimalOrder
import Cdfs.Controller.ChunkMerge
import Cdfs.Store.ShardFiles

/-! # The chunks a client may count on

A chunk stands in the directory of its MD5 under its number, and `write_disk` leaves a file
of the right size alone. A failed write can take the file away or leave its temporary file,
whose name `get_shard_index` reads as the same number. So what a client knows of a number is
a slot (`Cdfs.FileCtl.Slot`): nothing has been sent, this content is held, or a failure has
made it unknown. The directories of a store show the slots (`Cdfs.FileCtl.Shows`), and every
save of a chunk keeps this.
-/

namespace Cdfs

open Basis FsPath

namespace FileStore

variable {host : Host} {machine : Machine} {config : StoreConfig} {data relPath : Bytes}

/-- What a save can change, as long as the target cannot become a directory. -/
theorem saveFileAt_places
    (free : ∀ files tree, Disk.Evolved
      (Fs.passed machine.disk.cwd (parentPath (join config.rootDir relPath))) files machine.disk
      tree → Writable tree (join config.rootDir relPath)) :
    Ends (saveFileAt host config data relPath) machine fun _ final =>
      ∃ number : Fin 900000, Disk.Evolved
        (Fs.passed machine.disk.cwd (parentPath (join config.rootDir relPath)))
        (touchedFiles machine.disk.cwd (join config.rootDir relPath) (100000 + number.val))
        machine.disk final.disk := by
  unfold saveFileAt
  refine Ends.ite (fun _ => ⟨0, .refl _⟩) fun _ => ?_
  apply Ends.bind (Fs.createDirectories_evolved _)
  · rintro made middle ⟨evolved, _⟩
    have cwd := evolved.keepsDirs.1
    refine Ends.ite (fun _ => ?_) fun _ => ⟨0, evolved.mono (Set.empty_subset _)⟩
    have later {files : Set (List Bytes)} {tree : Disk} (further : Disk.Evolved
        (Fs.passed middle.disk.cwd (parentPath (join config.rootDir relPath))) files middle.disk
        tree) : Disk.Evolved (Fs.passed machine.disk.cwd (parentPath (join config.rootDir relPath)))
          files machine.disk tree := by
      rw [cwd] at further
      exact (evolved.mono (Set.empty_subset _)).trans further
    apply Ends.bind (writeDisk_places fun tree further => free _ tree (later further))
    · rintro success written ⟨⟨number, further⟩, _⟩
      have total := later further
      rw [cwd] at total
      refine Ends.ite (fun _ => ⟨number, total⟩) fun _ => ?_
      have target (place : List Bytes)
          (resolved : written.disk.resolve (join config.rootDir relPath) = some place) :
          place ∈ touchedFiles machine.disk.cwd (join config.rootDir relPath)
            (100000 + number.val) := by
        rw [Disk.location_of_resolve resolved, total.keepsDirs.1]
        exact .inl rfl
      have removed : Ends (tryCatch (Fs.remove host (join config.rootDir relPath)) fun _ =>
          return ⟨⟩) written fun ended final => ended = .ok ⟨⟩ ∧ Disk.Evolved
            (Fs.passed machine.disk.cwd (parentPath (join config.rootDir relPath)))
            (touchedFiles machine.disk.cwd (join config.rootDir relPath) (100000 + number.val))
            machine.disk final.disk := by
        apply Ends.tryCatch (remove_touched (free _ _ total) target)
        · exact fun _ final touched => ⟨rfl, total.trans touched.evolved⟩
        · exact fun _ final touched => ⟨rfl, total.trans touched.evolved⟩
      apply Ends.bind removed
      · exact fun _ final ended => ⟨number, ended.2⟩
      · rintro _ _ ⟨returned, _⟩
        cases returned
    · rintro thrown final ⟨⟨number, further⟩, _⟩
      have total := later further
      rw [cwd] at total
      exact ⟨number, total⟩
  · rintro thrown final ⟨_, _, _, returned, _⟩
    cases returned

end FileStore

namespace FileCtl

/-! ## Slots -/

/-- What a client knows of the chunk with a number. -/
inductive Slot where
  | empty
  | held (content : Bytes)
  | unknown
  deriving DecidableEq

/-- One more upload: a file of the same size is left alone, and a failed write leaves
nothing to count on. -/
def Slot.sent (content : Bytes) (acknowledged : Bool) : Slot → Slot
  | .empty => if acknowledged then .held content else .unknown
  | .held old =>
      if acknowledged then
        if old.length = content.length then .held old else .held content
      else .unknown
  | .unknown => .unknown

/-- The slots by the MD5 and the number as the requests spell them. -/
abbrev Slots := Bytes → Bytes → Slot

def Slots.sent (slots : Slots) (fileMd5 chunk content : Bytes) (acknowledged : Bool) : Slots :=
  fun md5 other =>
    if md5 = fileMd5 ∧ other = chunk then (slots md5 other).sent content acknowledged
    else slots md5 other

/-- The name of a temporary file for a number. -/
def leftoverName (index number : Nat) : Bytes := decimal index ++ (bytes ".tmp." ++ decimal number)

/-- An entry of a chunk directory: a chunk, or a temporary file for a number that is no
longer known. -/
inductive Listed (slots : Bytes → Slot) : Bytes → Node → Prop where
  | chunk {index : Nat} {content : Bytes} (small : index < 2 ^ 31)
      (slot : slots (decimal index) = .held content ∨ slots (decimal index) = .unknown) :
      Listed slots (decimal index) (.file content)
  | leftover {index number : Nat} {content : Bytes} (small : index < 2 ^ 31)
      (slot : slots (decimal index) = .unknown) :
      Listed slots (leftoverName index number) (.file content)

/-- Where the entry of a chunk directory stands. -/
def entryPlace (env : Env) (cwd : List Bytes) (md5 name : Bytes) : List Bytes :=
  location cwd env.config.rootDir ++ [env.config.tempDir, md5, name]

/-- The directories of the MD5s hold what the slots say. -/
structure Shows (env : Env) (slots : Slots) (disk : Disk) : Prop where
  root : disk.look env.config.rootDir = some .dir
  listed : ∀ md5, IsHexMd5 md5 → ∀ name entry,
    disk.node (entryPlace env disk.cwd md5 name) = some entry → Listed (slots md5) name entry
  held : ∀ md5, IsHexMd5 md5 → ∀ index content, slots md5 (decimal index) = .held content →
    disk.node (entryPlace env disk.cwd md5 (decimal index)) = some (.file content) ∧
      disk.look (checkDir env md5) = some .dir

/-! ## Names -/

theorem dot_not_mem_decimal (index : Nat) : (46 : UInt8) ∉ decimal index := by
  intro member
  exact absurd (isDigit_of_mem_decimal member) (by decide)

theorem dot_mem_leftoverName (index number : Nat) : (46 : UInt8) ∈ leftoverName index number := by
  refine List.mem_append_right _ (List.mem_append_left _ ?_)
  decide

/-- A number is no temporary name. -/
theorem decimal_ne_leftoverName (other index number : Nat) :
    decimal other ≠ leftoverName index number := by
  intro same
  exact dot_not_mem_decimal other (same ▸ dot_mem_leftoverName index number)

theorem isName_leftoverName (index number : Nat) : IsName (leftoverName index number) :=
  FileStore.isName_append_temp (isName_decimal index).2.2.2.1 (isName_decimal index).2.2.2.2 number

/-- A scan reads the name of a temporary file as the number of its chunk. -/
theorem stoi_leftoverName {index : Nat} (small : index < 2 ^ 31) (number : Nat) :
    stoi (leftoverName index number) = some (index : Int) := by
  obtain ⟨first, more, text⟩ := List.exists_cons_of_ne_nil (decimal_ne_nil index)
  have digit : isDigit first = true :=
    isDigit_of_mem_decimal (text ▸ List.mem_cons_self .. : first ∈ decimal index)
  have marker : bytes ".tmp." = 46 :: bytes "tmp." := by decide
  have spelled : leftoverName index number =
      first :: more ++ 46 :: (bytes "tmp." ++ decimal number) := by
    rw [leftoverName, text, marker]
    rfl
  rw [spelled, stoi_append (plain_of_isDigit digit) more (by decide), ← text, stoi_decimal small]

/-- What is listed has the name of an entry. -/
theorem Listed.isName {slots : Bytes → Slot} {name : Bytes} {entry : Node}
    (listed : Listed slots name entry) : IsName name := by
  cases listed with
  | chunk _ _ => exact isName_decimal _
  | leftover _ _ => exact isName_leftoverName ..

/-- Only files are listed. -/
theorem Listed.exists_file {slots : Bytes → Slot} {name : Bytes} {entry : Node}
    (listed : Listed slots name entry) : ∃ content, entry = .file content := by
  cases listed with
  | chunk _ _ => exact ⟨_, rfl⟩
  | leftover _ _ => exact ⟨_, rfl⟩

/-- What a scan reads off an entry is a number whose slot is not empty. -/
theorem Listed.reads {slots : Bytes → Slot} {name : Bytes} {entry : Node}
    (listed : Listed slots name entry) : ∃ index : Nat, index < 2 ^ 31 ∧
      stoi name = some (index : Int) ∧ slots (decimal index) ≠ .empty := by
  cases listed with
  | @chunk index content small slot =>
      refine ⟨index, small, stoi_decimal small, fun empty => ?_⟩
      rcases slot with held | unknown
      · rw [held] at empty
        cases empty
      · rw [unknown] at empty
        cases empty
  | @leftover index number content small slot =>
      refine ⟨index, small, stoi_leftoverName small number, fun empty => ?_⟩
      rw [slot] at empty
      cases empty

/-! ## Places -/

section Places

variable {env : Env} {md5 : Bytes} (hex : IsHexMd5 md5)

include hex

theorem isName_chunkDirs : ∀ name ∈ [env.config.tempDir, md5], IsName name :=
  FileStore.isName_shardNames hex

omit hex in
/-- The directory that is asked for is the one that shards are saved in. -/
theorem checkDir_eq : checkDir env md5 = FileStore.shardDir env.config md5 := by
  have slash : bytes "/" = [47] := by decide
  rw [checkDir, FileStore.shardDir, slash]
  rfl

/-- An entry stands below the location of the directory. -/
theorem location_checkDir (cwd : List Bytes) (name : Bytes) :
    location cwd (checkDir env md5) ++ [name] = entryPlace env cwd md5 name := by
  rw [checkDir_eq, FileStore.location_shardDir hex, List.append_assoc]
  rfl

theorem join_chunkPath (chunk : Bytes) : join env.config.rootDir (chunkPath env md5 chunk) =
    join env.config.rootDir (render [env.config.tempDir, md5]) ++ 47 :: chunk := by
  rw [chunkPath_eq, join_render_append (isName_chunkDirs hex) (List.cons_ne_nil _ _)]

/-- A chunk stands among the entries of its MD5. -/
theorem location_chunkPath {chunk : Bytes} (valid : IsName chunk) (cwd : List Bytes) :
    location cwd (join env.config.rootDir (chunkPath env md5 chunk)) = entryPlace env cwd md5 chunk := by
  rw [chunkPath_eq, location_join_render_append (isName_chunkDirs hex) (List.cons_ne_nil _ _)
    env.config.rootDir_ne_nil env.config.zero_not_mem_rootDir valid.2.2.2.1
    ((cString_of_not_mem valid.2.2.2.2).symm ▸ valid), cString_of_not_mem valid.2.2.2.2,
    List.append_assoc]
  rfl

/-- So does its temporary file. -/
theorem location_tempPath_chunkPath (index number : Nat) (cwd : List Bytes) :
    location cwd (FileStore.tempPath
      (join env.config.rootDir (chunkPath env md5 (decimal index))) number) =
        entryPlace env cwd md5 (leftoverName index number) := by
  have valid := isName_decimal index
  rw [chunkPath_eq, FileStore.location_tempPath_join_render (isName_chunkDirs hex)
    (List.cons_ne_nil _ _) env.config.rootDir_ne_nil env.config.zero_not_mem_rootDir valid.2.2.2.1
    ((cString_of_not_mem valid.2.2.2.2).symm ▸ valid),
    FileStore.cString_append_temp valid.2.2.2.2, List.append_assoc]
  rfl

/-- A chunk that is found shows its directory, however the root directory is written. -/
theorem look_checkDir {disk : Disk} (root : disk.look env.config.rootDir = some .dir) {chunk : Bytes}
    {entry : Node} (found : disk.look (join env.config.rootDir (chunkPath env md5 chunk)) = some entry) :
    disk.look (checkDir env md5) = some .dir := by
  have relative := isAbsolute_render (@isName_chunkDirs env md5 hex)
  have nonempty : join env.config.rootDir (render [env.config.tempDir, md5]) ≠ [] := by
    rw [join_of_relative relative]
    exact List.append_ne_nil_of_left_ne_nil env.config.rootDir_ne_nil _
  have plain : (0 : UInt8) ∉ join env.config.rootDir (render [env.config.tempDir, md5]) := by
    rw [← cString_join_render env.config.zero_not_mem_rootDir (isName_chunkDirs hex)]
    exact not_mem_cString _
  rw [join_chunkPath hex] at found
  have above := Disk.look_dir_of_slash nonempty plain found
  rw [Disk.look, Disk.resolve_join_of_look env.config.rootDir_ne_nil env.config.zero_not_mem_rootDir
    root relative] at above
  rw [checkDir_eq, FileStore.shardDir_eq_join hex, Disk.look, Disk.resolve_join_of_look
    (List.append_ne_nil_of_left_ne_nil env.config.rootDir_ne_nil _)
    FileStore.zero_not_mem_rootDir_slash (FileStore.look_rootDir_slash root) relative,
    location_trailing_slash env.config.rootDir_ne_nil env.config.zero_not_mem_rootDir]
  exact above

end Places

/-- Different MD5s or names have different places. -/
theorem entryPlace_inj {env : Env} {cwd : List Bytes} {md5 other name more : Bytes}
    (same : entryPlace env cwd md5 name = entryPlace env cwd other more) :
    md5 = other ∧ name = more := by
  have rest := (List.cons.inj (List.append_cancel_left same)).2
  exact ⟨(List.cons.inj rest).1, (List.cons.inj (List.cons.inj rest).2).1⟩

/-! ## Saving a chunk -/

section Save

variable {env : Env} {md5 : Bytes} {index : Nat} {before after : Disk} (hex : IsHexMd5 md5)

include hex

/-- Creating the directories of a chunk creates nothing in them. -/
theorem dir_of_mem_passed (root : before.look env.config.rootDir = some .dir) {other name : Bytes}
    (passed : entryPlace env before.cwd other name ∈ Fs.passed before.cwd
      (parentPath (join env.config.rootDir (chunkPath env md5 (decimal index))))) :
    before.node (entryPlace env before.cwd other name) = some .dir := by
  have valid := @isName_chunkDirs env md5 hex
  rw [chunkPath_eq, parentPath_join_render valid (List.cons_ne_nil _ _)
    (isName_decimal index).2.2.2.1] at passed
  rcases Fs.passed_join_render env.config.rootDir_ne_nil env.config.zero_not_mem_rootDir root valid
    (List.cons_ne_nil _ _) passed with there | ⟨taken, _, front, place⟩
  · exact there
  · have short := front.length_le
    rw [← List.append_cancel_left place] at short
    simp at short

variable {files : Set (List Bytes)} (root : before.look env.config.rootDir = some .dir)
  (evolved : Disk.Evolved (Fs.passed before.cwd
    (parentPath (join env.config.rootDir (chunkPath env md5 (decimal index))))) files before after)

include root evolved

/-- An upload creates no directory among the entries. -/
theorem dir_of_chunkEvolved {other name : Bytes}
    (there : after.node (entryPlace env before.cwd other name) = some .dir) :
    before.node (entryPlace env before.cwd other name) = some .dir := by
  rcases evolved.newDirs _ there with old | passed
  · exact old
  · exact dir_of_mem_passed hex root passed

/-- Besides the given files nothing changes in the chunk directories. -/
theorem node_of_chunkEvolved {other name : Bytes}
    (outside : entryPlace env before.cwd other name ∉ files) :
    after.node (entryPlace env before.cwd other name) =
      before.node (entryPlace env before.cwd other name) := by
  rcases evolved.node _ outside with same | ⟨passed, absent, _⟩
  · exact same
  · rw [dir_of_mem_passed hex root passed] at absent
    cases absent

end Save

/-- What an acknowledged upload leaves: a file of the size at the number, whose content is
that of an earlier upload of the size or the new one, and no new entry beside it. -/
structure Landed (env : Env) (md5 : Bytes) (index : Nat) (data : Bytes) (before after : Disk)
    (content : Bytes) : Prop where
  look : after.look (join env.config.rootDir (chunkPath env md5 (decimal index))) =
    some (.file content)
  content : content.length = data.length ∧
      before.node (entryPlace env before.cwd md5 (decimal index)) = some (.file content) ∨
    content = data ∧ ∀ old, before.node (entryPlace env before.cwd md5 (decimal index)) =
      some (.file old) → old.length ≠ data.length
  others : ∀ name old, name ≠ decimal index →
    after.node (entryPlace env before.cwd md5 name) = some (.file old) →
      before.node (entryPlace env before.cwd md5 name) = some (.file old)

section Save

variable {env : Env} {md5 : Bytes} {index : Nat} {data : Bytes} {before after : Disk}
  (hex : IsHexMd5 md5)

include hex

/-- A save that returns true has landed its chunk. -/
theorem landed_of_saveResult
    (saved : FileStore.SaveResult env.config data (chunkPath env md5 (decimal index)) before
      (.ok true) after) : ∃ content, Landed env md5 index data before after content := by
  have target := @location_chunkPath env md5 hex _ (isName_decimal index)
  cases saved with
  | rejected _ failed _ => cases failed
  | uncreated failed _ => cases failed
  | @written tree accepted created written =>
      have grown := Disk.grown_created created
      have stood (place : List Bytes) (content : Bytes) :
          tree.node place = some (.file content) ↔ before.node place = some (.file content) :=
        grown.file_iff place content
      rcases written.succeeded rfl with ⟨same, content, found, size⟩ | ⟨attempts, number, placed⟩
      · subst same
        have there := Disk.node_location_of_look found
        rw [target, grown.cwd, stood] at there
        exact ⟨content, found, .inl ⟨size, there⟩, fun name old _ => (stood _ old).mp⟩
      · refine ⟨data, placed.hasFile.look, .inr ⟨rfl, fun old there => ?_⟩,
          fun name old other there => ?_⟩
        · have resolved := placed.hasFile.1
          rw [placed.touched.resolve, placed.touched.keepsDirs.1, target, grown.cwd] at resolved
          exact attempts.2 old (Option.bind_eq_some_iff.mpr ⟨_, resolved, (stood _ old).mpr there⟩)
        · by_cases temporary : name = leftoverName index (100000 + number.val)
          · have gone := placed.gone
            rw [target, location_tempPath_chunkPath hex, grown.cwd, ← temporary] at gone
            rw [gone fun same => other (entryPlace_inj same).2] at there
            cases there
          · rw [placed.touched.node, stood] at there
            · exact there
            · rw [target, location_tempPath_chunkPath hex, grown.cwd]
              rintro (here | here)
              · exact other (entryPlace_inj here).2
              · exact temporary (entryPlace_inj here).2

variable {slots : Slots} (shows : Shows env slots before)

include shows

/-- The target of a chunk cannot become a directory by the save. -/
theorem Shows.writable {files : Set (List Bytes)} {tree : Disk}
    (evolved : Disk.Evolved (Fs.passed before.cwd
      (parentPath (join env.config.rootDir (chunkPath env md5 (decimal index))))) files before tree) :
    FileStore.Writable tree (join env.config.rootDir (chunkPath env md5 (decimal index))) := by
  intro place resolved directory
  rw [Disk.location_of_resolve resolved, evolved.keepsDirs.1,
    location_chunkPath hex (isName_decimal index)] at directory
  obtain ⟨_, file⟩ := (shows.listed md5 hex _ _
    (dir_of_chunkEvolved hex shows.root evolved directory)).exists_file
  cases file

/-- A chunk that stands in its directory is the one that the slot holds, if it is known. -/
theorem Shows.slot_of_file {content : Bytes}
    (there : before.node (entryPlace env before.cwd md5 (decimal index)) = some (.file content)) :
    index < 2 ^ 31 ∧
      (slots md5 (decimal index) = .held content ∨ slots md5 (decimal index) = .unknown) := by
  have listed := shows.listed md5 hex _ _ there
  generalize named : decimal index = name at listed
  cases listed with
  | @chunk other _ small slot =>
      rw [decimal_injective named]
      exact ⟨small, slot⟩
  | leftover _ _ => exact absurd named (decimal_ne_leftoverName _ _ _)

/-- An acknowledged upload leaves the content that the slot holds from then on. -/
theorem Shows.sent_of_landed {content : Bytes}
    (landed : Landed env md5 index data before after content) :
    (slots md5 (decimal index)).sent data true = .held content ∨
      (slots md5 (decimal index)).sent data true = .unknown := by
  rcases landed.content with ⟨size, there⟩ | ⟨rfl, different⟩
  · rcases (shows.slot_of_file hex there).2 with held | unknown
    · rw [held, Slot.sent, if_pos rfl, if_pos size]
      exact .inl rfl
    · rw [unknown]
      exact .inr rfl
  · cases slot : slots md5 (decimal index) with
    | empty => exact .inl rfl
    | held old =>
        rw [Slot.sent, if_pos rfl, if_neg (different old (shows.held md5 hex index old slot).1)]
        exact .inl rfl
    | unknown => exact .inr rfl

end Save

/-- A slot that an upload is not about stays. -/
theorem Slots.sent_of_ne {slots : Slots} {fileMd5 chunk content md5 other : Bytes}
    {acknowledged : Bool} (different : ¬ (md5 = fileMd5 ∧ other = chunk)) :
    slots.sent fileMd5 chunk content acknowledged md5 other = slots md5 other := if_neg different

/-- The slot that a request is for takes what it sends. -/
theorem Slots.sent_self (slots : Slots) (fileMd5 chunk content : Bytes) (acknowledged : Bool) :
    slots.sent fileMd5 chunk content acknowledged fileMd5 chunk =
      (slots fileMd5 chunk).sent content acknowledged := if_pos ⟨rfl, rfl⟩

/-- An upload makes no unknown slot known. -/
theorem Slots.sent_unknown {slots : Slots} {fileMd5 chunk content md5 other : Bytes}
    {acknowledged : Bool} (unknown : slots md5 other = .unknown) :
    slots.sent fileMd5 chunk content acknowledged md5 other = .unknown := by
  unfold Slots.sent
  split
  · rw [unknown]
    rfl
  · exact unknown

/-- After a failed upload nothing is known of the slot. -/
theorem Slot.sent_false (slot : Slot) (content : Bytes) : slot.sent content false = .unknown := by
  cases slot <;> rfl

/-- A slot that something has been sent for is not empty. -/
theorem Slot.sent_ne_empty (slot : Slot) (content : Bytes) (acknowledged : Bool) :
    slot.sent content acknowledged ≠ .empty := by
  cases acknowledged with
  | false =>
      rw [slot.sent_false]
      exact Slot.noConfusion
  | true =>
      cases slot with
      | empty => exact Slot.noConfusion
      | unknown => exact Slot.noConfusion
      | held old =>
          rw [Slot.sent, if_pos rfl]
          split
          · exact Slot.noConfusion
          · exact Slot.noConfusion

/-- An acknowledged upload leaves a known slot known. -/
theorem Slot.sent_ne_unknown {slot : Slot} {content : Bytes} (known : slot ≠ .unknown) :
    slot.sent content true ≠ .unknown := by
  cases slot with
  | empty => exact Slot.noConfusion
  | unknown => exact absurd rfl known
  | held old =>
      rw [Slot.sent, if_pos rfl]
      split
      · exact Slot.noConfusion
      · exact Slot.noConfusion

/-- What a slot holds it has held before, or it has just been sent. -/
theorem Slot.eq_of_sent_held {slot : Slot} {content data : Bytes} {acknowledged : Bool}
    (held : slot.sent content acknowledged = .held data) : slot = .held data ∨ content = data := by
  cases acknowledged with
  | false =>
      rw [slot.sent_false] at held
      cases held
  | true =>
      cases slot with
      | empty => exact .inr (Slot.held.inj held)
      | unknown => cases held
      | held old =>
          rw [Slot.sent, if_pos rfl] at held
          split at held
          · exact .inl held
          · exact .inr (Slot.held.inj held)

/-- An entry that stays is listed as long as its chunk is not the one that is sent. -/
theorem Listed.sent {slots : Slots} {fileMd5 chunk data md5 name : Bytes} {entry : Node}
    {acknowledged : Bool} (listed : Listed (slots md5) name entry)
    (other : ¬ (md5 = fileMd5 ∧ name = chunk)) :
    Listed (slots.sent fileMd5 chunk data acknowledged md5) name entry := by
  cases listed with
  | chunk small slot => exact .chunk small (by rwa [Slots.sent_of_ne other])
  | leftover small slot => exact .leftover small (Slots.sent_unknown slot)

section Sent

variable {env : Env} {slots : Slots} {md5 data : Bytes} {index number : Nat} {before after : Disk}
  (shows : Shows env slots before) (hex : IsHexMd5 md5)
  (evolved : Disk.Evolved (Fs.passed before.cwd
    (parentPath (join env.config.rootDir (chunkPath env md5 (decimal index)))))
    (FileStore.touchedFiles before.cwd (join env.config.rootDir (chunkPath env md5 (decimal index)))
      number) before after)

include shows hex evolved

/-- In the chunk directories a save changes its file and the temporary one. -/
theorem Shows.unmoved_or (other name : Bytes) :
    after.node (entryPlace env before.cwd other name) =
        before.node (entryPlace env before.cwd other name) ∨
      other = md5 ∧ (name = decimal index ∨ name = leftoverName index number) := by
  by_cases inside : entryPlace env before.cwd other name ∈ FileStore.touchedFiles before.cwd
      (join env.config.rootDir (chunkPath env md5 (decimal index))) number
  · right
    rw [FileStore.touchedFiles, location_chunkPath hex (isName_decimal index),
      location_tempPath_chunkPath hex] at inside
    rcases inside with target | temporary
    · exact ⟨(entryPlace_inj target).1, .inl (entryPlace_inj target).2⟩
    · exact ⟨(entryPlace_inj temporary).1, .inr (entryPlace_inj temporary).2⟩
  · exact .inl (node_of_chunkEvolved hex shows.root evolved inside)

/-- The entries of the chunk directories are still files. -/
theorem Shows.file_of_evolved {other name : Bytes} (hexOther : IsHexMd5 other) {entry : Node}
    (there : after.node (entryPlace env before.cwd other name) = some entry) :
    ∃ content, entry = .file content := by
  cases entry with
  | file content => exact ⟨content, rfl⟩
  | dir =>
      obtain ⟨_, file⟩ := (shows.listed other hexOther _ _
        (dir_of_chunkEvolved hex shows.root evolved there)).exists_file
      cases file

variable {acknowledged : Bool} (saved : acknowledged = true → FileStore.SaveResult env.config data
  (chunkPath env md5 (decimal index)) before (.ok true) after)

include saved

/-- Behind an upload the entries of every MD5 are still listed by the slots. -/
theorem Shows.listed_sent (small : index < 2 ^ 31) {other : Bytes} (hexOther : IsHexMd5 other)
    {name : Bytes} {entry : Node}
    (there : after.node (entryPlace env before.cwd other name) = some entry) :
    Listed (slots.sent md5 (decimal index) data acknowledged other) name entry := by
  obtain ⟨content, rfl⟩ := shows.file_of_evolved hex evolved hexOther there
  by_cases here : other = md5 ∧ name = decimal index
  · obtain ⟨rfl, rfl⟩ := here
    refine .chunk small ?_
    rw [Slots.sent_self]
    cases acknowledged with
    | false => exact .inr (Slot.sent_false ..)
    | true =>
        obtain ⟨landedContent, landed⟩ := landed_of_saveResult hex (saved rfl)
        have stored := Disk.node_location_of_look landed.look
        rw [evolved.keepsDirs.1, location_chunkPath hex (isName_decimal index), there] at stored
        cases stored
        exact shows.sent_of_landed hex landed
  · cases acknowledged with
    | false =>
        rcases shows.unmoved_or hex evolved other name with same | ⟨rfl, rfl | rfl⟩
        · rw [same] at there
          exact (shows.listed other hexOther name _ there).sent here
        · exact absurd ⟨rfl, rfl⟩ here
        · refine .leftover small ?_
          rw [Slots.sent_self]
          exact Slot.sent_false ..
    | true =>
        have earlier : before.node (entryPlace env before.cwd other name) = some (.file content) := by
          rcases shows.unmoved_or hex evolved other name with same | ⟨rfl, _⟩
          · rwa [same] at there
          · obtain ⟨_, landed⟩ := landed_of_saveResult hex (saved rfl)
            exact landed.others name content (fun same => here ⟨rfl, same⟩) there
        exact (shows.listed other hexOther name _ earlier).sent here

/-- Behind an upload what the slots hold is still there. -/
theorem Shows.held_sent {other : Bytes} (hexOther : IsHexMd5 other) {chunk : Nat} {content : Bytes}
    (held : slots.sent md5 (decimal index) data acknowledged other (decimal chunk) = .held content) :
    after.node (entryPlace env before.cwd other (decimal chunk)) = some (.file content) ∧
      after.look (checkDir env other) = some .dir := by
  by_cases here : other = md5 ∧ decimal chunk = decimal index
  · obtain ⟨rfl, same⟩ := here
    obtain rfl := decimal_injective same
    rw [Slots.sent_self] at held
    cases acknowledged with
    | false =>
        rw [Slot.sent_false] at held
        cases held
    | true =>
        obtain ⟨landedContent, landed⟩ := landed_of_saveResult hex (saved rfl)
        have stored := Disk.node_location_of_look landed.look
        rw [evolved.keepsDirs.1, location_chunkPath hex (isName_decimal _)] at stored
        refine ⟨?_, look_checkDir hex (evolved.keepsDirs.look_dir shows.root) landed.look⟩
        rcases shows.sent_of_landed hex landed with same | unknown
        · rw [same] at held
          cases held
          exact stored
        · rw [unknown] at held
          cases held
  · rw [Slots.sent_of_ne here] at held
    obtain ⟨there, directory⟩ := shows.held other hexOther chunk content held
    refine ⟨?_, evolved.keepsDirs.look_dir directory⟩
    rcases shows.unmoved_or hex evolved other (decimal chunk) with same | ⟨rfl, same | temporary⟩
    · rwa [same]
    · exact absurd ⟨rfl, same⟩ here
    · exact absurd temporary (decimal_ne_leftoverName _ _ _)

/-- Saving a chunk keeps the directories as the slots say. -/
theorem Shows.sent (small : index < 2 ^ 31) :
    Shows env (slots.sent md5 (decimal index) data acknowledged) after := by
  refine ⟨evolved.keepsDirs.look_dir shows.root, ?_, ?_⟩
  · intro other hexOther name entry there
    rw [evolved.keepsDirs.1] at there
    exact shows.listed_sent hex evolved saved small hexOther there
  · intro other hexOther chunk content held
    rw [evolved.keepsDirs.1]
    exact shows.held_sent hex evolved saved hexOther held

end Sent

/-! ## Scanning -/

section Scan

variable {env : Env} {slots : Slots} {disk : Disk} (shows : Shows env slots disk) {md5 : Bytes}
  (hex : IsHexMd5 md5)

include shows hex

/-- An entry of a chunk directory is found under its name, and counts by its name. -/
theorem Shows.look_entry (directory : disk.look (checkDir env md5) = some .dir) {name : Bytes}
    {entry : Node} (stored : disk.node (entryPlace env disk.cwd md5 name) = some entry) :
    disk.look (join (checkDir env md5) name) = some entry ∧
      FileStore.numbered disk (checkDir env md5) name = stoi name := by
  have nonempty : checkDir env md5 ≠ [] := List.append_ne_nil_of_left_ne_nil env.config.rootDir_ne_nil _
  have plain : (0 : UInt8) ∉ checkDir env md5 := by
    rw [checkDir_eq]
    exact FileStore.zero_not_mem_shardDir hex
  have listed := shows.listed md5 hex name entry stored
  have walked := FileStore.look_join_name nonempty plain directory listed.isName
  rw [location_checkDir hex, stored] at walked
  refine ⟨walked, ?_⟩
  obtain ⟨content, rfl⟩ := listed.exists_file
  rw [FileStore.numbered, walked]

/-- Of all entries only the chunk itself counts with a number whose content is known. -/
theorem Shows.numbered_eq_some_iff (directory : disk.look (checkDir env md5) = some .dir)
    {index : Nat} {content : Bytes} (held : slots md5 (decimal index) = .held content) {name : Bytes}
    (inside : name ∈ disk.names (location disk.cwd (checkDir env md5))) :
    FileStore.numbered disk (checkDir env md5) name = some (index : Int) ↔ name = decimal index := by
  obtain ⟨entry, there⟩ := Disk.mem_names_iff.mp inside
  rw [location_checkDir hex] at there
  rw [(shows.look_entry hex directory there).2]
  cases shows.listed md5 hex name entry there with
  | @chunk other _ small _ =>
      rw [stoi_decimal small, Option.some.injEq, Nat.cast_inj]
      exact ⟨fun same => by rw [same], decimal_injective⟩
  | @leftover other number _ small slot =>
      rw [stoi_leftoverName small, Option.some.injEq, Nat.cast_inj]
      refine ⟨fun same => ?_, fun same => absurd same.symm (decimal_ne_leftoverName _ _ _)⟩
      rw [same, held] at slot
      cases slot

/-- What a scan of a chunk directory finds: only numbers that have been sent, and each
number whose content is known exactly once, with the content at its name. -/
theorem Shows.scanned {numbers : List Int}
    (scan : numbers.Perm (FileStore.scanned disk (checkDir env md5))) :
    (∀ number ∈ numbers, ∃ index : Nat, number = index ∧ slots md5 (decimal index) ≠ .empty) ∧
      ∀ index content, slots md5 (decimal index) = .held content →
        numbers.count (index : Int) = 1 ∧
          disk.look (join (checkDir env md5) (decimal index)) = some (.file content) := by
  unfold FileStore.scanned at scan
  constructor
  · intro number member
    rw [scan.mem_iff] at member
    split at member
    · next directory =>
      obtain ⟨name, inside, value⟩ := List.mem_filterMap.mp member
      obtain ⟨entry, stored⟩ := Disk.mem_names_iff.mp inside
      rw [location_checkDir hex] at stored
      obtain ⟨index, _, reads, sent⟩ := (shows.listed md5 hex name entry stored).reads
      rw [(shows.look_entry hex directory stored).2, reads] at value
      exact ⟨index, (Option.some.inj value).symm, sent⟩
    · exact absurd member List.not_mem_nil
  · intro index content held
    obtain ⟨stored, directory⟩ := shows.held md5 hex index content held
    refine ⟨?_, (shows.look_entry hex directory stored).1⟩
    have inside : decimal index ∈ disk.names (location disk.cwd (checkDir env md5)) :=
      Disk.mem_names_iff.mpr ⟨_, (location_checkDir hex _ _).symm ▸ stored⟩
    rw [if_pos directory] at scan
    rw [scan.count_eq, List.count_filterMap]
    rw [← List.count_eq_one_of_mem (Disk.nodup_names ..) inside, List.count]
    refine List.countP_congr fun name member => ?_
    rw [beq_iff_eq, beq_iff_eq]
    exact shows.numbered_eq_some_iff hex directory held member

end Scan

end FileCtl

end Cdfs
