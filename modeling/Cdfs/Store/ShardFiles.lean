import Cdfs.Basis.Run
import Cdfs.Controller.FileCtlRules
import Cdfs.Store.ShardScan
import Cdfs.Store.WritePlaces

/-! # Shards and the scan of their directory

`save_shard` names the file of a shard after the MD5 of the whole file and the index
(`Cdfs.FileStore.shardName`), while `get_shard_index` reads a number off the front of
each name. So every file of the directory counts for the number that the MD5 starts
with, whatever its index (`Cdfs.FileStore.stoi_of_hex`).
-/

namespace Cdfs

open Basis FsPath

namespace FileStore

/-! ## Writing below an existing directory -/

section Write

variable {host : Host} {machine : Machine} {fullPath data : Bytes}

/-- `write_disk` that creates the directories of its path itself, whatever call fails, as
long as these do not include the target. -/
theorem writeDisk_places
    (free : ∀ tree, Disk.Evolved (Fs.passed machine.disk.cwd (parentPath fullPath)) ∅ machine.disk
      tree → Writable tree fullPath) :
    Ends (writeDisk host fullPath data) machine fun result final =>
      (∃ number : Fin 900000, Disk.Evolved (Fs.passed machine.disk.cwd (parentPath fullPath))
        (touchedFiles machine.disk.cwd fullPath (100000 + number.val)) machine.disk final.disk) ∧
      (result = .ok true →
        final.disk = machine.disk ∧ (∃ content, machine.disk.look fullPath = some (.file content)) ∨
        ∃ tree, ∃ number : Fin 900000,
          Disk.Evolved (Fs.passed machine.disk.cwd (parentPath fullPath)) ∅ machine.disk tree ∧
          Placed data fullPath (tempPath fullPath (100000 + number.val)) tree final.disk) := by
  unfold writeDisk
  apply Ends.bind (alreadyWritten_ends data.length)
  · rintro written checked ⟨same, found⟩
    cases written with
    | true =>
        obtain ⟨content, file, _⟩ := found
        exact ⟨⟨0, same ▸ .refl _⟩, fun _ => .inl ⟨same, content, file⟩⟩
    | false =>
        rw [← same] at free ⊢
        apply Ends.bind (Fs.createDirectories_evolved (parentPath fullPath))
        · rintro _ created ⟨evolved, _⟩
          unfold Fs.randomNumber
          simp only [bind_assoc, pure_bind]
          apply Fs.ends_ask
          apply Fs.ends_begin
          generalize host.random created.calls = number
          have writable := free _ evolved
          have kept : (Fs.begun created []).disk = created.disk := rfl
          rw [← kept] at evolved writable
          have further {final : Machine} (touched : Disk.Touched (writePlaces
              (Fs.begun created []).disk fullPath (tempPath fullPath (100000 + number.val)))
              (Fs.begun created []).disk final.disk) :
              ∃ number : Fin 900000, Disk.Evolved
                (Fs.passed checked.disk.cwd (parentPath fullPath))
                (touchedFiles checked.disk.cwd fullPath (100000 + number.val)) checked.disk
                final.disk := by
            refine ⟨number, (evolved.mono (Set.empty_subset _)).trans
              (touched.mono fun place inside => ?_).evolved⟩
            rw [touchedFiles, ← evolved.keepsDirs.1]
            rcases inside with target | temporary
            · exact .inl (Disk.location_of_resolve target)
            · exact .inr (Disk.location_of_resolve temporary)
          apply Ends.tryCatch (publish_touched writable)
          · rintro success final ⟨touched, placed⟩
            exact ⟨further touched, fun returned => .inr ⟨_, number, evolved, placed returned⟩⟩
          · rintro thrown left ⟨touched, _⟩
            have target (place : List Bytes) (resolved : left.disk.resolve fullPath = some place) :
                place ∈ writePlaces (Fs.begun created []).disk fullPath
                  (tempPath fullPath (100000 + number.val)) :=
              .inl (touched.resolve fullPath ▸ resolved)
            apply Ends.bind (remove_touched (writable_of_touched touched writable) target)
            · exact fun _ final removed =>
                ⟨further (touched.trans removed), fun returned => by cases returned⟩
            · exact fun _ final removed =>
                ⟨further (touched.trans removed), fun returned => by cases returned⟩
        · rintro _ _ ⟨_, _, _, returned, _⟩
          cases returned
  · rintro thrown final ⟨same, _⟩
    exact ⟨⟨0, same ▸ .refl _⟩, fun returned => by cases returned⟩

end Write

/-! ## Shards -/

section Save

variable (host : Host) (digest : Bytes → Digest) (config : StoreConfig) (fileMd5 : Bytes)

/-- The directory of the shards of a file. -/
def shardDir : Bytes := config.rootDir ++ 47 :: (config.tempDir ++ 47 :: fileMd5)

/-- The name of the file of a shard. -/
def shardName (shardIndex : UInt32) : Bytes := fileMd5 ++ 95 :: decimal shardIndex.toNat

/-- `save_shard`. -/
def saveShard (shardIndex : UInt32) (content shardMd5 : Bytes) : FsOp Bool := do
  if md5Hex digest content ≠ shardMd5 then return false
  else
    let relPath := shardDir config fileMd5 ++ 47 :: shardName fileMd5 shardIndex
    if ← writeDisk host relPath content then return true else return false

/-- The arguments of a call of `save_shard` besides the MD5 of the file. -/
structure ShardSave where
  shardIndex : UInt32
  content : Bytes
  shardMd5 : Bytes

/-- Calls of `save_shard` so far: the machine, and the indices for which one has returned
true. -/
structure ShardSaves where
  machine : Machine
  returnedTrue : List UInt32 := []

/-- One more call; what it throws is left to its caller. -/
def ShardSaves.step (saves : ShardSaves) (save : ShardSave) : ShardSaves :=
  match (saveShard host digest config fileMd5 save.shardIndex save.content save.shardMd5).run
      saves.machine with
  | .ok true machine => { machine, returnedTrue := saves.returnedTrue ++ [save.shardIndex] }
  | .ok false machine => { saves with machine }
  | .error _ machine => { saves with machine }

/-- Calls of `save_shard` in turn. -/
def afterSaves (machine : Machine) (calls : List ShardSave) : ShardSaves :=
  run (ShardSaves.step host digest config fileMd5) { machine } calls

end Save

/-! ## Names -/

/-- A scan reads the name of every shard file as the number the MD5 starts with. -/
theorem stoi_of_hex {fileMd5 : Bytes} (hex : IsHexMd5 fileMd5) (rest : Bytes) :
    stoi (fileMd5 ++ 95 :: rest) = stoi fileMd5 := by
  have plain : ∀ byte : UInt8, isHexDigit byte = true →
      isSpace byte = false ∧ byte ≠ 45 ∧ byte ≠ 43 := forall_byte (by decide +kernel)
  obtain ⟨first, more, rfl⟩ := List.exists_cons_of_ne_nil
    (List.ne_nil_of_length_pos (hex.1 ▸ by decide : 0 < fileMd5.length))
  exact stoi_append (plain first (hex.2 first (List.mem_cons_self ..))) more (by decide) rest

/-! ## Places -/

section Places

variable {config : StoreConfig} {fileMd5 : Bytes} (hex : IsHexMd5 fileMd5)

include hex

theorem isName_of_isHexMd5 : IsName fileMd5 :=
  isName_of_hex (List.ne_nil_of_length_pos (hex.1 ▸ by decide)) hex.2

/-- The directories of the shards are names. -/
theorem isName_shardNames : ∀ name ∈ [config.tempDir, fileMd5], IsName name := by
  intro name member
  rcases List.mem_cons.mp member with rfl | member
  · exact config.isName_tempDir
  · rw [List.mem_singleton.mp member]
    exact isName_of_isHexMd5 hex

/-- So is the name of a shard. -/
theorem isName_shardName (shardIndex : UInt32) : IsName (shardName fileMd5 shardIndex) := by
  have digits (other : UInt8) (notDigit : isDigit other = false) :
      other ∉ decimal shardIndex.toNat := fun member => by
    rw [isDigit_of_mem_decimal member] at notDigit
    cases notDigit
  have plain := isName_of_isHexMd5 hex
  refine isName_of_long ?_ ?_ ?_
  · rw [shardName, List.length_append, hex.1]
    omega
  · rw [shardName, List.mem_append, List.mem_cons, not_or, not_or]
    exact ⟨plain.2.2.2.1, by decide, digits 47 (by decide)⟩
  · rw [shardName, List.mem_append, List.mem_cons, not_or, not_or]
    exact ⟨plain.2.2.2.2, by decide, digits 0 (by decide)⟩

/-- The directory is named below the root directory, written with its slash. -/
theorem shardDir_eq_join : shardDir config fileMd5 =
    join (config.rootDir ++ [47]) (render [config.tempDir, fileMd5]) := by
  have unnamed : hasFilename (config.rootDir ++ [47]) = false :=
    hasFilename_append_of_ne_nil (List.cons_ne_nil _ _) _
  rw [join_of_relative (isAbsolute_render (isName_shardNames hex)), unnamed,
    if_neg Bool.false_ne_true, List.nil_append, List.append_assoc]
  rfl

omit hex in
/-- The path of the root directory is read as a whole. -/
theorem zero_not_mem_rootDir_slash : (0 : UInt8) ∉ config.rootDir ++ [47] := by
  rw [List.mem_append, not_or]
  exact ⟨config.zero_not_mem_rootDir, by decide⟩

omit hex in
/-- The root directory is found with a slash behind it. -/
theorem look_rootDir_slash {disk : Disk} (directory : disk.look config.rootDir = some .dir) :
    disk.look (config.rootDir ++ [47]) = some .dir := by
  have stored := Disk.node_location_of_look directory
  refine Option.bind_eq_some_iff.mpr ⟨location disk.cwd config.rootDir, ?_, stored⟩
  rw [Disk.resolve_slash_of_look config.rootDir_ne_nil config.zero_not_mem_rootDir directory,
    show components (cString []) = [[]] from rfl, Disk.walk, if_pos stored]
  rfl

/-- The directory of the shards stands below the root. -/
theorem location_shardDir (cwd : List Bytes) : location cwd (shardDir config fileMd5) =
    location cwd config.rootDir ++ [config.tempDir, fileMd5] := by
  rw [shardDir_eq_join hex, location_join_render (List.append_ne_nil_of_left_ne_nil
    config.rootDir_ne_nil _) zero_not_mem_rootDir_slash (isName_shardNames hex),
    location_trailing_slash config.rootDir_ne_nil config.zero_not_mem_rootDir]

/-- It ends in the MD5. -/
theorem hasFilename_shardDir : hasFilename (shardDir config fileMd5) = true := by
  have plain := isName_of_isHexMd5 hex
  have text : shardDir config fileMd5 =
      (config.rootDir ++ 47 :: (config.tempDir ++ [47])) ++ fileMd5 := by
    rw [List.append_assoc, List.cons_append, List.append_assoc]
    rfl
  rw [text]
  exact hasFilename_append plain.1 plain.2.2.2.1 _

/-- It is the parent of what is saved in it. -/
theorem parentPath_shardDir {last : Bytes} (plain : (47 : UInt8) ∉ last) :
    parentPath (shardDir config fileMd5 ++ 47 :: last) = shardDir config fileMd5 :=
  parentPath_append (hasFilename_shardDir hex) plain

/-- Creating the directory of the shards creates nothing inside it. -/
theorem dir_of_passed {disk : Disk} (directory : disk.look config.rootDir = some .dir) {name : Bytes}
    (inside : location disk.cwd (shardDir config fileMd5) ++ [name] ∈
      Fs.passed disk.cwd (shardDir config fileMd5)) :
    disk.node (location disk.cwd (shardDir config fileMd5) ++ [name]) = some .dir := by
  have nonempty : config.rootDir ++ [47] ≠ [] :=
    List.append_ne_nil_of_left_ne_nil config.rootDir_ne_nil _
  rw [shardDir_eq_join hex] at inside
  rcases Fs.passed_join_render nonempty zero_not_mem_rootDir_slash (look_rootDir_slash directory)
    (isName_shardNames hex) (List.cons_ne_nil _ _) inside with there | ⟨taken, _, front, place⟩
  · rwa [← shardDir_eq_join hex] at there
  · rw [← shardDir_eq_join hex, location_shardDir hex,
      location_trailing_slash config.rootDir_ne_nil config.zero_not_mem_rootDir,
      List.append_assoc] at place
    have short := front.length_le
    rw [← List.append_cancel_left place] at short
    simp at short

end Places

/-! ## What a call leaves -/

/-- The root directory is there, and the directory of the shards holds files named after
the MD5 only. -/
structure OnlyShards (config : StoreConfig) (fileMd5 : Bytes) (disk : Disk) : Prop where
  root : disk.look config.rootDir = some .dir
  named : ∀ name entry, disk.node (location disk.cwd (shardDir config fileMd5) ++ [name]) =
    some entry → IsName name ∧ ∃ rest, name = fileMd5 ++ 95 :: rest
  files : ∀ name, disk.node (location disk.cwd (shardDir config fileMd5) ++ [name]) ≠ some .dir

/-- The directory of the shards has an entry with the name. -/
def Holds (config : StoreConfig) (fileMd5 : Bytes) (disk : Disk) (name : Bytes) : Prop :=
  disk.node (location disk.cwd (shardDir config fileMd5) ++ [name]) ≠ none

/-- What a call that returns true leaves in the directory of the shards. -/
structure ShardSaved (config : StoreConfig) (fileMd5 : Bytes) (shardIndex : UInt32)
    (before after : Disk) : Prop where
  directory : after.look (shardDir config fileMd5) = some .dir
  saved : Holds config fileMd5 after (shardName fileMd5 shardIndex)
  nothingElse : ∀ name, Holds config fileMd5 after name →
    name = shardName fileMd5 shardIndex ∨ Holds config fileMd5 before name
  kept : ∀ other, Holds config fileMd5 before (shardName fileMd5 other) →
    Holds config fileMd5 after (shardName fileMd5 other)

section Saved

variable {host : Host} {digest : Bytes → Digest} {config : StoreConfig} {fileMd5 : Bytes}
  {shardIndex : UInt32} {content : Bytes} (hex : IsHexMd5 fileMd5)

include hex

/-- Its path is read as a whole. -/
theorem zero_not_mem_shardDir : (0 : UInt8) ∉ shardDir config fileMd5 := by
  rw [shardDir, List.mem_append, List.mem_cons, List.mem_append, List.mem_cons]
  simp only [not_or]
  exact ⟨config.zero_not_mem_rootDir, by decide, config.isName_tempDir.2.2.2.2, by decide,
    (isName_of_isHexMd5 hex).2.2.2.2⟩

/-- A shard stands in it. -/
theorem location_inside {name : Bytes} (valid : IsName name) (cwd : List Bytes) :
    location cwd (shardDir config fileMd5 ++ 47 :: name) =
      location cwd (shardDir config fileMd5) ++ [name] :=
  location_append_isName (List.append_ne_nil_of_left_ne_nil config.rootDir_ne_nil _)
    (zero_not_mem_shardDir hex) valid cwd

/-- So does its temporary file. -/
theorem location_tempPath_inside {name : Bytes} (valid : IsName name) (number : Nat)
    (cwd : List Bytes) :
    location cwd (tempPath (shardDir config fileMd5 ++ 47 :: name) number) =
      location cwd (shardDir config fileMd5) ++ [name ++ (bytes ".tmp." ++ decimal number)] := by
  rw [tempPath, List.append_assoc, List.cons_append]
  exact location_inside hex (isName_append_temp valid.2.2.2.1 valid.2.2.2.2 number) cwd

/-- What a write through a temporary file can touch in the directory of the shards. -/
theorem mem_touchedFiles_inside {name other : Bytes} (valid : IsName name) {number : Nat}
    {cwd : List Bytes} (inside : location cwd (shardDir config fileMd5) ++ [other] ∈
      touchedFiles cwd (shardDir config fileMd5 ++ 47 :: name) number) :
    other = name ∨ other = name ++ (bytes ".tmp." ++ decimal number) := by
  rw [touchedFiles, location_inside hex valid, location_tempPath_inside hex valid] at inside
  rcases inside with target | temporary
  · exact .inl (List.cons.inj (List.append_cancel_left target)).1
  · exact .inr (List.cons.inj (List.append_cancel_left temporary)).1

section Evolved

variable {files : Set (List Bytes)} {before after : Disk}
  (directory : before.look config.rootDir = some .dir)
  (evolved : Disk.Evolved (Fs.passed before.cwd (shardDir config fileMd5)) files before after)

include directory evolved

/-- Besides the given files nothing changes in the directory of the shards. -/
theorem node_of_evolved {name : Bytes}
    (outside : location before.cwd (shardDir config fileMd5) ++ [name] ∉ files) :
    after.node (location before.cwd (shardDir config fileMd5) ++ [name]) =
      before.node (location before.cwd (shardDir config fileMd5) ++ [name]) := by
  rcases evolved.node _ outside with same | ⟨passed, absent, _⟩
  · exact same
  · rw [dir_of_passed hex directory passed] at absent
    cases absent

/-- A save creates no directory in it. -/
theorem dir_of_evolved {name : Bytes}
    (there : after.node (location before.cwd (shardDir config fileMd5) ++ [name]) = some .dir) :
    before.node (location before.cwd (shardDir config fileMd5) ++ [name]) = some .dir := by
  rcases evolved.newDirs _ there with old | passed
  · exact old
  · exact dir_of_passed hex directory passed

end Evolved

/-- Writing a shard leaves files named after the MD5. -/
theorem OnlyShards.evolved {before after : Disk} (only : OnlyShards config fileMd5 before)
    {number : Nat} (evolved : Disk.Evolved (Fs.passed before.cwd (shardDir config fileMd5))
      (touchedFiles before.cwd (shardDir config fileMd5 ++ 47 :: shardName fileMd5 shardIndex) number)
      before after) : OnlyShards config fileMd5 after := by
  have shard := isName_shardName hex shardIndex
  have cwd := evolved.keepsDirs.1
  refine ⟨evolved.keepsDirs.look_dir only.root, fun name entry there => ?_, fun name there => ?_⟩
  · rw [cwd] at there
    by_cases inside : location before.cwd (shardDir config fileMd5) ++ [name] ∈
        touchedFiles before.cwd (shardDir config fileMd5 ++ 47 :: shardName fileMd5 shardIndex) number
    · rcases mem_touchedFiles_inside hex shard inside with rfl | rfl
      · exact ⟨shard, _, rfl⟩
      · exact ⟨isName_append_temp shard.2.2.2.1 shard.2.2.2.2 number, _, List.append_assoc ..⟩
    · rw [node_of_evolved hex only.root evolved inside] at there
      exact only.named name entry there
  · rw [cwd] at there
    exact only.files name (dir_of_evolved hex only.root evolved there)

omit hex in
/-- The name of a shard is not that of a temporary file. -/
theorem shardName_ne_temp (other : UInt32) (number : Nat) :
    shardName fileMd5 other ≠ shardName fileMd5 shardIndex ++ (bytes ".tmp." ++ decimal number) := by
  intro same
  rw [shardName, shardName, List.append_assoc] at same
  have digits := (List.cons.inj (List.append_cancel_left same)).2
  have dot : (46 : UInt8) ∈ decimal other.toNat := by
    rw [digits]
    refine List.mem_append_right _ (List.mem_append_left _ ?_)
    decide
  have digit := isDigit_of_mem_decimal dot
  exact absurd digit (by decide)

/-- What the creation of directories and the write leave, put together. -/
theorem shardSaved_of_placed {before tree after : Disk} (only : OnlyShards config fileMd5 before)
    {number : Nat}
    (evolved : Disk.Evolved (Fs.passed before.cwd (shardDir config fileMd5)) ∅ before tree)
    (placed : Placed content (shardDir config fileMd5 ++ 47 :: shardName fileMd5 shardIndex)
      (tempPath (shardDir config fileMd5 ++ 47 :: shardName fileMd5 shardIndex) number) tree after) :
    ShardSaved config fileMd5 shardIndex before after := by
  have shard := isName_shardName hex shardIndex
  have treeCwd := evolved.keepsDirs.1
  have cwd : after.cwd = before.cwd := placed.touched.keepsDirs.1.trans treeCwd
  have nonempty : shardDir config fileMd5 ≠ [] :=
    List.append_ne_nil_of_left_ne_nil config.rootDir_ne_nil _
  have created (name : Bytes) : tree.node (location before.cwd (shardDir config fileMd5) ++ [name]) =
      before.node (location before.cwd (shardDir config fileMd5) ++ [name]) :=
    node_of_evolved hex only.root evolved (Set.notMem_empty _)
  have target := placed.hasFile.2
  rw [cwd, location_inside hex shard] at target
  have elsewhere (name : Bytes) (other : name ≠ shardName fileMd5 shardIndex)
      (final : name ≠ shardName fileMd5 shardIndex ++ (bytes ".tmp." ++ decimal number)) :
      after.node (location before.cwd (shardDir config fileMd5) ++ [name]) =
        before.node (location before.cwd (shardDir config fileMd5) ++ [name]) := by
    rw [← created, placed.touched.node]
    rw [treeCwd, location_inside hex shard, location_tempPath_inside hex shard]
    rintro (here | here)
    · exact other (List.cons.inj (List.append_cancel_left here)).1
    · exact final (List.cons.inj (List.append_cancel_left here)).1
  refine ⟨Disk.look_dir_of_slash nonempty (zero_not_mem_shardDir hex) placed.hasFile.look, ?_,
    fun name there => ?_, fun other there => ?_⟩
  · rw [Holds, cwd, target]
    exact Option.some_ne_none _
  · rw [Holds, cwd] at there
    by_cases here : name = shardName fileMd5 shardIndex
    · exact .inl here
    · by_cases temporary : name = shardName fileMd5 shardIndex ++ (bytes ".tmp." ++ decimal number)
      · have gone := placed.gone
        rw [treeCwd, location_inside hex shard, location_tempPath_inside hex shard, ← temporary]
          at gone
        exact absurd (gone fun same => here (List.cons.inj (List.append_cancel_left same)).1) there
      · rw [elsewhere name here temporary] at there
        exact .inr there
  · rw [Holds, cwd]
    by_cases here : shardName fileMd5 other = shardName fileMd5 shardIndex
    · rw [here, target]
      exact Option.some_ne_none _
    · rw [elsewhere _ here (shardName_ne_temp other number)]
      exact there

/-- Writing a shard, whatever call fails. -/
theorem writeShard_ends {machine : Machine} (only : OnlyShards config fileMd5 machine.disk) :
    Ends (writeDisk host (shardDir config fileMd5 ++ 47 :: shardName fileMd5 shardIndex) content)
      machine fun result final => OnlyShards config fileMd5 final.disk ∧
        (result = .ok true → ShardSaved config fileMd5 shardIndex machine.disk final.disk) := by
  have shard := isName_shardName hex shardIndex
  have parent : parentPath (shardDir config fileMd5 ++ 47 :: shardName fileMd5 shardIndex) =
      shardDir config fileMd5 := parentPath_shardDir hex shard.2.2.2.1
  have free (tree : Disk) (evolved : Disk.Evolved (Fs.passed machine.disk.cwd
      (parentPath (shardDir config fileMd5 ++ 47 :: shardName fileMd5 shardIndex))) ∅ machine.disk
      tree) : Writable tree (shardDir config fileMd5 ++ 47 :: shardName fileMd5 shardIndex) := by
    intro place resolved directory
    rw [parent] at evolved
    rw [Disk.location_of_resolve resolved, evolved.keepsDirs.1, location_inside hex shard] at directory
    exact only.files _ (dir_of_evolved hex only.root evolved directory)
  refine (writeDisk_places free).mono ?_
  rw [parent]
  rintro result final ⟨⟨number, evolved⟩, succeeded⟩
  refine ⟨only.evolved hex evolved, fun returned => ?_⟩
  rcases succeeded returned with ⟨same, _, there⟩ | ⟨tree, _, created, placed⟩
  · have stored := Disk.node_location_of_look there
    rw [location_inside hex shard] at stored
    rw [same]
    refine ⟨Disk.look_dir_of_slash (List.append_ne_nil_of_left_ne_nil config.rootDir_ne_nil _)
      (zero_not_mem_shardDir hex) there, ?_, fun _ => .inr, fun _ => id⟩
    rw [Holds, stored]
    exact Option.some_ne_none _
  · exact shardSaved_of_placed hex only created placed

/-- Saving a shard, whatever call fails. -/
theorem saveShard_ends {machine : Machine} (only : OnlyShards config fileMd5 machine.disk)
    (shardMd5 : Bytes) :
    Ends (saveShard host digest config fileMd5 shardIndex content shardMd5) machine
      fun result final => OnlyShards config fileMd5 final.disk ∧
        (result = .ok true → ShardSaved config fileMd5 shardIndex machine.disk final.disk) := by
  unfold saveShard
  refine Ends.ite (fun _ => ⟨only, fun returned => by cases returned⟩) fun _ => ?_
  apply Ends.bind (writeShard_ends hex only)
  · rintro written final ⟨kept, saved⟩
    cases written with
    | true => exact ⟨kept, fun _ => saved rfl⟩
    | false => exact ⟨kept, fun returned => by cases returned⟩
  · exact fun thrown final ⟨kept, _⟩ => ⟨kept, fun returned => by cases returned⟩

/-- One more call adds its index only when it has saved its shard. -/
theorem ShardSaves.step_spec {saves : ShardSaves} (only : OnlyShards config fileMd5 saves.machine.disk)
    (save : ShardSave) :
    OnlyShards config fileMd5 (saves.step host digest config fileMd5 save).machine.disk ∧
      ((saves.step host digest config fileMd5 save).returnedTrue = saves.returnedTrue ∨
        (saves.step host digest config fileMd5 save).returnedTrue =
            saves.returnedTrue ++ [save.shardIndex] ∧
          ShardSaved config fileMd5 save.shardIndex saves.machine.disk
            (saves.step host digest config fileMd5 save).machine.disk) := by
  have ends : Ends (saveShard host digest config fileMd5 save.shardIndex save.content save.shardMd5)
      saves.machine fun result final => OnlyShards config fileMd5 final.disk ∧
        (result = .ok true →
          ShardSaved config fileMd5 save.shardIndex saves.machine.disk final.disk) :=
    saveShard_ends hex only save.shardMd5
  unfold Ends at ends
  unfold ShardSaves.step
  cases ended : (saveShard host digest config fileMd5 save.shardIndex save.content
      save.shardMd5).run saves.machine with
  | ok written final =>
      rw [ended] at ends
      cases written with
      | true => exact ⟨ends.1, .inr ⟨rfl, ends.2 rfl⟩⟩
      | false => exact ⟨ends.1, .inl rfl⟩
  | error thrown final =>
      rw [ended] at ends
      exact ⟨ends.1, .inl rfl⟩

end Saved

/-! ## The scan after the saves -/

/-- The entries of a directory. -/
def entriesOf (disk : Disk) (directory : Bytes) : List Bytes :=
  if disk.look directory = some .dir then disk.names (location disk.cwd directory) else []

/-- The scan gives exactly the indices, each once. -/
def ScanExact (scan : List Int) (indices : List UInt32) : Prop :=
  scan.Nodup ∧ ∀ number : Int, number ∈ scan ↔ ∃ index ∈ indices, number = index.toNat

section Scan

variable {host scanHost : Host} {digest : Bytes → Digest} {config : StoreConfig} {fileMd5 : Bytes}
  (hex : IsHexMd5 fileMd5)

include hex

/-- Every entry counts for the number that the MD5 starts with. -/
theorem scanned_eq {disk : Disk} (only : OnlyShards config fileMd5 disk) :
    scanned disk (shardDir config fileMd5) =
      (entriesOf disk (shardDir config fileMd5)).filterMap fun _ => stoi fileMd5 := by
  unfold scanned entriesOf
  by_cases directory : disk.look (shardDir config fileMd5) = some .dir
  · rw [if_pos directory, if_pos directory]
    refine List.filterMap_congr fun name listed => ?_
    obtain ⟨entry, stored⟩ := Disk.mem_names_iff.mp listed
    obtain ⟨valid, rest, text⟩ := only.named name entry stored
    have nonempty : shardDir config fileMd5 ≠ [] :=
      List.append_ne_nil_of_left_ne_nil config.rootDir_ne_nil _
    have walked := look_join_name nonempty (zero_not_mem_shardDir hex) directory valid
    rw [stored] at walked
    cases entry with
    | dir => exact absurd stored (only.files name)
    | file content => rw [numbered, walked, text, stoi_of_hex hex]
  · rw [if_neg directory, if_neg directory]
    rfl

omit hex in
/-- The order of a scan does not matter. -/
theorem scanExact_perm {first second : List Int} (perm : first.Perm second) {indices : List UInt32} :
    ScanExact first indices ↔ ScanExact second indices := by
  unfold ScanExact
  simp only [perm.nodup_iff, perm.mem_iff]

omit hex in
/-- A scan that reads every entry as one and the same number. -/
theorem scanExact_filterMap (entries : List Bytes) (value : Option Int) (indices : List UInt32) :
    ScanExact (entries.filterMap fun _ => value) indices ↔
      (∀ index ∈ indices, value = some (index.toNat : Int)) ∧
        (value = none ∨ entries.length = indices.toFinset.card) := by
  cases value with
  | none =>
      rw [List.filterMap_none, ScanExact]
      refine ⟨fun exact => ⟨fun index member => ?_, .inl rfl⟩, fun both => ⟨List.nodup_nil, ?_⟩⟩
      · exact absurd ((exact.2 _).mpr ⟨index, member, rfl⟩) List.not_mem_nil
      · refine fun number => ⟨fun member => absurd member List.not_mem_nil, ?_⟩
        rintro ⟨index, member, _⟩
        cases both.1 index member
  | some value =>
      have scan : (entries.filterMap fun _ => some value) = List.replicate entries.length value := by
        rw [← List.map_const', ← List.filterMap_eq_map]
        rfl
      rw [scan, ScanExact, List.nodup_replicate]
      simp only [List.mem_replicate, Option.some.injEq, reduceCtorEq, false_or]
      generalize entries.length = count
      cases indices with
      | nil =>
          simp only [List.not_mem_nil, false_and, exists_false, iff_false, false_implies,
            implies_true, List.toFinset_nil, Finset.card_empty, true_and]
          refine ⟨fun exact => ?_, fun empty => ⟨by omega, fun _ both => both.1 empty⟩⟩
          by_contra some
          exact exact.2 value ⟨some, rfl⟩
      | cons first rest =>
          have single (same : ∀ index ∈ first :: rest, value = index.toNat) :
              (first :: rest).toFinset.card = 1 := by
            refine Finset.card_eq_one.mpr ⟨first, Finset.eq_singleton_iff_unique_mem.mpr
              ⟨List.mem_toFinset.mpr (List.mem_cons_self ..), fun other member => ?_⟩⟩
            have here := same first (List.mem_cons_self ..)
            have there := same other (List.mem_toFinset.mp member)
            exact UInt32.toNat_inj.mp (by omega)
          constructor
          · rintro ⟨atMostOne, exact⟩
            have same (index : UInt32) (member : index ∈ first :: rest) : value = index.toNat :=
              ((exact _).mpr ⟨index, member, rfl⟩).2.symm
            have some := ((exact _).mpr ⟨first, List.mem_cons_self .., rfl⟩).1
            exact ⟨same, by rw [single same]; omega⟩
          · rintro ⟨same, count⟩
            rw [single same] at count
            refine ⟨count.le, fun number => ⟨fun both => ?_, fun ⟨index, member, equal⟩ => ?_⟩⟩
            · exact ⟨first, List.mem_cons_self .., both.2.trans (same first (List.mem_cons_self ..))⟩
            · exact ⟨by omega, equal.trans (same index member).symm⟩

end Scan

/-! ## Runs of saves -/

section Runs

variable {host scanHost : Host} {digest : Bytes → Digest} {config : StoreConfig} {fileMd5 : Bytes}

/-- The root directory is there, and nothing below the directory of the shards. -/
structure NoShards (config : StoreConfig) (fileMd5 : Bytes) (disk : Disk) : Prop where
  root : disk.look config.rootDir = some .dir
  nothing : ∀ name, ¬ Holds config fileMd5 disk name

/-- Where nothing is in the directory there are only shards. -/
theorem NoShards.onlyShards {disk : Disk} (none : NoShards config fileMd5 disk) :
    OnlyShards config fileMd5 disk where
  root := none.root
  named := fun name entry there =>
    absurd (by rw [Holds, there]; exact Option.some_ne_none _) (none.nothing name)
  files := fun name there =>
    none.nothing name (by rw [Holds, there]; exact Option.some_ne_none _)

/-- Shards of different indices have different names. -/
theorem shardName_injective : Function.Injective (shardName fileMd5) := by
  intro first second same
  have digits := (List.cons.inj (List.append_cancel_left same)).2
  have numbers := congrArg decimalValue digits
  rw [decimalValue_decimal, decimalValue_decimal] at numbers
  exact UInt32.toNat_inj.mp numbers

/-- The directory holds the files of the indices for which a call has returned true. -/
structure Complete (config : StoreConfig) (fileMd5 : Bytes) (saves : ShardSaves) : Prop where
  only : OnlyShards config fileMd5 saves.machine.disk
  directory : saves.returnedTrue ≠ [] →
    saves.machine.disk.look (shardDir config fileMd5) = some .dir
  holds : ∀ name, Holds config fileMd5 saves.machine.disk name ↔
    ∃ index ∈ saves.returnedTrue, name = shardName fileMd5 index

/-- A call that returns true adds its file. -/
theorem Complete.saved {saves later : ShardSaves} (complete : Complete config fileMd5 saves)
    {index : UInt32} (only : OnlyShards config fileMd5 later.machine.disk)
    (returned : later.returnedTrue = saves.returnedTrue ++ [index])
    (saved : ShardSaved config fileMd5 index saves.machine.disk later.machine.disk) :
    Complete config fileMd5 later := by
  refine ⟨only, fun _ => saved.directory, fun name => ⟨fun there => ?_, ?_⟩⟩
  · rw [returned]
    rcases saved.nothingElse name there with new | old
    · exact ⟨index, List.mem_append_right _ (List.mem_singleton_self _), new⟩
    · obtain ⟨earlier, member, text⟩ := (complete.holds name).mp old
      exact ⟨earlier, List.mem_append_left _ member, text⟩
  · rintro ⟨other, member, rfl⟩
    rw [returned] at member
    rcases List.mem_append.mp member with old | new
    · exact saved.kept other ((complete.holds _).mpr ⟨other, old, rfl⟩)
    · rw [List.mem_singleton.mp new]
      exact saved.saved

/-- The files are as many as the indices. -/
theorem Complete.length_entriesOf {saves : ShardSaves} (complete : Complete config fileMd5 saves) :
    (entriesOf saves.machine.disk (shardDir config fileMd5)).length =
      saves.returnedTrue.toFinset.card := by
  have holds (name : Bytes) : name ∈ saves.machine.disk.names
      (location saves.machine.disk.cwd (shardDir config fileMd5)) ↔
        ∃ index ∈ saves.returnedTrue, name = shardName fileMd5 index := by
    rw [Disk.mem_names_iff, ← Option.isSome_iff_exists, ← complete.holds, Holds,
      Option.isSome_iff_ne_none]
  unfold entriesOf
  by_cases some : saves.returnedTrue = []
  · have empty : saves.machine.disk.names
        (location saves.machine.disk.cwd (shardDir config fileMd5)) = [] := by
      refine List.eq_nil_iff_forall_not_mem.mpr fun name listed => ?_
      obtain ⟨index, member, _⟩ := (holds name).mp listed
      rw [some] at member
      exact List.not_mem_nil member
    rw [empty, some, ite_self]
    rfl
  · rw [if_pos (complete.directory some), ← List.toFinset_card_of_nodup (Disk.nodup_names ..),
      ← Finset.card_image_of_injective _ (@shardName_injective fileMd5)]
    congr 1
    ext name
    rw [List.mem_toFinset, holds, Finset.mem_image]
    simp only [List.mem_toFinset, eq_comm]

variable (hex : IsHexMd5 fileMd5)

include hex

/-- Saving shards leaves only shards in the directory. -/
theorem onlyShards_run {saves : ShardSaves} (only : OnlyShards config fileMd5 saves.machine.disk)
    (calls : List ShardSave) : OnlyShards config fileMd5
      (run (ShardSaves.step host digest config fileMd5) saves calls).machine.disk := by
  induction calls generalizing saves with
  | nil => exact only
  | cons save calls ih => exact ih (ShardSaves.step_spec hex only save).1

/-- After any calls of `save_shard`, whichever of them fail, a scan gives exactly the
indices for which one has returned true if and only if each of these is the number that
the MD5 starts with and, when it starts with one, there is one file for each index. -/
theorem scanExact_iff {machine : Machine} (none : NoShards config fileMd5 machine.disk)
    (calls : List ShardSave) {scan : List Int}
    (scanned : outcome (getShardIndex scanHost (shardDir config fileMd5))
      (afterSaves host digest config fileMd5 machine calls).machine = .ok scan) :
    ScanExact scan (afterSaves host digest config fileMd5 machine calls).returnedTrue ↔
      (∀ index ∈ (afterSaves host digest config fileMd5 machine calls).returnedTrue,
        stoi fileMd5 = some (index.toNat : Int)) ∧
      (stoi fileMd5 = .none ∨
        (entriesOf (afterSaves host digest config fileMd5 machine calls).machine.disk
          (shardDir config fileMd5)).length =
        (afterSaves host digest config fileMd5 machine calls).returnedTrue.toFinset.card) := by
  have only : OnlyShards config fileMd5
      (afterSaves host digest config fileMd5 machine calls).machine.disk :=
    onlyShards_run hex none.onlyShards calls
  rw [scanExact_perm (scan_perm scanned), scanned_eq hex only, scanExact_filterMap]

/-- When every call has returned true, there is one file for each index. -/
theorem complete_of_all {machine : Machine} (none : NoShards config fileMd5 machine.disk)
    (calls : List ShardSave) :
    (afterSaves host digest config fileMd5 machine calls).returnedTrue.length ≤ calls.length ∧
    ((afterSaves host digest config fileMd5 machine calls).returnedTrue.length = calls.length →
      Complete config fileMd5 (afterSaves host digest config fileMd5 machine calls)) := by
  induction calls using List.reverseRecOn with
  | nil =>
      refine ⟨le_rfl, fun _ => ⟨none.onlyShards, fun some => absurd rfl some, fun name => ?_⟩⟩
      refine ⟨fun there => absurd there (none.nothing name), ?_⟩
      rintro ⟨_, member, _⟩
      cases member
  | append_singleton calls save ih =>
      have only : OnlyShards config fileMd5
          (afterSaves host digest config fileMd5 machine calls).machine.disk :=
        onlyShards_run hex none.onlyShards calls
      have last : afterSaves host digest config fileMd5 machine (calls ++ [save]) =
          (afterSaves host digest config fileMd5 machine calls).step host digest config fileMd5 save :=
        run_concat ..
      rw [last, List.length_append, List.length_singleton]
      obtain ⟨kept, same | ⟨more, saved⟩⟩ :=
        @ShardSaves.step_spec host digest config fileMd5 hex _ only save
      · rw [same]
        exact ⟨by omega, fun all => by omega⟩
      · rw [more, List.length_append, List.length_singleton]
        exact ⟨by omega, fun all => (ih.2 (by omega)).saved kept more saved⟩

/-- In a run whose calls have all returned true, a scan gives exactly their indices if and
only if each of these is the number that the MD5 starts with. -/
theorem scanExact_iff_of_all {machine : Machine} (none : NoShards config fileMd5 machine.disk)
    (calls : List ShardSave)
    (all : (afterSaves host digest config fileMd5 machine calls).returnedTrue.length = calls.length)
    {scan : List Int} (scanned : outcome (getShardIndex scanHost (shardDir config fileMd5))
      (afterSaves host digest config fileMd5 machine calls).machine = .ok scan) :
    ScanExact scan (afterSaves host digest config fileMd5 machine calls).returnedTrue ↔
      ∀ index ∈ (afterSaves host digest config fileMd5 machine calls).returnedTrue,
        stoi fileMd5 = some (index.toNat : Int) := by
  have complete := (complete_of_all hex none calls).2 all
  rw [scanExact_perm (scan_perm scanned), scanned_eq hex complete.only, scanExact_filterMap]
  exact and_iff_left (.inr complete.length_entriesOf)

end Runs

/-- The MD5 of `hello`. -/
def helloMd5 : Bytes := bytes "5d41402abc4b2a76b9719d911017c592"

theorem isHexMd5_helloMd5 : IsHexMd5 helloMd5 := by decide +kernel

/-- A call that saves `hello` as the shard with the index. -/
def helloShard (shardIndex : UInt32) : ShardSave where
  shardIndex := shardIndex
  content := bytes "hello"
  shardMd5 := md5Hex FileCtl.sampleDigest (bytes "hello")

/-- The sample disk has no shard of it. -/
theorem noShards_sampleDisk : NoShards {} helloMd5 FileCtl.sampleDisk where
  root := by decide +kernel
  nothing := by
    intro name there
    have shallow : ∀ entry ∈ FileCtl.sampleDisk.tree.entries, entry.1.length ≤ 3 := by decide +kernel
    have place : location FileCtl.sampleDisk.cwd (shardDir {} helloMd5) =
        [bytes "srv", bytes "data", bytes "store", bytes "_tmp", helloMd5] := by decide +kernel
    obtain ⟨entry, stored⟩ := Option.ne_none_iff_exists'.mp there
    have deep := shallow _ (OrderedMap.mem_entries_iff.mpr stored)
    rw [place, List.length_append] at deep
    exact absurd deep (by simp)

/-- One shard, whose index is the number that the MD5 starts with. -/
theorem scanExact_helloShard : ScanExact [5]
    (afterSaves FileCtl.calmHost FileCtl.sampleDigest {} helloMd5 { disk := FileCtl.sampleDisk }
      [helloShard 5]).returnedTrue := by
  obtain ⟨scan, returned, files⟩ :
      outcome (getShardIndex FileCtl.calmHost (shardDir {} helloMd5))
        (afterSaves FileCtl.calmHost FileCtl.sampleDigest {} helloMd5 { disk := FileCtl.sampleDisk }
          [helloShard 5]).machine = .ok [5] ∧
      (afterSaves FileCtl.calmHost FileCtl.sampleDigest {} helloMd5
        { disk := FileCtl.sampleDisk } [helloShard 5]).returnedTrue = [5] ∧
      (entriesOf (afterSaves FileCtl.calmHost FileCtl.sampleDigest {} helloMd5
        { disk := FileCtl.sampleDisk } [helloShard 5]).machine.disk
          (shardDir {} helloMd5)).length = 1 := by
    decide +kernel
  refine (scanExact_iff isHexMd5_helloMd5 noShards_sampleDisk [helloShard 5] scan).mpr ?_
  rw [returned, files]
  refine ⟨fun index member => ?_, .inr rfl⟩
  rw [List.mem_singleton.mp member]
  decide +kernel

/-- Both shards of a file are given the number that its MD5 starts with. -/
theorem not_scanExact_helloShards :
    IsHexMd5 helloMd5 ∧ NoShards {} helloMd5 FileCtl.sampleDisk ∧
      (afterSaves FileCtl.calmHost FileCtl.sampleDigest {} helloMd5 { disk := FileCtl.sampleDisk }
          [helloShard 0, helloShard 1]).returnedTrue = [0, 1] ∧
      outcome (getShardIndex FileCtl.calmHost (shardDir {} helloMd5))
        (afterSaves FileCtl.calmHost FileCtl.sampleDigest {} helloMd5 { disk := FileCtl.sampleDisk }
          [helloShard 0, helloShard 1]).machine = .ok [5, 5] ∧
      ¬ ScanExact [5, 5] [0, 1] := by
  obtain ⟨returned, scan⟩ :
      (afterSaves FileCtl.calmHost FileCtl.sampleDigest {} helloMd5 { disk := FileCtl.sampleDisk }
        [helloShard 0, helloShard 1]).returnedTrue = [0, 1] ∧
      outcome (getShardIndex FileCtl.calmHost (shardDir {} helloMd5))
        (afterSaves FileCtl.calmHost FileCtl.sampleDigest {} helloMd5 { disk := FileCtl.sampleDisk }
          [helloShard 0, helloShard 1]).machine = .ok [5, 5] := by
    decide +kernel
  exact ⟨isHexMd5_helloMd5, noShards_sampleDisk, returned, scan,
    fun exact => absurd exact.1 (by decide)⟩

end FileStore

end Cdfs
