import Cdfs.Controller.MergeSuccess
import Cdfs.Meta.Catalog

/-! # Merging whole chunks

A directory whose files are chunks under the decimal numbers of their indices, beside files
whose names are no numbers, is merged into the contents of the chunks in the order of
their indices, whatever the order in which the directory is read.
-/

namespace Cdfs

open Basis FsPath

namespace FileCtl

variable {env : Env} {ctx : HttpContext} {server : Server} {disk : Disk} {md5 : Bytes}

/-- There is a chunk with the index and content where the merge looks. -/
def IsChunk (env : Env) (disk : Disk) (md5 : Bytes) (index : Nat) (content : Bytes) : Prop :=
  index < 2 ^ 31 ∧ disk.look (join (mergeDir env md5) (decimal index)) = some (.file content)

/-- The files in the directory of the chunks are chunks that are not empty, under their
decimal numbers, and files that `stoi` finds no number for; there is a chunk. -/
structure Staged (env : Env) (disk : Disk) (md5 : Bytes) : Prop where
  directory : disk.look (mergeDir env md5) = some .dir
  files : ∀ name ∈ disk.names (location disk.cwd (mergeDir env md5)), ∀ content,
    disk.look (join (mergeDir env md5) name) = some (.file content) →
      (∃ index < 2 ^ 31, name = decimal index ∧ content ≠ []) ∨ stoi name = none
  some : ∃ index content, IsChunk env disk md5 index content

/-- The chunks, in the order of their indices. -/
structure ChunkList (env : Env) (disk : Disk) (md5 : Bytes) (chunks : List (Nat × Bytes)) : Prop where
  ordered : chunks.Pairwise fun first second => first.1 < second.1
  mem_iff : ∀ index content, (index, content) ∈ chunks ↔ IsChunk env disk md5 index content

/-! ## The indices -/

theorem decimalInt_natCast (number : Nat) : decimalInt (number : Int) = decimal number := by
  rw [decimalInt, if_neg (by omega), Int.natAbs_natCast]

/-- What the merge finds an index for is a chunk. -/
theorem exists_chunk_of_numbered (staged : Staged env disk md5) {name : Bytes} {index : Int}
    (listed : name ∈ disk.names (location disk.cwd (mergeDir env md5)))
    (read : FileStore.numbered disk (mergeDir env md5) name = some index) :
    ∃ (count : Nat) (content : Bytes), name = decimal count ∧ index = count ∧
      IsChunk env disk md5 count content ∧ content ≠ [] := by
  unfold FileStore.numbered at read
  split at read
  · rename_i content there
    rcases staged.files name listed content there with ⟨count, small, rfl, nonempty⟩ | other
    · rw [stoi_decimal small] at read
      cases read
      exact ⟨count, content, rfl, rfl, ⟨small, there⟩, nonempty⟩
    · rw [other] at read
      cases read
  · cases read

/-- The merge finds the index of every chunk. -/
theorem IsChunk.found (valid : IsName md5) {index : Nat} {content : Bytes}
    (chunk : IsChunk env disk md5 index content) :
    decimal index ∈ disk.names (location disk.cwd (mergeDir env md5)) ∧
      FileStore.numbered disk (mergeDir env md5) (decimal index) = some (index : Int) := by
  have plain := (zero_mem_mergeDir_iff env md5).not.mpr valid.2.2.2.2
  constructor
  · refine Disk.mem_names_iff.mpr ⟨.file content, ?_⟩
    rw [← location_join_name (mergeDir_ne_nil env md5) plain (isName_decimal index)]
    exact Disk.node_location_of_look chunk.2
  · rw [FileStore.numbered, chunk.2]
    exact stoi_decimal chunk.1

/-- A chunk is not empty. -/
theorem IsChunk.ne_nil (valid : IsName md5) (staged : Staged env disk md5) {index : Nat}
    {content : Bytes} (chunk : IsChunk env disk md5 index content) : content ≠ [] := by
  obtain ⟨listed, read⟩ := chunk.found valid
  obtain ⟨count, data, _, same, other, nonempty⟩ := exists_chunk_of_numbered staged listed read
  obtain rfl := Int.ofNat_inj.mp same
  have found := chunk.2
  rw [other.2] at found
  cases found
  exact nonempty

/-- The indices that the merge finds are those of the chunks. -/
theorem mem_chunkIndices_iff (valid : IsName md5) (staged : Staged env disk md5) (index : Int) :
    index ∈ chunkIndices env disk md5 ↔
      ∃ (count : Nat) (content : Bytes), index = count ∧ IsChunk env disk md5 count content := by
  rw [chunkIndices, if_pos staged.directory, List.mem_filterMap]
  constructor
  · rintro ⟨name, listed, read⟩
    obtain ⟨count, content, _, same, chunk, _⟩ := exists_chunk_of_numbered staged listed read
    exact ⟨count, content, same, chunk⟩
  · rintro ⟨count, content, rfl, chunk⟩
    exact ⟨decimal count, chunk.found valid⟩

/-- No index is found twice. -/
theorem nodup_chunkIndices (staged : Staged env disk md5) : (chunkIndices env disk md5).Nodup := by
  rw [chunkIndices, if_pos staged.directory]
  refine List.Pairwise.filterMap _ ?_ (List.Pairwise.and_mem.mp (disk.nodup_names _))
  rintro first second ⟨listed, also, different⟩ index read other again rfl
  obtain ⟨count, _, rfl, rfl, _⟩ := exists_chunk_of_numbered staged listed read
  obtain ⟨other, _, rfl, same, _⟩ := exists_chunk_of_numbered staged also again
  exact different (congrArg decimal (Int.ofNat_inj.mp same))

/-! ## Their contents -/

/-- The content of a file, nothing elsewhere. -/
def contentAt (disk : Disk) (path : Bytes) : Bytes :=
  match disk.look path with
  | some (.file content) => content
  | _ => []

theorem contentAt_of_look {path content : Bytes} (found : disk.look path = some (.file content)) :
    contentAt disk path = content := by
  rw [contentAt, found]

/-- Chunks that are not empty add up to all of their contents. -/
theorem chunkData_eq_flatMap {chunkDir : Bytes} {indices : List Int}
    (whole : ∀ index ∈ indices, ∃ content,
      disk.look (join chunkDir (decimalInt index)) = some (.file content) ∧ content ≠ []) :
    chunkData disk chunkDir indices true =
      indices.flatMap fun index => contentAt disk (join chunkDir (decimalInt index)) := by
  induction indices with
  | nil => rfl
  | cons index rest ih =>
      obtain ⟨content, found, nonempty⟩ := whole index (List.mem_cons_self ..)
      rw [chunkData, found, List.flatMap_cons, contentAt_of_look found,
        ← ih fun other member => whole other (List.mem_cons_of_mem _ member)]
      exact if_pos ⟨rfl, nonempty⟩

/-- The chunks of a directory, by their indices. -/
def stagedChunks (env : Env) (disk : Disk) (md5 : Bytes) : List (Nat × Bytes) :=
  ((chunkIndices env disk md5).mergeSort (· ≤ ·)).map fun index =>
    (index.toNat, contentAt disk (chunkFile env md5 index))

/-- The scan finds every chunk, and sorting puts them in order. -/
theorem chunkList_stagedChunks (valid : IsName md5) (staged : Staged env disk md5) :
    ChunkList env disk md5 (stagedChunks env disk md5) := by
  have members (index : Int) : index ∈ (chunkIndices env disk md5).mergeSort (· ≤ ·) ↔
      ∃ (count : Nat) (content : Bytes), index = count ∧ IsChunk env disk md5 count content := by
    rw [List.mem_mergeSort]
    exact mem_chunkIndices_iff valid staged index
  refine ⟨?_, fun index content => ?_⟩
  · have ordered : ((chunkIndices env disk md5).mergeSort (· ≤ ·)).Pairwise (· < ·) :=
      ((List.pairwise_mergeSort' (· ≤ ·) _).and (List.nodup_mergeSort.mpr
        (nodup_chunkIndices staged))).imp fun both => lt_of_le_of_ne both.1 both.2
    refine List.pairwise_map.mpr ((List.Pairwise.and_mem.mp ordered).imp ?_)
    rintro first second ⟨one, two, below⟩
    obtain ⟨small, _, rfl, _⟩ := (members first).mp one
    obtain ⟨large, _, rfl, _⟩ := (members second).mp two
    rw [Int.toNat_natCast, Int.toNat_natCast]
    exact Int.ofNat_lt.mp below
  · unfold stagedChunks
    rw [List.mem_map]
    constructor
    · rintro ⟨number, member, same⟩
      obtain ⟨count, data, rfl, small, found⟩ := (members number).mp member
      rw [chunkFile, decimalInt_natCast, contentAt_of_look found, Int.toNat_natCast] at same
      cases same
      exact ⟨small, found⟩
    · rintro ⟨small, found⟩
      refine ⟨index, (members index).mpr ⟨index, content, rfl, small, found⟩, ?_⟩
      rw [chunkFile, decimalInt_natCast, contentAt_of_look found, Int.toNat_natCast]

/-- The merge puts the contents of the chunks together. -/
theorem chunkBytes_staged_eq (valid : IsName md5) (staged : Staged env disk md5) :
    chunkBytes env disk md5 = (stagedChunks env disk md5).flatMap Prod.snd := by
  rw [chunkBytes, stagedChunks, List.flatMap_map, chunkData_eq_flatMap]
  · rfl
  · intro index member
    obtain ⟨count, content, rfl, chunk⟩ :=
      (mem_chunkIndices_iff valid staged index).mp (List.mem_mergeSort.mp member)
    refine ⟨content, ?_, chunk.ne_nil valid staged⟩
    rw [decimalInt_natCast]
    exact chunk.2

/-! ## The places -/

/-- A request to merge whose MD5 is made of hexadecimal digits, and whose scene and file
name are single names. -/
structure PlainMerge (ctx : HttpContext) : Prop where
  hex : ∀ byte ∈ mergeMd5 ctx, isHexDigit byte = true
  long : 4 ≤ (mergeMd5 ctx).length
  scene : IsName (sentScene ctx)
  sceneUtf8 : validUtf8 (sentScene ctx) = true
  named : mergeName ctx ≠ []
  plain : (47 : UInt8) ∉ mergeName ctx
  nameUtf8 : validUtf8 (mergeName ctx) = true

/-- The directories of a merged file below the root directory. -/
def mergeDirs (ctx : HttpContext) : List Bytes :=
  [sentScene ctx, (mergeMd5 ctx).take 2, ((mergeMd5 ctx).drop 2).take 2]

/-- Its name there. -/
def mergedName (ctx : HttpContext) : Bytes := mergeMd5 ctx ++ extension (mergeName ctx)

/-- Its path below the directory of the scene. -/
def mergedRelPath (ctx : HttpContext) : Bytes :=
  (mergeMd5 ctx).take 2 ++ 47 :: (((mergeMd5 ctx).drop 2).take 2 ++ 47 :: mergedName ctx)

namespace PlainMerge

variable (request : PlainMerge ctx)

include request

theorem md5_ne_nil : mergeMd5 ctx ≠ [] := by
  have long := request.long
  exact fun empty => absurd (empty ▸ long) (by decide)

theorem isName_md5 : IsName (mergeMd5 ctx) := isName_of_hex request.md5_ne_nil request.hex

/-- So are the directories of the merged file. -/
theorem isName_of_mem_mergeDirs : ∀ name ∈ mergeDirs ctx, IsName name := by
  have long := request.long
  have part (count : Nat) (few : count + 2 ≤ 4) :
      IsName (((mergeMd5 ctx).drop count).take 2) := by
    refine isName_of_hex ?_ fun byte member =>
      request.hex byte (List.mem_of_mem_drop (List.mem_of_mem_take member))
    rw [← List.length_pos_iff, List.length_take, List.length_drop]
    omega
  have first := part 0 (by decide)
  rw [List.drop_zero] at first
  simp only [mergeDirs, List.mem_cons, List.not_mem_nil, or_false, forall_eq_or_imp, forall_eq]
  exact ⟨request.scene, first, part 2 (by decide)⟩

theorem slash_not_mem_mergedName : (47 : UInt8) ∉ mergedName ctx := by
  rw [mergedName, List.mem_append, not_or]
  exact ⟨request.isName_md5.2.2.2.1, slash_not_mem_extension _⟩

/-- The part of it that the system reads is a name. -/
theorem isName_cString_mergedName : IsName (cString (mergedName ctx)) := by
  have long := request.long
  have noSlash : (47 : UInt8) ∉ cString (mergedName ctx) := fun slash =>
    request.slash_not_mem_mergedName ((List.takeWhile_prefix _).subset slash)
  refine isName_of_long ?_ noSlash (not_mem_cString _)
  rw [mergedName, cString_append request.isName_md5.2.2.2.2, List.length_append]
  omega

/-- The relative path is made of them. -/
theorem relPath_eq : FileStore.relPath (mergeName ctx) (mergeMd5 ctx) = .ok (mergedRelPath ctx) := by
  rw [FileStore.relPath, md5ToRelPath_of_plain request.long request.isName_md5.2.2.2.1]
  simp only [Except.map, mergedRelPath, mergedName, List.append_assoc, List.cons_append]

/-- It is relative. -/
theorem isAbsolute_mergedRelPath : isAbsolute (mergedRelPath ctx) = false := by
  have first := request.isName_of_mem_mergeDirs ((mergeMd5 ctx).take 2) (by simp [mergeDirs])
  rw [mergedRelPath, isAbsolute_append first.1]
  exact isAbsolute_of_not_mem first.2.2.2.1

/-- The recorded path is made of the directories and the name. -/
theorem join_mergedRelPath :
    join (sentScene ctx) (mergedRelPath ctx) = render (mergeDirs ctx) ++ 47 :: mergedName ctx := by
  have named : hasFilename (sentScene ctx) = true :=
    hasFilename_append request.scene.1 request.scene.2.2.2.1 []
  rw [join_named named request.isAbsolute_mergedRelPath]
  simp only [mergedRelPath, mergeDirs, render, List.append_assoc, List.cons_append]

/-- The file is published below the root directory. -/
theorem publishedPath_eq (env : Env) : publishedPath env (sentScene ctx) (mergedRelPath ctx) =
    join env.config.rootDir (render (mergeDirs ctx) ++ 47 :: mergedName ctx) := by
  rw [publishedPath, ← join_assoc _ _ request.isAbsolute_mergedRelPath, request.join_mergedRelPath]

/-- The chunks lie neither at nor above the merged file. -/
theorem not_below_chunks (env : Env) (cwd : List Bytes) {front : List Bytes}
    (taken : front <+: mergeDirs ctx ++ [cString (mergedName ctx)]) :
    ¬ location cwd (mergeDir env (mergeMd5 ctx)) <+: location cwd env.config.rootDir ++ front := by
  intro below
  rw [location_mergeDir env request.isName_md5, List.prefix_append_right_inj] at below
  have names := below.trans taken
  rw [mergeDirs, List.cons_append, List.cons_append, List.cons_prefix_cons,
    List.cons_prefix_cons] at names
  have lengths := congrArg List.length names.2.1
  have long := request.long
  rw [List.length_take] at lengths
  omega

end PlainMerge

/-! ## The steps -/

/-- The steps of the merge that can fail for the tree succeed: the merged file can be opened
and moved, and the root directory is still found without the chunks. -/
structure Mergeable (env : Env) (ctx : HttpContext) (disk : Disk) : Prop where
  opens : Openable env disk (mergeMd5 ctx)
  moves : ∀ relPath, FileStore.relPath (mergeName ctx) (mergeMd5 ctx) = .ok relPath →
    Movable (openedTree env disk (mergeMd5 ctx)) (publishedPath env (sentScene ctx) relPath)
  root : (disk.without (location disk.cwd (mergeDir env (mergeMd5 ctx)))).look
    env.config.rootDir = some .dir

/-- Opening the merged file writes an empty one. -/
theorem rewritten_openedTree (openable : Openable env disk md5) :
    FileStore.Rewritten (mergedFile env md5) [] disk (openedTree env disk md5) := by
  obtain ⟨place, resolved⟩ := Option.isSome_iff_exists.mp openable.1
  have here := Disk.location_of_resolve resolved
  subst here
  have free : disk.node (location disk.cwd (mergedFile env md5)) ≠ some .dir := fun directory =>
    openable.2 (Option.bind_eq_some_iff.mpr ⟨_, resolved, directory⟩)
  have touched : Disk.Touched {location disk.cwd (mergedFile env md5)} disk
    (openedTree env disk md5) := .put (Set.mem_singleton _) free []
  exact ⟨touched, ⟨touched.keepsDirs.resolve resolved, Disk.node_put_self ..⟩, free⟩

/-- All chunks can be put together. -/
theorem assembles_of_staged (valid : IsName md5) (staged : Staged env disk md5)
    (openable : Openable env disk md5) : Assembles env disk md5 := by
  refine ⟨openable, fun index member => ?_⟩
  obtain ⟨count, content, rfl, chunk⟩ := (mem_chunkIndices_iff valid staged index).mp member
  have apart := location_chunkFile_ne valid.1 staged.directory openable (count : Int)
  rw [(rewritten_openedTree openable).look_of_ne apart, chunkFile, decimalInt_natCast, chunk.2]
  exact Option.some_ne_none _

/-- With its chunks in place and its target free a merge comes to the removal. -/
theorem reaches_of_staged (request : PlainMerge ctx) (staged : Staged env disk (mergeMd5 ctx))
    (mergeable : Mergeable env ctx disk) :
    Reaches env disk (mergeMd5 ctx) (mergeName ctx) (sentScene ctx) := by
  refine ⟨?_, assembles_of_staged request.isName_md5 staged mergeable.opens, mergedRelPath ctx,
    request.relPath_eq, mergeable.moves _ request.relPath_eq⟩
  obtain ⟨count, content, chunk⟩ := staged.some
  have member := (mem_chunkIndices_iff request.isName_md5 staged (count : Int)).mpr
    ⟨count, content, rfl, chunk⟩
  exact List.ne_nil_of_mem member

/-- The directory of the chunks is found again when it is empty, so it goes as well. -/
theorem vanishes_of_root (valid : IsName md5) (directory : disk.look (mergeDir env md5) = some .dir)
    (root : (disk.without (location disk.cwd (mergeDir env md5))).look env.config.rootDir =
      some .dir) :
    disk.vanishes (mergeDir env md5) (location disk.cwd (mergeDir env md5)) = true := by
  have names : ∀ name ∈ [32 :: env.config.tempDir, md5], IsName name := by
    simpa only [List.mem_cons, List.not_mem_nil, or_false, forall_eq_or_imp, forall_eq]
      using ⟨isName_space env.config.isName_tempDir, valid⟩
  have here := location_mergeDir env valid disk.cwd
  generalize location disk.cwd (mergeDir env md5) = place at root here ⊢
  have fewer := Disk.keepsDirs_without_emptied disk place
  have walks (tree : Disk) (there : tree.look env.config.rootDir = some .dir) :
      tree.resolve (mergeDir env md5) =
        tree.walk (location tree.cwd env.config.rootDir) [32 :: env.config.tempDir, md5] := by
    rw [mergeDir_eq env valid, Disk.resolve_slash_of_look env.config.rootDir_ne_nil
      env.config.zero_not_mem_rootDir there, cString_of_not_mem (not_mem_render_of_isName names),
      components_render (List.cons_ne_nil _ _) fun name member => (names name member).2.2.2.1]
  have same : (disk.emptied place).walk (location disk.cwd env.config.rootDir)
      [32 :: env.config.tempDir, md5] =
      disk.walk (location disk.cwd env.config.rootDir) [32 :: env.config.tempDir, md5] := by
    refine Disk.walk_congr names fun front taken => Disk.node_emptied_of_not_below fun below => ?_
    rw [here, List.prefix_append_right_inj] at below
    rw [here, taken.eq_of_length_le below.length_le]
  obtain ⟨there, resolved, _⟩ := Option.bind_eq_some_iff.mp directory
  rw [Disk.vanishes, removable_mergeDir env valid, Bool.and_true, walks _ (fewer.look_dir root),
    show (disk.emptied place).cwd = disk.cwd from rfl, same,
    ← walks disk ((disk.keepsDirs_of_without place).look_dir root), resolved]
  rfl

/-- The merged file is not removed with the chunks. -/
theorem left_of_staged (request : PlainMerge ctx) (staged : Staged env disk (mergeMd5 ctx))
    (mergeable : Mergeable env ctx disk) :
    Left env disk (mergeMd5 ctx) (publishedPath env (sentScene ctx) (mergedRelPath ctx)) := by
  obtain ⟨grown, created, resolved, free⟩ := mergeable.moves _ request.relPath_eq
  refine ⟨grown, created, ?_⟩
  generalize path : publishedPath env (sentScene ctx) (mergedRelPath ctx) = published at *
  have written := rewritten_openedTree mergeable.opens
  have growth := Disk.grown_created created
  obtain ⟨place, there⟩ := Option.isSome_iff_exists.mp resolved
  have here := Disk.location_of_resolve there
  subst here
  have touched : Disk.Touched {location grown.cwd published,
      location grown.cwd (mergedFile env (mergeMd5 ctx))} grown
      (moved grown (mergedFile env (mergeMd5 ctx)) published []) := by
    refine touched_moved ?_ fun directory => free (Option.bind_eq_some_iff.mpr ⟨_, there, directory⟩)
    rw [growth.cwd, written.cwd, (growth.file_iff _ []).mpr written.node_self]
    exact nofun
  have kept := written.touched.keepsDirs.trans (growth.keepsDirs.trans touched.keepsDirs)
  have final : (moved grown (mergedFile env (mergeMd5 ctx)) published []).look published =
      some (.file []) := by
    refine Option.bind_eq_some_iff.mpr ⟨_, touched.keepsDirs.resolve there, ?_⟩
    exact Disk.node_put_self ..
  generalize moved grown (mergedFile env (mergeMd5 ctx)) published [] = tree at kept final
  obtain ⟨chunks, inside, _⟩ := Option.bind_eq_some_iff.mp staged.directory
  have at_ := Disk.location_of_resolve inside
  subst at_
  have vanishing := vanishes_of_root request.isName_md5 staged.directory mergeable.root
  rw [← kept.vanishes (by rw [inside]; rfl)] at vanishing
  have outside : Disk.KeepsDirs (disk.without (location disk.cwd (mergeDir env (mergeMd5 ctx))))
      (tree.without (location disk.cwd (mergeDir env (mergeMd5 ctx)))) := by
    refine ⟨kept.1, fun place left => ?_⟩
    have apart : ¬ location disk.cwd (mergeDir env (mergeMd5 ctx)) <+: place := fun below => by
      rw [Disk.node_without_below below] at left
      cases left
    rw [Disk.node_without_outside apart]
    exact kept.2 place (Disk.node_of_without left)
  rw [Disk.removed, kept.resolve inside]
  dsimp only
  rw [if_pos vanishing]
  subst path
  rw [request.publishedPath_eq] at final ⊢
  rw [Disk.look_without env.config.rootDir_ne_nil env.config.zero_not_mem_rootDir
    request.isName_of_mem_mergeDirs (List.cons_ne_nil _ _) request.slash_not_mem_mergedName
    request.isName_cString_mergedName (outside.look_dir mergeable.root) ?_, final]
  · exact Option.some_ne_none _
  · intro front taken
    rw [kept.1]
    exact request.not_below_chunks env disk.cwd taken

/-- The directory of the chunks can be removed. -/
theorem clears_of_staged (request : PlainMerge ctx) (staged : Staged env disk (mergeMd5 ctx)) :
    disk.clears (mergeDir env (mergeMd5 ctx)) = true := by
  obtain ⟨_, resolved, _⟩ := Option.bind_eq_some_iff.mp staged.directory
  refine Disk.clears_of_removable (removable_mergeDir env request.isName_md5) ?_
  rw [resolved]
  rfl

/-! ## The record -/

/-- A file name without slashes ends in its extension, which is UTF-8 if the name is. -/
theorem validUtf8_extension {name : Bytes} (plain : (47 : UInt8) ∉ name)
    (valid : validUtf8 name = true) : validUtf8 (extension name) = true := by
  obtain ⟨front, split⟩ := exists_append_extension name
  rw [filename, components_of_not_mem plain, List.getLastD_cons, List.getLastD_nil] at split
  rcases extension_cases name with empty | ⟨tail, dotted, _⟩
  · rw [empty]
    rfl
  · rw [split, dotted] at valid
    have first := validUtf8_of_append (by decide) valid
    rw [validUtf8_append first] at valid
    rw [dotted]
    exact valid

/-- A new record is stored under its hexadecimal MD5. -/
theorem get_saveMeta_of_hex {codec : JsonCodec} {store : MetadataStore} {record : MetaFile}
    (hex : ∀ byte ∈ record.md5, isHexDigit byte = true) (unknown : store.db.get record.md5 = none) :
    (store.saveMeta codec record true).2.db.get record.md5 = some (serialize codec record) := by
  have scene : record.md5 ≠ sceneKey record.scene record.mtime record.md5 :=
    ne_cons_of_hex hex 83 (by decide)
  have path : record.md5 ≠ pathKey record.path := ne_cons_of_hex hex 80 (by decide)
  rw [(MetadataStore.saveMeta_of_fresh unknown true).2 rfl, get_saveBatch, if_neg scene.symm,
    if_neg path.symm, if_pos rfl]

/-- The record of a merged file can be stored, if the name of the node can. -/
theorem PlainMerge.isUtf8_mergedRecord (request : PlainMerge ctx)
    (peer : validUtf8 env.metaConfig.peerId = true) (size : Nat) (mtime : Int64) :
    (mergedRecord env (mergeMd5 ctx) (mergeName ctx) (sentScene ctx) (mergedRelPath ctx) size
      mtime).IsUtf8 := by
  have part (count : Nat) : validUtf8 (((mergeMd5 ctx).drop count).take 2) = true :=
    validUtf8_of_hex fun byte member =>
      request.hex byte (List.mem_of_mem_drop (List.mem_of_mem_take member))
  have first := part 0
  rw [List.drop_zero] at first
  have md5 : validUtf8 (mergeMd5 ctx) = true := validUtf8_of_hex request.hex
  have slash (rest : Bytes) : validUtf8 (47 :: rest) = validUtf8 rest :=
    validUtf8_append (by decide : validUtf8 [47] = true) rest
  have path : validUtf8 (join (sentScene ctx) (mergedRelPath ctx)) = true := by
    rw [request.join_mergedRelPath]
    simp only [mergeDirs, mergedName, render, List.append_assoc, List.cons_append]
    rw [validUtf8_append request.sceneUtf8, slash, validUtf8_append first, slash,
      validUtf8_append (part 2), slash, validUtf8_append md5]
    exact validUtf8_extension request.plain request.nameUtf8
  simp only [MetaFile.IsUtf8, MetaFile.strings, mergedRecord, List.flatMap_nil, List.append_nil,
    List.forall_mem_append, List.forall_mem_cons, List.not_mem_nil, IsEmpty.forall_iff, implies_true,
    and_true]
  exact ⟨⟨md5, path, request.nameUtf8, rfl, request.sceneUtf8, rfl⟩, peer⟩

/-! ## The whole merge -/

/-- What a merge of whole chunks leaves behind: the contents of the chunks in the order of
their indices, a record with their size, and no chunks. -/
structure Concatenated (env : Env) (ctx : HttpContext) (before after : Server)
    (chunks : List (Nat × Bytes)) (record : MetaFile) : Prop where
  list : ChunkList env before.machine.disk (mergeMd5 ctx) chunks
  published : after.machine.disk.look (join env.config.rootDir record.path) =
    some (.file (chunks.flatMap Prod.snd))
  saved : after.metaStore.db.get (mergeMd5 ctx) = some (serialize env.codec record)
  readable : validUtf8 env.metaConfig.peerId = true →
    deserialize env.codec (serialize env.codec record) = some record
  path : record.path = render (mergeDirs ctx) ++ 47 :: mergedName ctx
  size : record.size = Int64.ofNat (chunks.map fun chunk => chunk.2.length).sum
  gone : ∀ place, location before.machine.disk.cwd (mergeDir env (mergeMd5 ctx)) <+: place →
    after.machine.disk.node place = none

/-- **A merge puts the chunks together in the order of their indices.** -/
theorem handleMerge_concatenates (reliable : env.host.Reliable)
    (writes : ∀ call, env.writes call = true) (request : PlainMerge ctx)
    (unknown : server.metaStore.db.get (mergeMd5 ctx) = none)
    (staged : Staged env server.machine.disk (mergeMd5 ctx))
    (mergeable : Mergeable env ctx server.machine.disk) :
    ∃ chunks record,
      Concatenated env ctx server (after (handleMerge env ctx) server) chunks record := by
  have through : GoesThrough env ctx server.machine.disk (mergedRelPath ctx) :=
    ⟨request.md5_ne_nil, request.named, reaches_of_staged request staged mergeable,
      clears_of_staged request staged, request.relPath_eq, left_of_staged request staged mergeable⟩
  obtain ⟨mtime, stored, merged⟩ := reply_after_of_ends (handleMerge_through reliable through)
  have vanishing := vanishes_of_root request.isName_md5 staged.directory mergeable.root
  have whole := chunkBytes_staged_eq request.isName_md5 staged
  have found := merged.found
  have saved := merged.metaStore
  rw [whole] at found saved
  rw [merged.reported writes] at saved
  refine ⟨stagedChunks env server.machine.disk (mergeMd5 ctx),
    mergedRecord env (mergeMd5 ctx) (mergeName ctx) (sentScene ctx) (mergedRelPath ctx)
      ((stagedChunks env server.machine.disk (mergeMd5 ctx)).flatMap Prod.snd).length mtime,
    chunkList_stagedChunks request.isName_md5 staged, ?_, ?_, fun peer => ?_,
    request.join_mergedRelPath, ?_, fun place below =>
      merged.gone place ⟨below, fun here => here ▸ vanishing⟩⟩
  · rw [← found, publishedPath]
    exact congrArg _ (join_assoc _ _ request.isAbsolute_mergedRelPath)
  · rw [saved]
    exact get_saveMeta_of_hex request.hex unknown
  · rw [deserialize_serialize env.codec (request.isUtf8_mergedRecord peer _ _)]
    rfl
  · rw [mergedRecord, List.length_flatMap]

/-- Three chunks, whose indices have different numbers of digits, beside a file that is
none. -/
def severalDisk : Disk where
  cwd := [bytes "srv"]
  tree :=
    let place (name : String) := [bytes "srv", bytes "data", bytes "store", bytes " _tmp",
      bytes "5d41402abc4b2a76b9719d911017c592", bytes name]
    (((stagedDisk (bytes "he")).tree.put (place "10") (.file (bytes "o"))).put (place "2")
      (.file (bytes "ll"))).put (place "notes") (.file (bytes "from browser"))

/-- The disk has three chunks; `notes` is none. -/
theorem staged_severalDisk : Staged sampleEnv severalDisk (mergeMd5 sampleMerge) := by
  rw [mergeMd5_sampleMerge]
  let dir := mergeDir sampleEnv (bytes "5d41402abc4b2a76b9719d911017c592")
  obtain ⟨directory, names, zero, ten, two⟩ :
      severalDisk.look dir = some .dir ∧
      severalDisk.names (location severalDisk.cwd dir) =
        [bytes "0", bytes "10", bytes "2", bytes "notes"] ∧
      severalDisk.look (join dir (bytes "0")) = some (.file (bytes "he")) ∧
      severalDisk.look (join dir (bytes "10")) = some (.file (bytes "o")) ∧
      severalDisk.look (join dir (bytes "2")) = some (.file (bytes "ll")) := by
    decide +kernel
  refine ⟨directory, ?_, 0, bytes "he", by decide, ?_⟩
  · rw [names]
    intro name listed content found
    simp only [List.mem_cons, List.not_mem_nil, or_false] at listed
    rcases listed with rfl | rfl | rfl | rfl
    · rw [zero] at found
      cases found
      exact .inl ⟨0, by decide, by decide +kernel, by decide +kernel⟩
    · rw [ten] at found
      cases found
      exact .inl ⟨10, by decide, by decide +kernel, by decide +kernel⟩
    · rw [two] at found
      cases found
      exact .inl ⟨2, by decide, by decide +kernel, by decide +kernel⟩
    · exact .inr (by decide +kernel)
  · rw [show decimal 0 = bytes "0" by decide +kernel, zero]

theorem plainMerge_sampleMerge : PlainMerge sampleMerge := by
  obtain ⟨md5, name, scene⟩ := asked_sampleMerge
  constructor <;> simp only [md5, name, scene] <;> decide +kernel

/-- And it can be done on this disk. -/
theorem mergeable_severalDisk : Mergeable sampleEnv sampleMerge severalDisk := by
  refine ⟨?_, fun relPath placed => ?_, ?_⟩
  · rw [mergeMd5_sampleMerge]
    decide +kernel
  · have here : FileStore.relPath (bytes "a.txt") (bytes "5d41402abc4b2a76b9719d911017c592") =
        .ok stagedPath := by decide +kernel
    rw [mergeMd5_sampleMerge, mergeName_sampleMerge, here] at placed
    cases placed
    rw [mergeMd5_sampleMerge, sentScene_sampleMerge]
    decide +kernel
  · rw [mergeMd5_sampleMerge]
    decide +kernel

/-- A server with these chunks. -/
def severalServer : Server := { sampleServer with machine := { disk := severalDisk } }

/-- The merge of the three chunks. -/
theorem concatenated_severalServer : ∃ chunks record, Concatenated sampleEnv sampleMerge
    severalServer (after (handleMerge sampleEnv sampleMerge) severalServer) chunks record := by
  have unknown : severalServer.metaStore.db.get (mergeMd5 sampleMerge) = none :=
    OrderedMap.get_empty _
  exact handleMerge_concatenates calmHost_reliable (fun _ => rfl) plainMerge_sampleMerge unknown
    staged_severalDisk mergeable_severalDisk

end FileCtl

end Cdfs
