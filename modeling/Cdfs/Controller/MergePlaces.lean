import Cdfs.Basis.Within
import Cdfs.Controller.MergeRules

/-! # Where a merge reads and writes

The chunks a merge reads lie directly in its directory, under decimal numbers. The merged
file is never one of them: its name ends in `.merged`, and where a NUL byte cuts that off,
every chunk path is cut off before its number.
-/

namespace Cdfs

open Basis FsPath

namespace FileCtl

variable {env : Env} {md5 : Bytes}

/-- A printed index is a name. -/
theorem isName_decimalInt (number : Int) : IsName (decimalInt number) := by
  have absent {byte : UInt8} (other : byte ≠ 45 ∧ isDigit byte = false) :
      byte ∉ decimalInt number := by
    intro member
    rcases minus_or_isDigit_of_mem_decimalInt member with rfl | digit
    · exact other.1 rfl
    · rw [other.2] at digit
      cases digit
  have nonempty : decimalInt number ≠ [] := by
    unfold decimalInt
    split
    · exact List.cons_ne_nil _ _
    · exact decimal_ne_nil _
  have dot : (46 : UInt8) ∉ decimalInt number := absent (by decide)
  refine ⟨nonempty, fun same => dot ?_, fun same => dot ?_, absent (by decide), absent (by decide)⟩
  · rw [same]
    exact List.mem_cons_self ..
  · rw [same]
    exact List.mem_cons_self ..

/-- An entry of a directory stands below it. -/
theorem location_join_name {path name : Bytes} (nonempty : path ≠ []) (plain : (0 : UInt8) ∉ path)
    (valid : IsName name) (cwd : List Bytes) :
    location cwd (join path name) = location cwd path ++ [name] := by
  rw [location_join nonempty plain (isAbsolute_of_not_mem valid.2.2.2.1),
    cString_of_not_mem valid.2.2.2.2, components_of_not_mem valid.2.2.2.1, List.foldl_cons,
    List.foldl_nil, enter_of_isName valid]

/-- Behind a NUL byte the system does not see a name. -/
theorem cString_join_name {path name : Bytes} (zero : (0 : UInt8) ∈ path) (valid : IsName name) :
    cString (join path name) = cString path := by
  rw [join_of_relative (isAbsolute_of_not_mem valid.2.2.2.1)]
  exact cString_append_of_mem zero _

/-! ## The directory of the chunks -/

theorem mergeDir_ne_nil (env : Env) (md5 : Bytes) : mergeDir env md5 ≠ [] :=
  join_ne_nil (List.append_ne_nil_of_left_ne_nil env.config.rootDir_ne_nil _) md5

/-- A NUL byte in the path of the directory comes from the MD5. -/
theorem zero_mem_mergeDir_iff (env : Env) (md5 : Bytes) :
    (0 : UInt8) ∈ mergeDir env md5 ↔ (0 : UInt8) ∈ md5 := by
  have plain : (0 : UInt8) ∉ env.config.rootDir ++ (bytes "/ " ++ env.config.tempDir) := by
    simp only [List.mem_append, not_or]
    exact ⟨env.config.zero_not_mem_rootDir, by decide, env.config.isName_tempDir.2.2.2.2⟩
  unfold mergeDir
  generalize env.config.rootDir ++ (bytes "/ " ++ env.config.tempDir) = above at plain
  unfold join
  split
  · exact Iff.rfl
  · split
    · simp [plain]
    · simp [plain]

/-- A chunk stands in the directory. -/
theorem location_chunkFile (env : Env) {md5 : Bytes} (plain : (0 : UInt8) ∉ md5) (index : Int)
    (cwd : List Bytes) :
    location cwd (chunkFile env md5 index) = location cwd (mergeDir env md5) ++ [decimalInt index] :=
  location_join_name (mergeDir_ne_nil env md5) ((zero_mem_mergeDir_iff env md5).not.mpr plain)
    (isName_decimalInt index) cwd

/-- Names behind a path lead down from it. -/
theorem location_slash_render {path : Bytes} {names : List Bytes} (nonempty : path ≠ [])
    (plain : (0 : UInt8) ∉ path) (valid : ∀ name ∈ names, IsName name) (some : names ≠ [])
    (cwd : List Bytes) : location cwd (path ++ 47 :: render names) = location cwd path ++ names := by
  rw [location_append nonempty plain, cString_of_not_mem (not_mem_render_of_isName valid),
    components_render some fun name member => (valid name member).2.2.2.1, foldl_enter valid]

/-- The directory of the chunks stands below the one that the merge looks through. -/
theorem location_mergeDir (env : Env) (valid : IsName md5) (cwd : List Bytes) :
    location cwd (mergeDir env md5) =
      location cwd env.config.rootDir ++ [32 :: env.config.tempDir, md5] := by
  rw [mergeDir_eq env valid]
  refine location_slash_render env.config.rootDir_ne_nil env.config.zero_not_mem_rootDir ?_
    (List.cons_ne_nil _ _) cwd
  simpa only [List.mem_cons, List.not_mem_nil, or_false, forall_eq_or_imp, forall_eq]
    using ⟨isName_space env.config.isName_tempDir, valid⟩

/-- For an MD5 that is a name the directory of the chunks can be removed under its path. -/
theorem removable_mergeDir (env : Env) (valid : IsName md5) : removable (mergeDir env md5) = true := by
  have named : hasFilename (env.config.rootDir ++ (bytes "/ " ++ env.config.tempDir)) = true := by
    rw [← List.append_assoc]
    exact hasFilename_append env.config.isName_tempDir.1 env.config.isName_tempDir.2.2.2.1 _
  rw [mergeDir, join_named named (isAbsolute_of_not_mem valid.2.2.2.1)]
  refine removable_slash ?_ valid
  simp only [List.mem_append, not_or]
  exact ⟨env.config.zero_not_mem_rootDir, by decide, env.config.isName_tempDir.2.2.2.2⟩

/-! ## The merged file -/

/-- The merged file has a name. -/
theorem isName_append_merged {name : Bytes} (noSlash : (47 : UInt8) ∉ name)
    (noZero : (0 : UInt8) ∉ name) : IsName (name ++ bytes ".merged") := by
  refine isName_of_long ?_ (List.mem_append.not.mpr (not_or.mpr ⟨noSlash, by decide⟩))
    (List.mem_append.not.mpr (not_or.mpr ⟨noZero, by decide⟩))
  rw [List.length_append]
  change 2 < name.length + 7
  omega

/-- For an MD5 that is a name the merged file stands beside the directory of the chunks. -/
theorem mergedFile_eq (env : Env) (valid : IsName md5) :
    mergedFile env md5 =
      env.config.rootDir ++ 47 :: render [32 :: env.config.tempDir, md5 ++ bytes ".merged"] := by
  have spaced := isName_space env.config.isName_tempDir
  have named : hasFilename (env.config.rootDir ++ 47 :: (32 :: env.config.tempDir)) = true := by
    rw [List.append_cons]
    exact hasFilename_append spaced.1 spaced.2.2.2.1 _
  have split (last : Bytes) : env.config.rootDir ++ 47 :: render [32 :: env.config.tempDir, last] =
      (env.config.rootDir ++ 47 :: (32 :: env.config.tempDir)) ++ 47 :: last := by
    rw [render_cons _ (List.cons_ne_nil _ _)]
    simp only [render, List.append_assoc, List.cons_append]
  have relative : isAbsolute (md5 ++ bytes ".merged") = false :=
    isAbsolute_of_not_mem (isName_append_merged valid.2.2.2.1 valid.2.2.2.2).2.2.2.1
  rw [mergedFile, mergeDir_eq env valid, split, parentPath_append named valid.2.2.2.1, split,
    join_named named relative]

/-- It stands beside the directory. -/
theorem location_mergedFile (env : Env) (valid : IsName md5) (cwd : List Bytes) :
    location cwd (mergedFile env md5) =
      location cwd env.config.rootDir ++ [32 :: env.config.tempDir, md5 ++ bytes ".merged"] := by
  rw [mergedFile_eq env valid]
  refine location_slash_render env.config.rootDir_ne_nil env.config.zero_not_mem_rootDir ?_
    (List.cons_ne_nil _ _) cwd
  simpa only [List.mem_cons, List.not_mem_nil, or_false, forall_eq_or_imp, forall_eq]
    using ⟨isName_space env.config.isName_tempDir,
      isName_append_merged valid.2.2.2.1 valid.2.2.2.2⟩

/-- The merged file stands under a name that ends in `.merged`. -/
theorem exists_location_mergedFile (env : Env) (given : md5 ≠ []) (plain : (0 : UInt8) ∉ md5)
    (cwd : List Bytes) :
    ∃ above name, location cwd (mergedFile env md5) = above ++ [name ++ bytes ".merged"] := by
  have split : mergedFile env md5 = join (parentPath (mergeDir env md5)) md5 ++ bytes ".merged" := by
    unfold mergedFile join
    rw [isAbsolute_append given]
    split
    · rfl
    · split
      · rw [List.append_assoc, List.cons_append]
      · rw [List.append_assoc]
  have noZero : (0 : UInt8) ∉ join (parentPath (mergeDir env md5)) md5 := by
    have parent : (0 : UInt8) ∉ parentPath (mergeDir env md5) := fun zero =>
      plain ((zero_mem_mergeDir_iff env md5).mp (mem_of_mem_parentPath zero (by decide)))
    unfold join
    split
    · exact plain
    · split
      · simp [parent, plain]
      · simp [parent, plain]
  obtain ⟨above, _, here⟩ := exists_location_append noZero
    (fun _ noSlash noZero => isName_append_merged noSlash noZero) cwd
  exact ⟨above, _, split ▸ here⟩

/-- The merged file is no chunk. -/
theorem location_chunkFile_ne {disk : Disk} (given : md5 ≠ [])
    (directory : disk.look (mergeDir env md5) = some .dir) (openable : Openable env disk md5)
    (index : Int) :
    location disk.cwd (chunkFile env md5 index) ≠ location disk.cwd (mergedFile env md5) := by
  intro same
  by_cases zero : (0 : UInt8) ∈ md5
  · have cut := cString_join_name ((zero_mem_mergeDir_iff env md5).mpr zero) (isName_decimalInt index)
    rw [chunkFile, location_congr cut] at same
    obtain ⟨place, resolved⟩ := Option.isSome_iff_exists.mp openable.1
    have here := Disk.location_of_resolve resolved
    refine openable.2 (Option.bind_eq_some_iff.mpr ⟨place, resolved, ?_⟩)
    rw [here, ← same]
    exact Disk.node_location_of_look directory
  · have apart : (46 : UInt8) ∉ decimalInt index := fun dot => by
      rcases minus_or_isDigit_of_mem_decimalInt dot with same | digit
      · cases same
      · cases digit
    obtain ⟨above, name, here⟩ := exists_location_mergedFile env given zero disk.cwd
    rw [location_chunkFile env zero, here] at same
    have names := (List.append_inj' same rfl).2
    rw [List.singleton_inj.mp names] at apart
    exact apart (List.mem_append_right _ (by decide))

end FileCtl

end Cdfs
