import Cdfs.Basis.FsPath

/-! # Paths within a directory

A path lies within a directory when its location is at or below that of the directory
(`Basis.FsPath.Within`). A component behind a path within the directory stays within,
unless it goes up.
-/

namespace Basis

namespace FsPath

/-- A path that normalises to the directory or to something below it. -/
def Within (cwd : List Bytes) (root path : Bytes) : Prop :=
  location cwd root <+: location cwd path

instance (cwd : List Bytes) (root path : Bytes) : Decidable (Within cwd root path) :=
  inferInstanceAs (Decidable (_ <+: _))

variable {cwd : List Bytes} {root path : Bytes}

theorem location_congr {first second : Bytes} (same : cString first = cString second)
    (cwd : List Bytes) : location cwd first = location cwd second := by
  unfold location
  rw [same]

theorem within_congr {first second : Bytes} (same : cString first = cString second) :
    Within cwd root first ↔ Within cwd root second := by
  unfold Within
  rw [location_congr same]

theorem enter_eq_or (place : List Bytes) {name : Bytes} (down : name ≠ [46, 46]) :
    enter place name = place ∨ enter place name = place ++ [name] := by
  by_cases stays : name = [] ∨ name = [46]
  · exact .inl (if_pos stays)
  · right
    rw [enter, if_neg stays, if_neg down]

theorem prefix_enter {above place : List Bytes} (inside : above <+: place) {name : Bytes}
    (down : name ≠ [46, 46]) : above <+: enter place name := by
  rcases enter_eq_or place down with same | deeper
  · rwa [same]
  · rw [deeper]
    exact inside.trans (List.prefix_append ..)

/-- What follows the slash behind a path within the directory stays within, unless it
goes up. -/
theorem within_slash {last : Bytes} (nonempty : path ≠ []) (plain : (47 : UInt8) ∉ last)
    (down : cString last ≠ [46, 46]) (inside : Within cwd root path) :
    Within cwd root (path ++ 47 :: last) := by
  by_cases zero : (0 : UInt8) ∈ path
  · exact (within_congr (cString_append_of_mem zero _)).mpr inside
  · have noSlash : (47 : UInt8) ∉ cString last := fun slash =>
      plain ((List.takeWhile_prefix _).subset slash)
    unfold Within
    rw [location_append nonempty zero, components_of_not_mem noSlash, List.foldl_cons, List.foldl_nil]
    exact prefix_enter inside down

/-- An entry of a directory within stays within. -/
theorem within_join {name : Bytes} (nonempty : path ≠ []) (valid : IsName name)
    (inside : Within cwd root path) : Within cwd root (join path name) := by
  have relative := isAbsolute_of_not_mem valid.2.2.2.1
  by_cases zero : (0 : UInt8) ∈ path
  · rw [join_of_relative relative]
    exact (within_congr (cString_append_of_mem zero _)).mpr inside
  · unfold Within
    rw [location_join nonempty zero relative, cString_of_not_mem valid.2.2.2.2,
      components_of_not_mem valid.2.2.2.1, List.foldl_cons, List.foldl_nil]
    exact prefix_enter inside valid.2.2.1

/-! ## Parents -/

/-- The components of a path: those of its parent, empty ones, and the last one. -/
theorem exists_parent_components (path : Bytes) : ∃ parent empties,
    components path = parent ++ (empties ++ [filename path]) ∧ (∀ name ∈ empties, name = []) ∧
      (parent = [] ∨ ∃ front last, parent = front ++ [last] ∧ last ≠ []) ∧
      parentPath path = if path.all (· == 47) = true then path
        else if parent = [] ∧ isAbsolute path = true then [47] else render parent := by
  let reversed := (components path).dropLast.reverse
  refine ⟨(reversed.dropWhile (·.isEmpty)).reverse, (reversed.takeWhile (·.isEmpty)).reverse, ?_, ?_,
    ?_, rfl⟩
  · rw [← List.append_assoc, ← List.reverse_append, List.takeWhile_append_dropWhile,
      List.reverse_reverse]
    exact (dropLast_components_append_filename path).symm
  · intro name member
    have empty := List.mem_takeWhile_imp (List.mem_reverse.mp member)
    exact List.isEmpty_iff.mp empty
  · cases kept : reversed.dropWhile (·.isEmpty) with
    | nil => exact .inl rfl
    | cons last front =>
        refine .inr ⟨front.reverse, last, List.reverse_cons, ?_⟩
        have some : reversed.dropWhile (·.isEmpty) ≠ [] := by
          rw [kept]
          exact List.cons_ne_nil _ _
        have first := List.head_dropWhile_not (fun name : Bytes => name.isEmpty) some
        simpa [kept] using first

/-- The parent of a path has no bytes of its own but the slash. -/
theorem mem_of_mem_parentPath {path : Bytes} {byte : UInt8} (member : byte ∈ parentPath path)
    (other : byte ≠ 47) : byte ∈ path := by
  obtain ⟨parent, empties, parts, _, _, text⟩ := exists_parent_components path
  rw [text] at member
  split_ifs at member
  · exact member
  · exact absurd (List.mem_singleton.mp member) other
  · by_contra absent
    refine not_mem_render other (fun name inside => ?_) member
    intro here
    refine absent (mem_of_mem_components ?_ here)
    rw [parts]
    exact List.mem_append_left _ inside

end FsPath

end Basis
