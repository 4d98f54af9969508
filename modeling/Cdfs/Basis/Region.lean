import Cdfs.Basis.Below

/-! # Changes below a place

A path that goes on behind a directory without leading up stays in the region below it, and
so do the directories that are created for it. So two trees are the same outside the region
when the one came from the other by such paths (`Basis.Disk.SameOutside`).
-/

namespace Basis

namespace FsPath

variable {cwd : List Bytes} {root path : Bytes}

/-- What follows a directory without leading up stays below it. -/
theorem within_slash_of_ne_dots (nonempty : root ≠ []) (plain : (0 : UInt8) ∉ root)
    (down : ∀ name ∈ components (cString path), name ≠ [46, 46]) :
    Within cwd root (root ++ 47 :: path) := by
  unfold Within
  rw [location_append nonempty plain]
  exact prefix_foldl_enter (List.prefix_refl _) down

end FsPath

namespace Fs

open FsPath

variable {cwd : List Bytes} {root path : Bytes}

/-- The parent of a path goes through no other directories. -/
theorem passed_parentPath (cwd : List Bytes) (path : Bytes) :
    passed cwd (parentPath path) ⊆ passed cwd path := by
  obtain ⟨parent, empties, parts, _, _, text⟩ := exists_parent_components path
  rintro place ⟨front, name, back, split, named, here⟩
  rw [text] at split
  split_ifs at split with slashes top
  · exact ⟨front, name, back, split, named, here⟩
  · have slash : components (cString [47]) = [[], []] := by decide
    have member : name ∈ components (cString [47]) := split ▸ by simp
    rw [slash] at member
    exact absurd (.inl (by simpa using member)) named
  · cases parent with
    | nil =>
        have empty : components (cString (render [])) = [[]] := by decide
        have member : name ∈ components (cString (render [])) := split ▸ by simp
        rw [empty] at member
        exact absurd (.inl (List.mem_singleton.mp member)) named
    | cons first above =>
        have whole : path = render (first :: above) ++ 47 :: render (empties ++ [filename path]) := by
          conv_lhs => rw [← render_components path, parts]
          exact render_append (List.cons_ne_nil _ _)
            (List.append_ne_nil_of_right_ne_nil _ (List.cons_ne_nil _ _))
        by_cases zero : (0 : UInt8) ∈ render (first :: above)
        · refine ⟨front, name, back, ?_, named, here⟩
          rw [whole, cString_append_of_mem zero, split]
        · have cut : cString path = render (first :: above) ++
              47 :: cString (render (empties ++ [filename path])) :=
            (congrArg cString whole).trans (cString_append zero _)
          rw [cString_of_not_mem zero] at split
          refine ⟨front, name, back ++ components (cString (render (empties ++ [filename path]))), ?_,
            named, here⟩
          rw [cut, components_append, split, List.append_assoc, List.cons_append]

/-- A path that goes on behind a directory without leading up passes what the path of the
directory passes, and places below it. -/
theorem passed_slash (nonempty : root ≠ []) (plain : (0 : UInt8) ∉ root)
    (down : ∀ name ∈ components (cString path), name ≠ [46, 46]) {place : List Bytes}
    (inside : place ∈ passed cwd (root ++ 47 :: path)) :
    place ∈ passed cwd root ∨ location cwd root <+: place := by
  obtain ⟨front, name, back, split, named, rfl⟩ := inside
  have cut : cString (root ++ 47 :: path) = root ++ 47 :: cString path := cString_append plain _
  rw [cut, components_append, List.append_cons] at split
  rcases List.append_eq_append_iff.mp split with ⟨taken, whole, rest⟩ | ⟨more, whole, rest⟩
  · by_cases empty : taken = []
    · left
      rw [empty, List.append_nil] at whole
      refine ⟨front, name, [], ?_, named, rfl⟩
      rw [cString_of_not_mem plain]
      exact whole.symm
    · right
      have text : render (front ++ [name]) = root ++ 47 :: render taken := by
        rw [whole, render_append (components_ne_nil root) empty, render_components]
      have names : ∀ other ∈ taken, other ∈ components (cString path) := fun other member =>
        rest ▸ List.mem_append_left _ member
      have noZero : (0 : UInt8) ∉ render taken := not_mem_render (by decide) fun other member =>
        (plain_components path other (names other member)).2
      rw [text]
      refine within_slash_of_ne_dots nonempty plain fun other member => ?_
      rw [cString_of_not_mem noZero, components_render empty fun other member =>
        (plain_components path other (names other member)).1] at member
      exact down other (names other member)
  · left
    refine ⟨front, name, more, ?_, named, rfl⟩
    rw [cString_of_not_mem plain, whole, List.append_assoc, List.singleton_append]

end Fs

namespace Disk

variable {region : List Bytes} {before middle after : Disk}

/-- Directories stay, and outside the region everything does. -/
structure SameOutside (region : List Bytes) (before after : Disk) : Prop where
  keepsDirs : KeepsDirs before after
  node : ∀ place, ¬ region <+: place → after.node place = before.node place

theorem SameOutside.refl (region : List Bytes) (disk : Disk) : SameOutside region disk disk :=
  ⟨.refl disk, fun _ _ => rfl⟩

theorem SameOutside.trans (first : SameOutside region before middle)
    (second : SameOutside region middle after) : SameOutside region before after :=
  ⟨first.keepsDirs.trans second.keepsDirs, fun place outside =>
    (second.node place outside).trans (first.node place outside)⟩

/-- A file outside the region is found as before. -/
theorem SameOutside.look_file (same : SameOutside region before after) {path content : Bytes}
    (outside : ¬ region <+: FsPath.location before.cwd path)
    (found : before.look path = some (.file content)) : after.look path = some (.file content) := by
  obtain ⟨place, resolved, stored⟩ := Option.bind_eq_some_iff.mp found
  rw [← location_of_resolve resolved] at outside
  exact Option.bind_eq_some_iff.mpr ⟨place, same.keepsDirs.resolve resolved,
    (same.node place outside).trans stored⟩

/-- A change at places of the region, and directories on the way to a path behind the
directory of the region. -/
theorem Evolved.sameOutside {root path : Bytes} {files : Set (List Bytes)} (nonempty : root ≠ [])
    (plain : (0 : UInt8) ∉ root)
    (down : ∀ name ∈ FsPath.components (FsPath.cString path), name ≠ [46, 46])
    (evolved : Evolved (Fs.passed before.cwd (FsPath.parentPath (root ++ 47 :: path))) files before
      after)
    (inside : ∀ place ∈ files, FsPath.location before.cwd root <+: place)
    (above : ∀ place ∈ Fs.passed before.cwd root, before.node place = some .dir ∨
      FsPath.location before.cwd root <+: place) :
    SameOutside (FsPath.location before.cwd root) before after := by
  refine ⟨evolved.keepsDirs, fun place outside => ?_⟩
  rcases evolved.node place (fun member => outside (inside place member)) with
    same | ⟨passed, absent, _⟩
  · exact same
  · rcases Fs.passed_slash nonempty plain down (Fs.passed_parentPath _ _ passed) with
      passed | below
    · rcases above place passed with directory | below
      · rw [absent] at directory
        cases directory
      · exact absurd below outside
    · exact absurd below outside

end Disk

end Basis
