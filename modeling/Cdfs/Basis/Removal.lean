import Cdfs.Basis.Shape

/-! # Removing a directory with all below it

The tree after `remove_all` (`Basis.Disk.without`), and what the call does on a host that
may stop it halfway.
-/

namespace Basis

open FsPath

namespace Disk

variable {disk before after : Disk} {place : List Bytes}

/-- The tree without a place and all below it. -/
def without (disk : Disk) (place : List Bytes) : Disk :=
  { disk with tree := disk.tree.filterKeys fun other => !place.isPrefixOf other }

/-- What is not below the place is left. -/
theorem node_without_outside {other : List Bytes} (outside : ¬ place <+: other) :
    (disk.without place).node other = disk.node other := by
  have kept : (!place.isPrefixOf other) = true := by
    rw [Bool.not_eq_true', Bool.eq_false_iff, ne_eq, List.isPrefixOf_iff_prefix]
    exact outside
  unfold without node
  rw [OrderedMap.get_filterKeys, if_pos kept]

/-- Nothing is left at the place or below it. -/
theorem node_without_below {other : List Bytes} (below : place <+: other) :
    (disk.without place).node other = none := by
  have dropped : ¬ (!place.isPrefixOf other) = true := by
    rw [Bool.not_eq_true', Bool.eq_false_iff, not_not, List.isPrefixOf_iff_prefix]
    exact below
  unfold without node
  rw [OrderedMap.get_filterKeys, if_neg dropped]

/-- What is left was there before. -/
theorem node_of_without {other : List Bytes} {entry : Node}
    (left : (disk.without place).node other = some entry) : disk.node other = some entry := by
  by_cases below : place <+: other
  · rw [node_without_below below] at left
    cases left
  · rwa [node_without_outside below] at left

/-- A directory reached in what is left was reached before. -/
theorem keepsDirs_of_without (disk : Disk) (place : List Bytes) :
    KeepsDirs (disk.without place) disk := ⟨rfl, fun _ left => node_of_without left⟩

/-- A path of names below a directory is found as before, if it does not lead through what
has been removed. -/
theorem look_without {root last : Bytes} {names : List Bytes} (nonempty : root ≠ [])
    (plain : (0 : UInt8) ∉ root) (valid : ∀ name ∈ names, IsName name) (more : names ≠ [])
    (noSlash : (47 : UInt8) ∉ last) (validLast : IsName (cString last))
    (directory : (disk.without place).look root = some .dir)
    (apart : ∀ front, front <+: names ++ [cString last] →
      ¬ place <+: location disk.cwd root ++ front) :
    (disk.without place).look (join root (render names ++ 47 :: last)) =
      disk.look (join root (render names ++ 47 :: last)) := by
  have before : disk.look root = some .dir :=
    (keepsDirs_of_without disk place).look_dir directory
  have all : ∀ name ∈ names ++ [cString last], IsName name := by
    simpa only [List.mem_append, List.mem_singleton, or_imp, forall_and, forall_eq]
      using ⟨valid, validLast⟩
  have relative : isAbsolute (render names ++ 47 :: last) = false := by
    obtain ⟨first, rest, rfl⟩ := List.exists_cons_of_ne_nil more
    have start : render (first :: rest) ≠ [] := fun empty => by
      have parts := components_render more fun name member => (valid name member).2.2.2.1
      rw [empty] at parts
      exact (valid first (List.mem_cons_self ..)).1 (List.cons.inj parts).1.symm
    rw [isAbsolute_append start, isAbsolute_render valid]
  have parts : components (cString (render names ++ 47 :: last)) = names ++ [cString last] := by
    have noSlash : (47 : UInt8) ∉ cString last := fun slash =>
      noSlash ((List.takeWhile_prefix _).subset slash)
    have cut : cString (47 :: last) = 47 :: cString last := rfl
    rw [cString_append (not_mem_render_of_isName valid), cut, components_append,
      components_render more fun name member => (valid name member).2.2.2.1,
      components_of_not_mem noSlash]
  have same : (disk.without place).cwd = disk.cwd := rfl
  have walked : (disk.without place).walk (location disk.cwd root) (names ++ [cString last]) =
      disk.walk (location disk.cwd root) (names ++ [cString last]) :=
    walk_congr all fun front taken => node_without_outside (apart front taken)
  unfold look
  rw [resolve_join_of_look nonempty plain directory relative,
    resolve_join_of_look nonempty plain before relative, parts, same, walked]
  cases reached : disk.walk (location disk.cwd root) (names ++ [cString last]) with
  | none => rfl
  | some there =>
      have here := eq_foldl_of_walk reached
      rw [foldl_enter all] at here
      subst here
      exact node_without_outside (apart _ List.prefix_rfl)

/-! ## Emptying a directory -/

/-- Nothing is left below the place. -/
theorem node_emptied_below {other : List Bytes} (below : place <+: other) (apart : other ≠ place) :
    (disk.emptied place).node other = none := by
  have dropped : ¬ (!(place.isPrefixOf other && other != place)) = true := by
    rw [Bool.not_eq_true', Bool.eq_false_iff, not_not, Bool.and_eq_true, List.isPrefixOf_iff_prefix,
      bne_iff_ne]
    exact ⟨below, apart⟩
  unfold emptied node
  rw [OrderedMap.get_filterKeys, if_neg dropped]

/-- The place itself, and everything that is not below it, is left. -/
theorem node_emptied_of_not_below {other : List Bytes} (outside : place <+: other → other = place) :
    (disk.emptied place).node other = disk.node other := by
  have kept : (!(place.isPrefixOf other && other != place)) = true := by
    rw [Bool.not_eq_true', Bool.eq_false_iff, ne_eq, Bool.and_eq_true, List.isPrefixOf_iff_prefix,
      bne_iff_ne]
    exact fun both => both.2 (outside both.1)
  unfold emptied node
  rw [OrderedMap.get_filterKeys, if_pos kept]

/-- What is left was there before. -/
theorem node_of_emptied {other : List Bytes} {entry : Node}
    (left : (disk.emptied place).node other = some entry) : disk.node other = some entry := by
  by_cases inside : place <+: other ∧ other ≠ place
  · rw [node_emptied_below inside.1 inside.2] at left
    cases left
  · rwa [node_emptied_of_not_below fun below => by_contra fun apart => inside ⟨below, apart⟩] at left

/-- An emptied directory that is removed takes all below it away. -/
theorem erase_emptied (disk : Disk) (place : List Bytes) :
    (disk.emptied place).erase place = disk.without place := by
  unfold erase
  congr 1
  refine OrderedMap.ext_get fun other => ?_
  change ((disk.emptied place).erase place).node other = (disk.without place).node other
  by_cases here : place = other
  · rw [← here, node_erase_self, node_without_below (List.prefix_refl _)]
  · rw [node_erase_of_ne _ here]
    by_cases below : place <+: other
    · rw [node_emptied_below below (Ne.symm here), node_without_below below]
    · rw [node_emptied_of_not_below fun inside => absurd inside below, node_without_outside below]

/-- More is left of a directory that is only emptied. -/
theorem keepsDirs_without_emptied (disk : Disk) (place : List Bytes) :
    KeepsDirs (disk.without place) (disk.emptied place) := by
  refine ⟨rfl, fun other left => ?_⟩
  by_cases below : place <+: other
  · rw [node_without_below below] at left
    cases left
  · rw [node_emptied_of_not_below fun inside => absurd inside below]
    rwa [node_without_outside below] at left

/-- A walk leads through the same directories of a tree that has more of them, so it fails in
both once what is below a place is gone, or in neither. -/
theorem KeepsDirs.walk_emptied (kept : KeepsDirs before after) (place : List Bytes)
    {names start there : List Bytes} (walked : before.walk start names = some there) :
    (after.emptied place).walk start names = (before.emptied place).walk start names := by
  induction names generalizing start with
  | nil => rfl
  | cons name rest ih =>
      simp only [walk] at walked ⊢
      split at walked
      · rename_i directory
        by_cases inside : place <+: start ∧ start ≠ place
        · rw [node_emptied_below inside.1 inside.2, node_emptied_below inside.1 inside.2]
          rfl
        · have outside (below : place <+: start) : start = place :=
            by_contra fun apart => inside ⟨below, apart⟩
          rw [node_emptied_of_not_below outside, node_emptied_of_not_below outside, directory,
            kept.2 start directory, if_pos rfl, if_pos rfl]
          exact ih walked
      · cases walked

/-- What more there is on the disk does not change where a path leads once the place is
emptied. -/
theorem KeepsDirs.resolve_emptied (kept : KeepsDirs before after) (place : List Bytes) {path : Bytes}
    (resolved : (before.resolve path).isSome = true) :
    (after.emptied place).resolve path = (before.emptied place).resolve path := by
  obtain ⟨there, walked⟩ := Option.isSome_iff_exists.mp resolved
  unfold Disk.resolve at walked ⊢
  split at walked
  · cases walked
  · rename_i nonempty
    rw [if_neg nonempty, if_neg nonempty, show (after.emptied place).cwd = before.cwd from kept.1]
    exact kept.walk_emptied place walked

/-- Trees of one shape have one shape after a place is emptied. -/
theorem SameShape.emptied {first second : Disk} (same : SameShape first second)
    (place : List Bytes) : SameShape (first.emptied place) (second.emptied place) := by
  have node (other : List Bytes) : (first.emptied place).node other = none ∧
      (second.emptied place).node other = none ∨
      (first.emptied place).node other = first.node other ∧
        (second.emptied place).node other = second.node other := by
    by_cases inside : place <+: other ∧ other ≠ place
    · exact .inl ⟨node_emptied_below inside.1 inside.2, node_emptied_below inside.1 inside.2⟩
    · have outside (below : place <+: other) : other = place :=
        by_contra fun apart => inside ⟨below, apart⟩
      exact .inr ⟨node_emptied_of_not_below outside, node_emptied_of_not_below outside⟩
  refine ⟨same.cwd, fun other => ?_, fun other => ?_⟩
  · rcases node other with ⟨one, two⟩ | ⟨one, two⟩
    · rw [one, two]
    · rw [one, two, same.dir_iff]
  · rcases node other with ⟨one, two⟩ | ⟨one, two⟩
    · rw [one, two]
    · rw [one, two, same.none_iff]

/-! ## The tree behind the call -/

/-- The path still leads to its place when all below that is gone, and to an entry that can
be removed. -/
def vanishes (disk : Disk) (path : Bytes) (place : List Bytes) : Bool :=
  ((disk.emptied place).resolve path).isSome && removable path

/-- The tree after `remove_all` of a path. -/
def removed (disk : Disk) (path : Bytes) : Disk :=
  match disk.resolve path with
  | none => disk
  | some place => if disk.vanishes path place then disk.without place else disk.emptied place

/-- `remove_all` has no reason of its own to throw: it can remove the directory, or does not
find it any more. -/
def clears (disk : Disk) (path : Bytes) : Bool :=
  match disk.resolve path with
  | none => !disk.blocked path
  | some place => removable path || ((disk.emptied place).resolve path).isNone

/-- A path that leads somewhere and ends in a name is cleared. -/
theorem clears_of_removable {path : Bytes} (named : removable path = true)
    (resolved : (disk.resolve path).isSome = true) : disk.clears path = true := by
  obtain ⟨place, there⟩ := Option.isSome_iff_exists.mp resolved
  rw [clears, there]
  dsimp only
  rw [named, Bool.true_or]

/-- `remove_all` takes the place away: it lies below the directory, or is the directory and
that goes as well. -/
structure Sweeps (disk : Disk) (path : Bytes) (place : List Bytes) : Prop where
  inside : location disk.cwd path <+: place
  vanishes : place = location disk.cwd path → disk.vanishes path place = true

/-- The entries of the directory are swept, whether it can be removed itself or not. -/
theorem sweeps_entry (disk : Disk) (path name : Bytes) :
    disk.Sweeps path (location disk.cwd path ++ [name]) := by
  refine ⟨List.prefix_append .., fun same => ?_⟩
  have lengths := congrArg List.length same
  rw [List.length_append, List.length_singleton] at lengths
  omega

/-- Nothing is left where the removal sweeps. -/
theorem node_removed_of_sweeps {path : Bytes} {other : List Bytes}
    (resolved : (disk.resolve path).isSome = true) (sweeps : disk.Sweeps path other) :
    (disk.removed path).node other = none := by
  obtain ⟨place, there⟩ := Option.isSome_iff_exists.mp resolved
  have here := location_of_resolve there
  subst here
  rw [removed, there]
  dsimp only
  split
  · exact node_without_below sweeps.inside
  · rename_i staying
    exact node_emptied_below sweeps.inside fun same => staying (same ▸ sweeps.vanishes same)

/-- What is left was there before. -/
theorem node_of_removed {path : Bytes} {other : List Bytes} {entry : Node}
    (left : (disk.removed path).node other = some entry) : disk.node other = some entry := by
  unfold removed at left
  split at left
  · exact left
  · split at left
    · exact node_of_without left
    · exact node_of_emptied left

/-- The working directory stays the same. -/
theorem cwd_removed (disk : Disk) (path : Bytes) : (disk.removed path).cwd = disk.cwd := by
  unfold removed
  split
  · rfl
  · split <;> rfl

/-- The directory itself goes or stays in a tree with more directories as it does in the
tree. -/
theorem KeepsDirs.vanishes (kept : KeepsDirs before after) {path : Bytes}
    (resolved : (before.resolve path).isSome = true) (place : List Bytes) :
    after.vanishes path place = before.vanishes path place := by
  unfold Disk.vanishes
  rw [kept.resolve_emptied place resolved]

/-- The removal sweeps the same places with more on the disk. -/
theorem KeepsDirs.sweeps (kept : KeepsDirs before after) {path : Bytes} {place : List Bytes}
    (resolved : (before.resolve path).isSome = true) (sweeps : before.Sweeps path place) :
    after.Sweeps path place := by
  refine ⟨kept.1 ▸ sweeps.inside, fun same => ?_⟩
  rw [kept.1] at same
  rw [kept.vanishes resolved, sweeps.vanishes same]

/-- Whether the removal clears its path does not depend on what more there is on the
disk. -/
theorem KeepsDirs.clears (kept : KeepsDirs before after) {path : Bytes}
    (resolved : (before.resolve path).isSome = true) : after.clears path = before.clears path := by
  obtain ⟨place, there⟩ := Option.isSome_iff_exists.mp resolved
  unfold Disk.clears
  rw [kept.resolve there, there]
  dsimp only
  rw [kept.resolve_emptied place resolved]

/-- What is left in a tree is left in one with more entries. -/
theorem KeepsDirs.node_removed (kept : KeepsDirs before after) {path : Bytes} {entry : Node}
    (resolved : (before.resolve path).isSome = true) {other : List Bytes}
    (left : (before.removed path).node other ≠ none) (stored : after.node other = some entry) :
    (after.removed path).node other = some entry := by
  obtain ⟨place, there⟩ := Option.isSome_iff_exists.mp resolved
  have same := kept.vanishes resolved place
  rw [Disk.removed, there] at left
  rw [Disk.removed, kept.resolve there]
  dsimp only at left ⊢
  rw [same]
  split at left
  · rename_i vanishing
    rw [if_pos vanishing, node_without_outside, stored]
    exact fun below => left (node_without_below below)
  · rename_i staying
    rw [if_neg staying, node_emptied_of_not_below, stored]
    exact fun below => by_contra fun apart => left (node_emptied_below below apart)

/-- Removing a directory from a tree with more directories leaves more of them. -/
theorem KeepsDirs.removed (kept : KeepsDirs before after) {path : Bytes}
    (resolved : (before.resolve path).isSome = true) :
    KeepsDirs (before.removed path) (after.removed path) := by
  refine ⟨by rw [cwd_removed, cwd_removed, kept.1], fun other directory => ?_⟩
  refine kept.node_removed resolved ?_ (kept.2 other (node_of_removed directory))
  rw [directory]
  exact Option.some_ne_none _

/-- A file found when a directory has been removed from a tree is found when the same
directory has been removed from one with more directories and the file. -/
theorem KeepsDirs.look_removed (kept : KeepsDirs before after) {path file content : Bytes}
    (resolved : (before.resolve path).isSome = true) (left : (before.removed path).look file ≠ none)
    (stored : after.node (location before.cwd file) = some (.file content)) :
    (after.removed path).look file = some (.file content) := by
  obtain ⟨entry, found⟩ := Option.ne_none_iff_exists'.mp left
  obtain ⟨there, reached, present⟩ := Option.bind_eq_some_iff.mp found
  have here := location_of_resolve reached
  rw [cwd_removed] at here
  subst here
  refine Option.bind_eq_some_iff.mpr ⟨_, (kept.removed resolved).resolve reached, ?_⟩
  refine kept.node_removed resolved ?_ stored
  rw [present]
  exact Option.some_ne_none _

/-- Trees of one shape have one shape after a path is removed. -/
theorem SameShape.removed {first second : Disk} (same : SameShape first second) (path : Bytes) :
    SameShape (first.removed path) (second.removed path) := by
  unfold Disk.removed Disk.vanishes
  rw [same.resolve]
  cases first.resolve path with
  | none => exact same
  | some place =>
      dsimp only
      rw [(same.emptied place).resolve]
      split
      · rw [← erase_emptied, ← erase_emptied]
        exact (same.emptied place).erase place
      · exact same.emptied place

end Disk

namespace Fs

variable {host : Host} {machine : Machine}

/-- Removing a directory with all below it, unless the host stops the removal halfway. What
is below is gone even when the directory itself cannot be removed. -/
theorem removeAll_ends (path : Bytes) :
    Ends (removeAll host path) machine fun result final =>
      (result = .ok ⟨⟩ ∧ final.disk = machine.disk.removed path ∧ machine.disk.clears path = true ∧
        ((machine.disk.resolve path).isSome = true → host.removeFault machine.calls = false)) ∨
      result = .error (.filesystem [path]) ∧
        (host.removeFault machine.calls = false →
          machine.disk.clears path = false ∧ final.disk = machine.disk.removed path) ∧
        ∀ place, machine.disk.resolve path = some place →
          (∀ other, host.removedFirst machine.calls other = true) →
            final.disk = machine.disk.emptied place := by
  unfold removeAll Disk.removed Disk.clears
  apply ends_ask
  apply ends_ask
  apply ends_begin
  apply ends_disk
  have same : (begun machine [path]).disk = machine.disk := rfl
  rw [same]
  cases resolved : machine.disk.resolve path with
  | none =>
      refine Ends.ite (fun blocked => ?_) fun free => ?_
      · exact .inr ⟨rfl, fun _ => ⟨by rw [blocked]; rfl, rfl⟩, fun _ here => by cases here⟩
      · exact .inl ⟨rfl, rfl, by rw [Bool.eq_false_iff.mpr free]; rfl,
          fun here => by cases here⟩
  | some place =>
      refine Ends.ite (fun failing => ?_) fun working => ?_
      · refine .inr ⟨rfl, fun sound => ?_, fun other here all => ?_⟩
        · rw [sound] at failing
          cases failing
        · cases here
          change ({ machine.disk with tree := machine.disk.tree.filterKeys fun other =>
            !(place.isPrefixOf other && other != place && host.removedFirst machine.calls other) } :
              Disk) = _
          simp only [all, Bool.and_true]
          rfl
      · have sound := Bool.eq_false_iff.mpr working
        dsimp only
        unfold Disk.vanishes
        cases left : (machine.disk.emptied place).resolve path with
        | none =>
            exact .inl ⟨rfl, rfl, by simp, fun _ => sound⟩
        | some there =>
            have here : there = place := by
              rw [Disk.location_of_resolve left, Disk.location_of_resolve resolved]
              rfl
            subst here
            cases named : removable path with
            | true => exact .inl ⟨rfl, (Disk.erase_emptied ..).symm ▸ rfl, rfl, fun _ => sound⟩
            | false =>
                refine .inr ⟨rfl, fun _ => ⟨rfl, rfl⟩, fun other here all => ?_⟩
                cases here
                rfl

end Fs

end Basis
