import Cdfs.Basis.Created

/-! # Trees of the same shape

Two trees have the same shape when they differ in the contents of files only
(`Basis.Disk.SameShape`). Paths lead to the same places in both, and directories are
created in both alike.
-/

namespace Basis

open FsPath

namespace Disk

/-- The trees differ in the contents of files only. -/
structure SameShape (first second : Disk) : Prop where
  cwd : second.cwd = first.cwd
  dir_iff : ∀ place, second.node place = some .dir ↔ first.node place = some .dir
  none_iff : ∀ place, second.node place = none ↔ first.node place = none

namespace SameShape

variable {first second : Disk}

theorem symm (same : SameShape first second) : SameShape second first :=
  ⟨same.cwd.symm, fun place => (same.dir_iff place).symm, fun place => (same.none_iff place).symm⟩

/-- Paths lead to the same places. -/
theorem resolve (same : SameShape first second) (path : Bytes) :
    second.resolve path = first.resolve path := by
  have one : KeepsDirs first second := ⟨same.cwd, fun place => (same.dir_iff place).mpr⟩
  have other : KeepsDirs second first := ⟨same.cwd.symm, fun place => (same.dir_iff place).mp⟩
  cases resolved : first.resolve path with
  | some place => exact one.resolve resolved
  | none =>
      cases later : second.resolve path with
      | none => rfl
      | some place =>
          rw [other.resolve later] at resolved
          cases resolved

/-- The same paths lead to directories. -/
theorem look_dir_iff (same : SameShape first second) (path : Bytes) :
    second.look path = some .dir ↔ first.look path = some .dir := by
  unfold look
  rw [same.resolve]
  cases first.resolve path with
  | none => exact Iff.rfl
  | some place => exact same.dir_iff place

/-- The same paths lead to nothing. -/
theorem look_none_iff (same : SameShape first second) (path : Bytes) :
    second.look path = none ↔ first.look path = none := by
  unfold look
  rw [same.resolve]
  cases first.resolve path with
  | none => exact Iff.rfl
  | some place => exact same.none_iff place

/-- A directory is put in both. -/
theorem put_dir (same : SameShape first second) (place : List Bytes) :
    SameShape (first.put place .dir) (second.put place .dir) := by
  refine ⟨same.cwd, fun other => ?_, fun other => ?_⟩
  · by_cases here : place = other
    · rw [here, node_put_self, node_put_self]
    · rw [node_put_of_ne _ _ here, node_put_of_ne _ _ here, same.dir_iff]
  · by_cases here : place = other
    · rw [here, node_put_self, node_put_self]
    · rw [node_put_of_ne _ _ here, node_put_of_ne _ _ here, same.none_iff]

/-- A file is written in both trees, whatever it holds. -/
theorem put_file (same : SameShape first second) (place : List Bytes) (one other : Bytes) :
    SameShape (first.put place (.file one)) (second.put place (.file other)) := by
  refine ⟨same.cwd, fun there => ?_, fun there => ?_⟩
  · by_cases here : place = there
    · rw [here, node_put_self, node_put_self]
      exact iff_of_false nofun nofun
    · rw [node_put_of_ne _ _ here, node_put_of_ne _ _ here, same.dir_iff]
  · by_cases here : place = there
    · rw [here, node_put_self, node_put_self]
      exact iff_of_false nofun nofun
    · rw [node_put_of_ne _ _ here, node_put_of_ne _ _ here, same.none_iff]

/-- A place is erased in both. -/
theorem erase (same : SameShape first second) (place : List Bytes) :
    SameShape (first.erase place) (second.erase place) := by
  refine ⟨same.cwd, fun there => ?_, fun there => ?_⟩
  · by_cases here : place = there
    · rw [here, node_erase_self, node_erase_self]
    · rw [node_erase_of_ne _ here, node_erase_of_ne _ here, same.dir_iff]
  · by_cases here : place = there
    · rw [here, node_erase_self, node_erase_self]
    · rw [node_erase_of_ne _ here, node_erase_of_ne _ here, same.none_iff]

/-- The same directories are missing. -/
theorem unmade (same : SameShape first second) (above : List Bytes) (missing : List (List Bytes)) :
    second.unmade above missing = first.unmade above missing := by
  induction above generalizing missing with
  | nil => rfl
  | cons name above ih =>
      cases name with
      | nil =>
          rw [Disk.unmade, Disk.unmade, ih]
      | cons byte tail =>
          rw [Disk.unmade, Disk.unmade]
          · cases entry : first.look (render ((byte :: tail) :: above).reverse) with
            | none =>
                rw [(same.look_none_iff _).mpr entry]
                dsimp only
                rw [ih, ih]
            | some node =>
                cases node with
                | dir => rw [(same.look_dir_iff _).mpr entry]
                | file content =>
                    cases other : second.look (render ((byte :: tail) :: above).reverse) with
                    | none =>
                        rw [(same.look_none_iff _).mp other] at entry
                        cases entry
                    | some node =>
                        cases node with
                        | dir =>
                            rw [(same.look_dir_iff _).mp other] at entry
                            cases entry
                        | file content => rfl
          · exact List.cons_ne_nil byte tail
          · exact List.cons_ne_nil byte tail

/-- A directory can be created in both or in neither. -/
theorem withDirectory (same : SameShape first second) {path : Bytes} {tree : Disk}
    (made : first.withDirectory path = some tree) :
    ∃ other, second.withDirectory path = some other ∧ SameShape tree other := by
  unfold Disk.withDirectory at made ⊢
  rw [same.resolve]
  cases resolved : first.resolve path with
  | none =>
      rw [resolved] at made
      cases made
  | some place =>
      rw [resolved] at made
      dsimp only at made ⊢
      cases stored : first.node place with
      | none =>
          rw [stored] at made
          cases made
          rw [(same.none_iff place).mpr stored]
          exact ⟨_, rfl, same.put_dir place⟩
      | some node =>
          rw [stored] at made
          cases node with
          | dir =>
              cases made
              rw [(same.dir_iff place).mpr stored]
              exact ⟨_, rfl, same⟩
          | file content => cases made

/-- So can a list of them. -/
theorem withDirectories (same : SameShape first second) {missing : List (List Bytes)} {tree : Disk}
    (made : first.withDirectories missing = some tree) :
    ∃ other, second.withDirectories missing = some other ∧ SameShape tree other := by
  induction missing generalizing first second with
  | nil =>
      cases made
      exact ⟨second, rfl, same⟩
  | cons names rest ih =>
      obtain ⟨middle, one, later⟩ := Option.bind_eq_some_iff.mp made
      obtain ⟨other, here, alike⟩ := same.withDirectory one
      obtain ⟨last, behind, whole⟩ := ih alike later
      refine ⟨last, ?_, whole⟩
      rw [Disk.withDirectories, here]
      exact behind

/-- Directories are created in both trees alike. -/
theorem created (same : SameShape first second) {path : Bytes} {tree : Disk}
    (made : first.created path = some tree) :
    ∃ other, second.created path = some other ∧ SameShape tree other := by
  unfold Disk.created at made ⊢
  split at made
  · cases made
  · rename_i nonempty
    obtain ⟨missing, found, all⟩ := Option.bind_eq_some_iff.mp made
    obtain ⟨other, here, alike⟩ := same.withDirectories all
    refine ⟨other, ?_, alike⟩
    rw [if_neg nonempty, same.unmade, found]
    exact here

end SameShape

end Disk

end Basis
