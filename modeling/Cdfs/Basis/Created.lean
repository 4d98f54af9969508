import Cdfs.Basis.FileSystemRules

/-! # Creating directories, as a function of the tree

Without faults `create_directories` is a function of the tree: it has a result tree or
fails (`Basis.Disk.created`). A call that reports no error has this tree as its result
whatever the host does, and without faults it reports none if there is one
(`Basis.Fs.createDirectories_created`).
-/

namespace Basis

open FsPath

namespace Disk

/-- What climbing from the components, given in reverse, leaves to create, outermost
first. -/
def unmade (disk : Disk) : List Bytes → List (List Bytes) → Option (List (List Bytes))
  | [], missing => some missing
  | [] :: above, missing => if above = [] then some missing else disk.unmade above missing
  | name :: above, missing =>
      match disk.look (render (name :: above).reverse) with
      | some .dir => some missing
      | some (.file _) => none
      | none =>
          if name = [46] ∨ name = [46, 46] then disk.unmade above missing
          else disk.unmade above ((name :: above).reverse :: missing)

/-- The tree with a directory at the path, if there can be one. -/
def withDirectory (disk : Disk) (path : Bytes) : Option Disk :=
  match disk.resolve path with
  | none => none
  | some place =>
      match disk.node place with
      | some .dir => some disk
      | some (.file _) => none
      | none => some (disk.put place .dir)

/-- The tree with the directories, made in turn. -/
def withDirectories (disk : Disk) : List (List Bytes) → Option Disk
  | [] => some disk
  | names :: rest => (disk.withDirectory (render names)).bind fun grown => grown.withDirectories rest

/-- The tree after `create_directories` without faults; none when it fails. -/
def created (disk : Disk) (path : Bytes) : Option Disk :=
  if cString path = [] then none
  else (disk.unmade (components (cString path)).reverse []).bind disk.withDirectories

theorem grown_withDirectory {disk tree : Disk} {path : Bytes}
    (made : disk.withDirectory path = some tree) : Grown disk tree := by
  unfold withDirectory at made
  split at made
  · cases made
  · split at made
    · cases made
      exact .refl _
    · cases made
    · rename_i absent
      cases made
      exact .put_dir absent

theorem grown_withDirectories {disk tree : Disk} {missing : List (List Bytes)}
    (made : disk.withDirectories missing = some tree) : Grown disk tree := by
  induction missing generalizing disk with
  | nil =>
      cases made
      exact .refl _
  | cons names rest ih =>
      obtain ⟨middle, first, later⟩ := Option.bind_eq_some_iff.mp made
      exact (grown_withDirectory first).trans (ih later)

/-- Creating directories adds directories only. -/
theorem grown_created {disk tree : Disk} {path : Bytes} (made : disk.created path = some tree) :
    Grown disk tree := by
  unfold created at made
  split at made
  · cases made
  · obtain ⟨missing, _, all⟩ := Option.bind_eq_some_iff.mp made
    exact grown_withDirectories all

end Disk

namespace Fs

variable {host : Host} {machine : Machine}

theorem climb_unmade (above : List Bytes) (missing : List (List Bytes)) :
    Ends (climb host above missing) machine fun result final => final.disk = machine.disk ∧
      ∃ found, result = .ok found ∧
        (∀ names, found = some names → machine.disk.unmade above missing = some names) ∧
        (host.Faultless → found = machine.disk.unmade above missing) := by
  induction above generalizing machine missing with
  | nil => exact ⟨rfl, _, rfl, fun names same => same ▸ rfl, fun _ => rfl⟩
  | cons first above ih =>
      cases first with
      | nil =>
          rw [climb, Disk.unmade]
          refine Ends.ite (fun top => ?_) fun lower => ?_
          · rw [if_pos top]
            apply ends_begin
            cases fault : host.fault machine.calls with
            | none => exact ⟨rfl, _, rfl, fun names same => same, fun _ => rfl⟩
            | fails written noticed =>
                exact ⟨rfl, _, rfl, fun _ same => (Option.some_ne_none _ same.symm).elim,
                  fun faultless => (not_fails faultless fault).elim⟩
          · rw [if_neg lower]
            exact ih missing
      | cons byte tail =>
          rw [climb]
          · apply ends_begin
            cases fault : host.fault machine.calls with
            | fails written noticed =>
                exact ⟨rfl, _, rfl, fun _ same => (Option.some_ne_none _ same.symm).elim,
                  fun faultless => (not_fails faultless fault).elim⟩
            | none =>
                apply ends_disk
                rw [Disk.unmade]
                · have same : (begun machine [render ((byte :: tail) :: above).reverse]).disk =
                      machine.disk := rfl
                  rw [same]
                  cases machine.disk.look (render ((byte :: tail) :: above).reverse) with
                  | some entry =>
                      cases entry with
                      | dir => exact ⟨rfl, _, rfl, fun names same => same, fun _ => rfl⟩
                      | file content =>
                          exact ⟨rfl, _, rfl, fun _ same => (Option.some_ne_none _ same.symm).elim,
                            fun _ => rfl⟩
                  | none =>
                      refine Ends.ite (fun dots => ?_) fun named => ?_
                      · simp only [dots, ↓reduceIte]
                        exact ih missing
                      · simp only [named, ↓reduceIte]
                        exact ih _
                · exact List.cons_ne_nil byte tail
          · exact List.cons_ne_nil byte tail

theorem createDirectory_made (path : Bytes) :
    Ends (createDirectory host path) machine fun result final => ∃ made, result = .ok made ∧
      (made = true → machine.disk.withDirectory path = some final.disk) ∧
      (made = false → final.disk = machine.disk) ∧
      (host.Faultless → made = (machine.disk.withDirectory path).isSome) := by
  unfold createDirectory Disk.withDirectory
  apply ends_begin
  cases fault : host.fault machine.calls with
  | fails written noticed =>
      exact ⟨false, rfl, fun impossible => (Bool.false_ne_true impossible).elim, fun _ => rfl,
        fun faultless => (not_fails faultless fault).elim⟩
  | none =>
      apply ends_disk
      simp only [begun]
      cases machine.disk.resolve path with
      | none =>
          exact ⟨false, rfl, fun impossible => (Bool.false_ne_true impossible).elim, fun _ => rfl,
            fun _ => rfl⟩
      | some place =>
          dsimp only
          cases machine.disk.node place with
          | none =>
              exact ⟨true, rfl, fun _ => rfl,
                fun impossible => (Bool.false_ne_true impossible.symm).elim, fun _ => rfl⟩
          | some entry =>
              cases entry with
              | dir =>
                  exact ⟨true, rfl, fun _ => rfl,
                    fun impossible => (Bool.false_ne_true impossible.symm).elim, fun _ => rfl⟩
              | file content =>
                  exact ⟨false, rfl, fun impossible => (Bool.false_ne_true impossible).elim,
                    fun _ => rfl, fun _ => rfl⟩

theorem createAll_made (missing : List (List Bytes)) :
    Ends (createAll host missing) machine fun result final => ∃ made, result = .ok made ∧
      (made = true → machine.disk.withDirectories missing = some final.disk) ∧
      (host.Faultless → made = (machine.disk.withDirectories missing).isSome) := by
  induction missing generalizing machine with
  | nil => exact ⟨true, rfl, fun _ => rfl, fun _ => rfl⟩
  | cons names rest ih =>
      rw [createAll, Disk.withDirectories]
      apply Ends.bind (createDirectory_made (render names))
      · rintro made middle ⟨_, returned, first, _, exact⟩
        cases returned
        cases made with
        | false =>
            refine ⟨false, rfl, fun impossible => (Bool.false_ne_true impossible).elim,
              fun faultless => ?_⟩
            have absent := exact faultless
            rw [eq_comm, Option.isSome_eq_false_iff, Option.isNone_iff_eq_none] at absent
            rw [absent]
            rfl
        | true =>
            rw [first rfl, Option.bind_some]
            exact ih
      · rintro thrown final ⟨_, returned, _⟩
        cases returned

/-- `create_directories` as a function of the tree. -/
theorem createDirectories_created (path : Bytes) :
    Ends (createDirectories host path) machine fun result final => ∃ made, result = .ok made ∧
      (made = true → machine.disk.created path = some final.disk) ∧
      (host.Faultless → made = (machine.disk.created path).isSome) := by
  unfold createDirectories Disk.created
  refine Ends.ite (fun empty => ?_) fun nonempty => ?_
  · rw [if_pos empty]
    exact ⟨false, rfl, fun impossible => (Bool.false_ne_true impossible).elim, fun _ => rfl⟩
  · rw [if_neg nonempty]
    apply Ends.bind (climb_unmade _ [])
    · rintro found middle ⟨same, _, returned, unmade, exact⟩
      cases returned
      cases found with
      | none =>
          refine ⟨false, rfl, fun impossible => (Bool.false_ne_true impossible).elim,
            fun faultless => ?_⟩
          rw [← exact faultless]
          rfl
      | some missing =>
          rw [unmade missing rfl, Option.bind_some, ← same]
          exact createAll_made missing
    · rintro thrown final ⟨_, _, returned, _⟩
      cases returned

end Fs

end Basis
