import Cdfs.Basis.FileSystemRules
import Cdfs.Store.FileStore

/-! # Scanning a directory for shards

What `get_shard_index` returns, in terms of the tree: the indices that the entries of the
directory count for (`Cdfs.FileStore.numbered`), in the order in which they are read.
-/

namespace Cdfs

open Basis FsPath

namespace FileStore

/-- An entry of a directory by its name. -/
theorem look_join_name {disk : Disk} {directory name : Bytes} (nonempty : directory ≠ [])
    (plain : (0 : UInt8) ∉ directory) (there : disk.look directory = some .dir) (valid : IsName name) :
    disk.look (join directory name) = disk.node (location disk.cwd directory ++ [name]) := by
  rw [Disk.look, Disk.resolve_join_of_look nonempty plain there
    (isAbsolute_of_not_mem valid.2.2.2.1), cString_of_not_mem valid.2.2.2.2,
    components_of_not_mem valid.2.2.2.1, Disk.walk, if_pos (Disk.node_location_of_look there),
    enter_of_isName valid]
  rfl

/-- The index an entry of a directory counts for: a regular file whose name starts with a
number. -/
def numbered (disk : Disk) (directory name : Bytes) : Option Int :=
  match disk.look (join directory name) with
  | some (.file _) => stoi name
  | _ => none

variable {host : Host} {machine : Machine}

/-- The kind of an entry decides whether its name counts. -/
theorem isRegularFile_numbered (directory name : Bytes) :
    Ends (Fs.isRegularFile host (join directory name)) machine fun result final =>
      final.disk = machine.disk ∧
      (∀ regular, result = .ok regular →
        (if regular then stoi name else none) = numbered machine.disk directory name) ∧
      ∀ thrown, result = .error thrown → ¬ host.Faultless := by
  unfold Fs.isRegularFile
  apply Ends.bind (Fs.status_ends (join directory name))
  · rintro entry final ⟨same, rfl⟩
    cases found : machine.disk.look (join directory name) with
    | none =>
        refine ⟨same, ?_, fun _ failed => ?_⟩
        · intro regular returned
          cases returned
          rw [numbered, found]
          rfl
        · cases failed
    | some entry =>
        cases entry with
        | dir =>
            refine ⟨same, ?_, fun _ failed => ?_⟩
            · intro regular returned
              cases returned
              rw [numbered, found]
              rfl
            · cases failed
        | file content =>
            refine ⟨same, ?_, fun _ failed => ?_⟩
            · intro regular returned
              cases returned
              rw [numbered, found]
              rfl
            · cases failed
  · rintro thrown final ⟨same, failing⟩
    refine ⟨same, ?_, fun _ _ => failing⟩
    intro regular returned
    cases returned

theorem numberedFiles_ends (directory : Bytes) (names : List Bytes) :
    Ends (numberedFiles host directory names) machine fun result final =>
      final.disk = machine.disk ∧
      (result = .ok (names.filterMap (numbered machine.disk directory)) ∨
        (∃ thrown, result = .error thrown) ∧ ¬ host.Faultless) := by
  induction names generalizing machine with
  | nil => exact ⟨rfl, .inl rfl⟩
  | cons name rest ih =>
      rw [numberedFiles]
      apply Ends.bind (isRegularFile_numbered directory name)
      · rintro regular middle ⟨same, counts, _⟩
        rw [counts regular rfl]
        apply Ends.bind ih
        · rintro indices final ⟨unchanged, read | ⟨⟨_, failed⟩, _⟩⟩
          · cases read
            cases found : numbered machine.disk directory name with
            | some index =>
                refine ⟨unchanged.trans same, .inl ?_⟩
                rw [List.filterMap_cons_some found, same]
            | none =>
                refine ⟨unchanged.trans same, .inl ?_⟩
                rw [List.filterMap_cons_none found, same]
          · cases failed
        · rintro thrown final ⟨unchanged, read | ⟨_, failing⟩⟩
          · cases read
          · exact ⟨unchanged.trans same, .inr ⟨⟨_, rfl⟩, failing⟩⟩
      · rintro thrown final ⟨same, _, failing⟩
        exact ⟨same, .inr ⟨⟨_, rfl⟩, failing thrown rfl⟩⟩

/-- The indices a scan of a directory finds. -/
def scanned (disk : Disk) (directory : Bytes) : List Int :=
  if disk.look directory = some .dir then
    (disk.names (location disk.cwd directory)).filterMap (numbered disk directory)
  else []

/-- A scan that returns has found the indices of the entries in some order. -/
theorem getShardIndex_ends (fileDir : Bytes) :
    Ends (getShardIndex host fileDir) machine fun result final => final.disk = machine.disk ∧
      (∀ indices, result = .ok indices → indices.Perm (scanned machine.disk fileDir)) ∧
      ∀ thrown, result = .error thrown → ¬ host.Faultless := by
  have nothing (other : machine.disk.look fileDir ≠ some .dir) {final : Machine}
      (unmoved : final.disk = machine.disk) : final.disk = machine.disk ∧
        (∀ indices, (.ok [] : Except Exn (List Int)) = .ok indices →
          indices.Perm (scanned machine.disk fileDir)) ∧
        ∀ thrown, (.ok [] : Except Exn (List Int)) = .error thrown → ¬ host.Faultless := by
    refine ⟨unmoved, ?_, fun thrown failed => by cases failed⟩
    rintro _ ⟨⟩
    rw [scanned, if_neg other]
  have broken {final : Machine} (thrown : Exn) (unmoved : final.disk = machine.disk)
      (failing : ¬ host.Faultless) : final.disk = machine.disk ∧
        (∀ indices, (.error thrown : Except Exn (List Int)) = .ok indices →
          indices.Perm (scanned machine.disk fileDir)) ∧
        ∀ other, (.error thrown : Except Exn (List Int)) = .error other → ¬ host.Faultless :=
    ⟨unmoved, fun indices returned => (by cases returned), fun _ _ => failing⟩
  unfold getShardIndex
  apply Ends.bind (Fs.exists_ends fileDir)
  · rintro found checked ⟨same, rfl⟩
    refine Ends.ite (fun _ => ?_) fun absent => nothing (fun there => absent (by rw [there]; rfl)) same
    unfold Fs.isDirectory
    rw [bind_assoc]
    apply Ends.bind (Fs.status_ends fileDir)
    · rintro entry middle ⟨again, rfl⟩
      rw [pure_bind, same]
      have total := again.trans same
      refine Ends.ite (fun directory => ?_) fun other =>
        nothing (fun there => other (decide_eq_true there)) total
      have there := of_decide_eq_true directory
      apply Ends.bind (Fs.list_ends fileDir)
      · rintro names listed ⟨unchanged, ⟨_, returned, _, perm⟩ | ⟨⟨_, failed⟩, _⟩⟩
        · cases returned
          rw [total] at unchanged perm
          refine (numberedFiles_ends fileDir names).mono ?_
          rw [unchanged]
          rintro result final ⟨kept, read | ⟨⟨thrown, returned⟩, failing⟩⟩
          · subst read
            refine ⟨kept, ?_, fun thrown failed => by cases failed⟩
            rintro _ ⟨⟩
            rw [scanned, if_pos there]
            exact perm.filterMap _
          · subst returned
            exact broken thrown kept failing
        · cases failed
      · rintro thrown final ⟨unchanged, ⟨_, returned, _⟩ | ⟨_, failed⟩⟩
        · cases returned
        · exact broken thrown (unchanged.trans total) fun faultless =>
            failed faultless (total ▸ there)
    · exact fun thrown final ⟨again, failing⟩ => broken thrown (again.trans same) failing
  · exact fun thrown final ⟨same, failing⟩ => broken thrown same failing

theorem scan_perm {fileDir : Bytes} {indices : List Int}
    (scan : outcome (getShardIndex host fileDir) machine = .ok indices) :
    indices.Perm (scanned machine.disk fileDir) := by
  have ends : Ends (getShardIndex host fileDir) machine fun result final =>
      final.disk = machine.disk ∧
      (∀ indices, result = .ok indices → indices.Perm (scanned machine.disk fileDir)) ∧
      ∀ thrown, result = .error thrown → ¬ host.Faultless := getShardIndex_ends fileDir
  exact ends.outcome.const fun result final ended => ended.2.2.1 indices (ended.1.trans scan)

end FileStore

end Cdfs
