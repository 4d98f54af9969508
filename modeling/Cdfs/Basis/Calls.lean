import Cdfs.Basis.Accesses
import Cdfs.Basis.Created

/-! # Counting calls

While no call has failed yet, a computation does what the tree says and makes a number of
calls that the tree fixes, so that a fault can be placed at any of its steps
(`Basis.Host.CalmBefore`, `Basis.Fs.createDirectories_calm`).
-/

namespace Basis

open FsPath

/-- No call before the given one fails. -/
def Host.CalmBefore (host : Host) (call : Nat) : Prop :=
  ∀ earlier < call, host.fault earlier = .none

/-- Fewer calls are calm as well. -/
theorem Host.CalmBefore.mono {host : Host} {call earlier : Nat} (calm : host.CalmBefore call)
    (less : earlier ≤ call) : host.CalmBefore earlier :=
  fun first before => calm first (Nat.lt_of_lt_of_le before less)

/-- How many calls `create_directories` makes while none of them fails. -/
def Disk.createCalls (disk : Disk) (path : Bytes) : Nat :=
  (disk.lookedAt path).length +
    ((disk.unmade (components (cString path)).reverse []).getD []).length

namespace Fs

variable {host : Host} {machine : Machine}

/-- A calm query gives what stands under the path. -/
theorem status_calm {call : Nat} (calm : host.CalmBefore call) (earlier : machine.calls < call)
    (path : Bytes) :
    Ends (status host path) machine fun result final =>
      result = .ok (machine.disk.look path) ∧ final = begun machine [path] := by
  unfold status
  apply ends_begin
  rw [calm _ earlier]
  exact ⟨rfl, rfl⟩

/-- A calm `exists`. -/
theorem exists_calm {call : Nat} (calm : host.CalmBefore call) (earlier : machine.calls < call)
    (path : Bytes) :
    Ends (exists_ host path) machine fun result final =>
      result = .ok (machine.disk.look path).isSome ∧ final = begun machine [path] := by
  unfold exists_
  apply Ends.bind (status_calm calm earlier path)
  · rintro entry final ⟨returned, same⟩
    cases returned
    exact ⟨rfl, same⟩
  · rintro _ _ ⟨returned, _⟩
    cases returned

/-- A calm `file_size` of a file. -/
theorem fileSize_calm {call : Nat} (calm : host.CalmBefore call) (earlier : machine.calls < call)
    {path content : Bytes} (found : machine.disk.look path = some (.file content)) :
    Ends (fileSize host path) machine fun result final =>
      result = .ok content.length ∧ final = begun machine [path] := by
  unfold fileSize
  apply Ends.bind (status_calm calm earlier path)
  · rintro entry final ⟨returned, same⟩
    cases returned
    rw [found]
    exact ⟨rfl, same⟩
  · rintro _ _ ⟨returned, _⟩
    cases returned

/-- A calm `is_regular_file` of a file. -/
theorem isRegularFile_calm {call : Nat} (calm : host.CalmBefore call)
    (earlier : machine.calls < call) {path content : Bytes}
    (found : machine.disk.look path = some (.file content)) :
    Ends (isRegularFile host path) machine fun result final =>
      result = .ok true ∧ final = begun machine [path] := by
  unfold isRegularFile
  apply Ends.bind (status_calm calm earlier path)
  · rintro entry final ⟨returned, same⟩
    cases returned
    rw [found]
    exact ⟨rfl, same⟩
  · rintro _ _ ⟨returned, _⟩
    cases returned

/-- A calm climb finds the directories that are missing, with one query for each parent. -/
theorem climb_calm (above : List Bytes) (missing : List (List Bytes))
    (calm : host.CalmBefore (machine.calls + (machine.disk.climbed above).length)) :
    Ends (climb host above missing) machine fun result final =>
      result = .ok (machine.disk.unmade above missing) ∧ final.disk = machine.disk ∧
      final.calls = machine.calls + (machine.disk.climbed above).length := by
  induction above generalizing machine missing with
  | nil => exact ⟨rfl, rfl, rfl⟩
  | cons first above ih =>
      cases first with
      | nil =>
          rw [Disk.climbed] at calm ⊢
          rw [climb, Disk.unmade]
          refine Ends.ite (fun top => ?_) fun lower => ?_
          · rw [if_pos top] at calm ⊢
            rw [if_pos top]
            apply ends_begin
            rw [calm machine.calls (Nat.lt_succ_self _)]
            exact ⟨rfl, rfl, rfl⟩
          · rw [if_neg lower] at calm ⊢
            rw [if_neg lower]
            exact ih missing calm
      | cons byte tail =>
          let here := render ((byte :: tail) :: above).reverse
          have looked : machine.disk.climbed ((byte :: tail) :: above) =
              here :: if machine.disk.look here = none then machine.disk.climbed above else [] := by
            rw [Disk.climbed]
            exact List.cons_ne_nil byte tail
          rw [looked, List.length_cons, Nat.add_comm _ 1, ← Nat.add_assoc] at calm ⊢
          rw [climb, Disk.unmade]
          · apply ends_begin
            rw [calm machine.calls (Nat.lt_of_lt_of_le (Nat.lt_succ_self _) (Nat.le_add_right ..))]
            apply ends_disk
            have same : (begun machine [here]).disk = machine.disk := rfl
            rw [show render ((byte :: tail) :: above).reverse = here from rfl, same]
            cases entry : machine.disk.look here with
            | some node =>
                rw [if_neg (Option.some_ne_none node)]
                cases node with
                | dir => exact ⟨rfl, rfl, rfl⟩
                | file content => exact ⟨rfl, rfl, rfl⟩
            | none =>
                rw [if_pos entry] at calm
                rw [if_pos rfl]
                dsimp only
                refine Ends.ite (fun dots => ?_) fun named => ?_
                · rw [if_pos dots]
                  exact @ih (begun machine [here]) missing calm
                · rw [if_neg named]
                  exact @ih (begun machine [here]) _ calm
          · exact List.cons_ne_nil byte tail
          · exact List.cons_ne_nil byte tail

/-- A calm creation of one directory. -/
theorem createDirectory_calm {path : Bytes} {tree : Disk}
    (made : machine.disk.withDirectory path = some tree)
    (calm : host.fault machine.calls = .none) :
    Ends (createDirectory host path) machine fun result final => result = .ok true ∧
      final.disk = tree ∧ final.calls = machine.calls + 1 := by
  unfold createDirectory
  unfold Disk.withDirectory at made
  apply ends_begin
  rw [calm]
  apply ends_disk
  simp only [begun]
  cases resolved : machine.disk.resolve path with
  | none =>
      rw [resolved] at made
      cases made
  | some place =>
      rw [resolved] at made
      dsimp only at made ⊢
      cases stored : machine.disk.node place with
      | none =>
          rw [stored] at made
          cases made
          exact ⟨rfl, rfl, rfl⟩
      | some entry =>
          rw [stored] at made
          cases entry with
          | dir =>
              cases made
              exact ⟨rfl, rfl, rfl⟩
          | file content => cases made

/-- A calm creation of the missing directories, with one call for each. -/
theorem createAll_calm {missing : List (List Bytes)} {tree : Disk}
    (made : machine.disk.withDirectories missing = some tree)
    (calm : host.CalmBefore (machine.calls + missing.length)) :
    Ends (createAll host missing) machine fun result final => result = .ok true ∧
      final.disk = tree ∧ final.calls = machine.calls + missing.length := by
  induction missing generalizing machine with
  | nil =>
      cases made
      exact ⟨rfl, rfl, rfl⟩
  | cons names rest ih =>
      obtain ⟨middle, first, later⟩ := Option.bind_eq_some_iff.mp made
      rw [List.length_cons, Nat.add_comm _ 1, ← Nat.add_assoc] at calm ⊢
      rw [createAll]
      apply Ends.bind (createDirectory_calm first
        (calm _ (Nat.lt_of_lt_of_le (Nat.lt_succ_self _) (Nat.le_add_right ..))))
      · rintro _ created ⟨returned, same, calls⟩
        cases returned
        rw [← same] at later
        rw [← calls] at calm ⊢
        exact ih later calm
      · rintro _ _ ⟨returned, _⟩
        cases returned

/-- `create_directories` before any call has failed. -/
theorem createDirectories_calm {path : Bytes} {tree : Disk}
    (made : machine.disk.created path = some tree)
    (calm : host.CalmBefore (machine.calls + machine.disk.createCalls path)) :
    Ends (createDirectories host path) machine fun result final => result = .ok true ∧
      final.disk = tree ∧ final.calls = machine.calls + machine.disk.createCalls path := by
  unfold Disk.created at made
  unfold Disk.createCalls Disk.lookedAt at calm ⊢
  unfold createDirectories
  refine Ends.ite (fun empty => ?_) fun nonempty => ?_
  · rw [if_pos empty] at made
    cases made
  · rw [if_neg nonempty] at made calm ⊢
    obtain ⟨missing, found, all⟩ := Option.bind_eq_some_iff.mp made
    rw [found, Option.getD_some, ← Nat.add_assoc] at calm ⊢
    apply Ends.bind (climb_calm _ [] (calm.mono (Nat.le_add_right ..)))
    · rintro _ middle ⟨returned, same, calls⟩
      rw [found] at returned
      cases returned
      rw [← same] at all
      rw [← calls] at calm ⊢
      exact createAll_calm all calm
    · rintro _ _ ⟨returned, _⟩
      cases returned

/-- On a settled path, before any call has failed. -/
theorem createDirectories_calm_settled {path : Bytes} (settled : Settled machine.disk path)
    (calm : host.CalmBefore (machine.calls + (machine.disk.lookedAt path).length)) :
    Ends (createDirectories host path) machine fun result final =>
      (∃ made, result = .ok made) ∧ final.disk = machine.disk ∧
      final.calls = machine.calls + (machine.disk.lookedAt path).length := by
  unfold Disk.lookedAt at calm ⊢
  unfold createDirectories
  refine Ends.ite (fun empty => ?_) fun nonempty => ?_
  · rw [if_pos empty]
    exact ⟨⟨false, rfl⟩, rfl, rfl⟩
  · rw [if_neg nonempty] at calm ⊢
    apply Ends.bind ((climb_calm _ [] calm).and (climb_settled [] settled))
    · rintro found middle ⟨⟨_, same, calls⟩, _, _, returned, shape⟩
      cases returned
      cases found with
      | none => exact ⟨⟨false, rfl⟩, same, calls⟩
      | some missing =>
          rw [shape missing rfl]
          exact ⟨⟨true, rfl⟩, same, calls⟩
    · rintro _ _ ⟨⟨returned, _⟩, _⟩
      cases returned

end Fs

end Basis
