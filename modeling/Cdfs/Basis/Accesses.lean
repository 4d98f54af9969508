import Cdfs.Basis.FileSystemRules
import Cdfs.Basis.Within

/-! # What the file system calls access

Every call notes the paths it is made with. `Basis.Fs.Logs` says that a computation
notes paths with a property only, `Basis.Fs.Notes` that it notes a certain one. The
directories that `create_directories` looks at are those above its path up to the first
that exists (`Basis.Disk.lookedAt`).
-/

namespace Basis

open FsPath

/-- What climbing from the components, given in reverse, looks at: each directory up to
the first that exists. -/
def Disk.climbed (disk : Disk) : List Bytes → List Bytes
  | [] => []
  | [] :: above => if above = [] then [[47]] else disk.climbed above
  | name :: above =>
      render (name :: above).reverse ::
        if disk.look (render (name :: above).reverse) = none then disk.climbed above else []

/-- What `create_directories` looks at: the directory itself and those above it, up to the
first that exists. -/
def Disk.lookedAt (disk : Disk) (path : Bytes) : List Bytes :=
  if cString path = [] then [] else disk.climbed (components (cString path)).reverse

/-- A path that leads nowhere later led nowhere before, while directories are only added. -/
theorem Disk.Grown.look_eq_none {before after : Disk} (grown : Grown before after) {path : Bytes}
    (absent : after.look path = none) : before.look path = none := by
  cases found : before.look path with
  | none => rfl
  | some entry =>
      cases entry with
      | dir =>
          rw [grown.keepsDirs.look_dir found] at absent
          cases absent
      | file content =>
          obtain ⟨place, resolved, stored⟩ := Option.bind_eq_some_iff.mp found
          have later := grown.keepsDirs.resolve resolved
          rw [look, later, Option.bind_some, (grown.file_iff place content).mpr stored] at absent
          cases absent

/-- The more paths lead somewhere, the less is looked at. -/
theorem Disk.climbed_subset {before after : Disk}
    (kept : ∀ path, after.look path = none → before.look path = none) (above : List Bytes) :
    after.climbed above ⊆ before.climbed above := by
  induction above with
  | nil => exact List.Subset.refl _
  | cons name above ih =>
      cases name with
      | nil =>
          rw [climbed, climbed]
          split
          · exact List.Subset.refl _
          · exact ih
      | cons byte tail =>
          have deeper {path : Bytes} : (if after.look path = none then after.climbed above else []) ⊆
              if before.look path = none then before.climbed above else [] := by
            split
            · rename_i absent
              rw [if_pos (kept path absent)]
              exact ih
            · exact List.nil_subset _
          rw [climbed, climbed]
          · exact List.cons_subset_cons _ deeper
          · exact List.cons_ne_nil byte tail
          · exact List.cons_ne_nil byte tail

/-- With more on the disk a call looks at fewer parents. -/
theorem Disk.lookedAt_subset {before after : Disk}
    (kept : ∀ path, after.look path = none → before.look path = none) (path : Bytes) :
    after.lookedAt path ⊆ before.lookedAt path := by
  unfold lookedAt
  split
  · exact List.Subset.refl _
  · exact climbed_subset kept _

/-- A path of several components is absolute when the first one is empty. -/
theorem FsPath.isAbsolute_render_cons {first : Bytes} (plain : (47 : UInt8) ∉ first)
    {rest : List Bytes} (more : rest ≠ []) :
    isAbsolute (render (first :: rest)) = decide (first = []) := by
  rw [render_cons first more]
  by_cases empty : first = []
  · rw [empty]
    rfl
  · rw [isAbsolute_append empty, isAbsolute_of_not_mem plain, decide_eq_false empty]

/-- Climbing looks at the directory the components lead to, first of all. -/
theorem Disk.exists_climbed {disk : Disk} {above : List Bytes}
    (plain : ∀ name ∈ above, (47 : UInt8) ∉ name ∧ (0 : UInt8) ∉ name) (some : above ≠ [])
    {cwd start : List Bytes} (absolute : above.getLast some = [] → start = [])
    (relative : above.getLast some ≠ [] → start = cwd) :
    ∃ other ∈ disk.climbed above, location cwd other = above.reverse.foldl enter start := by
  induction above with
  | nil => exact absurd rfl some
  | cons first above ih =>
      cases first with
      | nil =>
          rw [climbed, List.reverse_cons, List.foldl_append]
          by_cases top : above = []
          · subst top
            exact ⟨[47], List.mem_singleton_self _, (absolute rfl).symm⟩
          · rw [if_neg top]
            rw [List.getLast_cons top] at absolute relative
            exact ih (fun name member => plain name (List.mem_cons_of_mem _ member)) top absolute
              relative
      | cons byte tail =>
          refine ⟨render ((byte :: tail) :: above).reverse, ?_, ?_⟩
          · rw [climbed]
            · exact List.mem_cons_self ..
            · exact List.cons_ne_nil byte tail
          · have names : ∀ name ∈ ((byte :: tail) :: above).reverse,
                (47 : UInt8) ∉ name ∧ (0 : UInt8) ∉ name :=
              fun name member => plain name (List.mem_reverse.mp member)
            unfold location
            rw [cString_of_not_mem (not_mem_render (by decide) fun name member =>
              (names name member).2), components_render (List.reverse_ne_nil_iff.mpr some)
              fun name member => (names name member).1]
            congr 1
            by_cases top : above = []
            · subst top
              have slash := (plain _ (List.mem_cons_self ..)).1
              rw [List.reverse_singleton, render, isAbsolute_of_not_mem slash,
                relative (List.cons_ne_nil byte tail)]
              rfl
            · obtain ⟨last, rest, shape⟩ :=
                List.exists_cons_of_ne_nil (List.reverse_ne_nil_iff.mpr top)
              have last_eq : above.getLast top = last := by
                rw [← List.head_reverse (List.reverse_ne_nil_iff.mpr top)]
                simp only [shape, List.head_cons]
              have slash : (47 : UInt8) ∉ last := by
                refine (names last ?_).1
                rw [List.reverse_cons, shape]
                exact List.mem_append_left _ (List.mem_cons_self ..)
              rw [List.getLast_cons top, last_eq] at absolute relative
              rw [List.reverse_cons, shape, List.cons_append, isAbsolute_render_cons slash
                (List.append_ne_nil_of_right_ne_nil _ (List.cons_ne_nil _ _))]
              by_cases empty : last = []
              · rw [decide_eq_true empty, if_pos rfl, absolute empty]
              · rw [decide_eq_false empty, if_neg Bool.false_ne_true, relative empty]

/-- `create_directories` looks at the directory itself, under this path or a shorter one. -/
theorem Disk.exists_lookedAt {disk : Disk} {path : Bytes} (nonempty : cString path ≠ []) :
    ∃ other ∈ disk.lookedAt path, location disk.cwd other = location disk.cwd path := by
  have some : (components (cString path)).reverse ≠ [] :=
    List.reverse_ne_nil_iff.mpr (components_ne_nil _)
  have plain : ∀ name ∈ (components (cString path)).reverse,
      (47 : UInt8) ∉ name ∧ (0 : UInt8) ∉ name := fun name member =>
    Fs.plain_components path name (List.mem_reverse.mp member)
  obtain ⟨first, rest, shape⟩ := List.exists_cons_of_ne_nil (components_ne_nil (cString path))
  have last : (components (cString path)).reverse.getLast some = first := by
    rw [List.getLast_reverse]
    simp only [shape, List.head_cons]
  have start : isAbsolute (cString path) = decide (first = []) := by
    have slash : (47 : UInt8) ∉ first :=
      (Fs.plain_components path first (by rw [shape]; exact List.mem_cons_self ..)).1
    have text := render_components (cString path)
    rw [shape] at text
    by_cases more : rest = []
    · subst more
      rw [render] at text
      rw [← text, isAbsolute_of_not_mem slash, decide_eq_false (text ▸ nonempty)]
    · rw [← text, isAbsolute_render_cons slash more]
  obtain ⟨other, member, here⟩ := @exists_climbed disk _ plain some disk.cwd
    (if isAbsolute (cString path) = true then [] else disk.cwd)
    (fun empty => by rw [start, decide_eq_true (last ▸ empty), if_pos rfl])
    (fun named => by rw [start, decide_eq_false (last ▸ named), if_neg Bool.false_ne_true])
  refine ⟨other, ?_, ?_⟩
  · rw [lookedAt, if_neg nonempty]
    exact member
  · rw [here, List.reverse_reverse]
    rfl

namespace Fs

variable {host : Host} {machine before middle final : Machine} {allowed : Bytes → Prop}
  {path : Bytes}

/-- The log grows by paths that have the property. -/
def Logs (allowed : Bytes → Prop) (before final : Machine) : Prop :=
  ∃ more, final.accesses = before.accesses ++ more ∧ ∀ path ∈ more, allowed path

/-- The log grows by the path, among others. -/
def Notes (path : Bytes) (before final : Machine) : Prop :=
  ∃ more, final.accesses = before.accesses ++ more ∧ path ∈ more

/-- The log grows. -/
abbrev Extends (before final : Machine) : Prop := Logs (fun _ => True) before final

/-- Nothing is noted without a call. -/
theorem Logs.refl (machine : Machine) : Logs allowed machine machine :=
  ⟨[], (List.append_nil _).symm, nofun⟩

/-- What two computations note one after the other. -/
theorem Logs.trans (first : Logs allowed before middle) (second : Logs allowed middle final) :
    Logs allowed before final := by
  obtain ⟨earlier, start, allEarlier⟩ := first
  obtain ⟨later, rest, allLater⟩ := second
  refine ⟨earlier ++ later, ?_, fun path member => ?_⟩
  · rw [rest, start, List.append_assoc]
  · rcases List.mem_append.mp member with inside | inside
    · exact allEarlier path inside
    · exact allLater path inside

/-- The log from the paths behind it. -/
theorem Logs.of_eq {paths : List Bytes} (same : final.accesses = before.accesses ++ paths)
    (all : ∀ path ∈ paths, allowed path) : Logs allowed before final := ⟨paths, same, all⟩

/-- A log that grows by certain paths grows. -/
theorem Logs.extends (logs : Logs allowed before final) : Extends before final :=
  logs.imp fun _ both => ⟨both.1, fun _ _ => trivial⟩

/-- Every path noted has the property. -/
theorem Logs.of_notes (logs : Logs allowed before final) (notes : Notes path before final) :
    allowed path := by
  obtain ⟨more, same, all⟩ := logs
  obtain ⟨others, again, member⟩ := notes
  rw [same] at again
  exact all path (List.append_cancel_left again ▸ member)

/-- A path is noted when it is among those behind the log. -/
theorem Notes.of_eq {paths : List Bytes} (same : final.accesses = before.accesses ++ paths)
    (member : path ∈ paths) : Notes path before final := ⟨paths, same, member⟩

/-- What has been noted is not taken out again. -/
theorem Notes.extend (notes : Notes path before middle) (extends_ : Extends middle final) :
    Notes path before final := by
  obtain ⟨earlier, start, member⟩ := notes
  obtain ⟨later, rest, _⟩ := extends_
  exact ⟨earlier ++ later, by rw [rest, start, List.append_assoc], List.mem_append_left _ member⟩

/-- What is noted later has been noted by the whole. -/
theorem Notes.behind (notes : Notes path middle final) (extends_ : Extends before middle) :
    Notes path before final := by
  obtain ⟨earlier, start, _⟩ := extends_
  obtain ⟨later, rest, member⟩ := notes
  exact ⟨earlier ++ later, by rw [rest, start, List.append_assoc], List.mem_append_right _ member⟩

/-! ## Single calls -/

/-- The computation notes these paths, however it ends. -/
def Accesses {α : Type} (op : FsOp α) (machine : Machine) (paths : List Bytes) : Prop :=
  Ends op machine fun _ final => final.accesses = machine.accesses ++ paths

/-- Every query asks for the status of the path, and notes it once. -/
theorem status_accesses (path : Bytes) : Accesses (status host path) machine [path] := by
  unfold Accesses status
  apply ends_begin
  cases host.fault machine.calls with
  | none => exact rfl
  | fails written noticed => exact rfl

/-- `exists` notes its path. -/
theorem exists_accesses (path : Bytes) : Accesses (exists_ host path) machine [path] :=
  Ends.bind (status_accesses path) (fun _ _ noted => noted) fun _ _ noted => noted

/-- `is_directory` notes its path. -/
theorem isDirectory_accesses (path : Bytes) : Accesses (isDirectory host path) machine [path] :=
  Ends.bind (status_accesses path) (fun _ _ noted => noted) fun _ _ noted => noted

/-- `is_regular_file` notes its path. -/
theorem isRegularFile_accesses (path : Bytes) : Accesses (isRegularFile host path) machine [path] := by
  refine Ends.bind (status_accesses path) (fun entry _ noted => ?_) fun _ _ noted => noted
  split
  · exact noted
  · exact noted

/-- `file_size` notes its path. -/
theorem fileSize_accesses (path : Bytes) : Accesses (fileSize host path) machine [path] := by
  refine Ends.bind (status_accesses path) (fun entry _ noted => ?_) fun _ _ noted => noted
  split
  · exact noted
  · exact noted

/-- Creating one directory notes it. -/
theorem createDirectory_accesses (path : Bytes) :
    Accesses (createDirectory host path) machine [path] := by
  unfold Accesses createDirectory
  apply ends_begin
  cases host.fault machine.calls with
  | fails written noticed => exact rfl
  | none =>
      apply ends_disk
      split
      · exact rfl
      · split
        · exact rfl
        · exact rfl
        · exact rfl

/-- Opening for writing notes the path, also when the open fails. -/
theorem openTruncate_accesses (path : Bytes) : Accesses (openTruncate host path) machine [path] := by
  unfold Accesses openTruncate
  apply ends_begin
  cases host.fault machine.calls with
  | fails written noticed => exact rfl
  | none =>
      apply ends_disk
      split
      · exact rfl
      · exact Ends.ite (fun _ => rfl) fun _ => rfl

/-- A write notes the file it goes to. -/
theorem append_accesses (path data : Bytes) : Accesses (append host path data) machine [path] := by
  unfold Accesses append
  apply ends_begin
  apply ends_disk
  split
  · exact rfl
  · split
    · exact rfl
    · exact rfl
    · exact rfl

/-- Opening for reading notes the path, also when there is nothing to open. -/
theorem openRead_accesses (path : Bytes) : Accesses (openRead host path) machine [path] := by
  unfold Accesses openRead
  apply ends_begin
  cases host.fault machine.calls with
  | fails written noticed => exact rfl
  | none =>
      apply ends_disk
      split
      · exact rfl
      · exact rfl

/-- A rename notes both of its paths. -/
theorem rename_accesses (source target : Bytes) :
    Accesses (rename host source target) machine [source, target] := by
  unfold Accesses rename
  apply ends_begin
  cases host.fault machine.calls with
  | fails written noticed => exact rfl
  | none =>
      apply ends_disk
      split
      · split
        · exact Ends.ite (fun _ => rfl) fun _ => rfl
        · exact rfl
      · exact rfl

/-- `remove` notes its path. -/
theorem remove_accesses (path : Bytes) : Accesses (remove host path) machine [path] := by
  unfold Accesses remove
  apply ends_ask
  apply ends_begin
  refine Ends.ite (fun _ => rfl) fun _ => ?_
  apply ends_disk
  split
  · exact Ends.ite (fun _ => rfl) fun _ => rfl
  · exact Ends.ite (fun _ => rfl) fun _ => rfl

/-- `remove_all` notes the path it is given, not what it finds below. -/
theorem removeAll_accesses (path : Bytes) : Accesses (removeAll host path) machine [path] := by
  unfold Accesses removeAll
  apply ends_ask
  apply ends_ask
  apply ends_begin
  apply ends_disk
  split
  · exact Ends.ite (fun _ => rfl) fun _ => rfl
  · refine Ends.ite (fun _ => rfl) fun _ => ?_
    dsimp only
    split
    · exact rfl
    · cases removable path with
      | true => exact rfl
      | false => exact rfl

/-- Listing a directory notes the directory. -/
theorem list_accesses (path : Bytes) : Accesses (list host path) machine [path] := by
  unfold Accesses list
  apply ends_ask
  apply ends_begin
  cases host.fault machine.calls with
  | fails written noticed => exact rfl
  | none =>
      apply ends_disk
      split
      · exact rfl
      · exact Ends.ite (fun _ => rfl) fun _ => rfl

/-- A call whose paths have the property logs such paths only. -/
theorem Accesses.logs {α : Type} {op : FsOp α} {paths : List Bytes}
    (accesses : Accesses op machine paths) (all : ∀ path ∈ paths, allowed path) :
    Ends op machine fun _ final => Logs allowed machine final :=
  accesses.mono fun _ _ noted => .of_eq noted all

/-- The computation notes only paths with the property, from whatever state it starts. -/
def OnlyLogs {α : Type} (allowed : Bytes → Prop) (op : FsOp α) : Prop :=
  ∀ machine, Ends op machine fun _ final => Logs allowed machine final

namespace OnlyLogs

variable {α β : Type} {op : FsOp α}

/-- A call that notes a list of paths with the property. -/
theorem of_accesses {paths : List Bytes} (accesses : ∀ machine, Accesses op machine paths)
    (all : ∀ path ∈ paths, allowed path) : OnlyLogs allowed op := fun machine =>
  (accesses machine).logs all

/-- A call that notes one path with the property. -/
theorem of_access {path : Bytes} (accesses : ∀ machine, Accesses op machine [path])
    (inside : allowed path) : OnlyLogs allowed op := by
  refine of_accesses accesses fun other member => ?_
  rw [List.mem_singleton.mp member]
  exact inside

/-- A value notes nothing. -/
theorem pure (value : α) : OnlyLogs allowed (Pure.pure value) := fun machine => Logs.refl machine

/-- An exception notes nothing. -/
theorem throw (thrown : Exn) : OnlyLogs allowed (MonadExcept.throw thrown : FsOp α) :=
  fun machine => Logs.refl machine

/-- One computation after the other. -/
theorem bind {next : α → FsOp β} (first : OnlyLogs allowed op)
    (rest : ∀ value, OnlyLogs allowed (next value)) : OnlyLogs allowed (op >>= next) := fun machine =>
  Ends.bind (first machine)
    (fun value middle logs => (rest value middle).mono fun _ _ later => logs.trans later)
    fun _ _ logs => logs

/-- Either branch of a condition. -/
theorem ite {condition : Prop} [Decidable condition] {other : FsOp α}
    (holds : OnlyLogs allowed op) (fails : OnlyLogs allowed other) :
    OnlyLogs allowed (if condition then op else other) := fun machine =>
  Ends.ite (fun _ => holds machine) fun _ => fails machine

/-- A computation and what its `catch` does. -/
theorem tryCatch {handle : Exn → FsOp α} (first : OnlyLogs allowed op)
    (rest : ∀ thrown, OnlyLogs allowed (handle thrown)) :
    OnlyLogs allowed (tryCatch op handle) := fun machine =>
  Ends.tryCatch (first machine) (fun _ _ logs => logs)
    fun thrown middle logs => (rest thrown middle).mono fun _ _ later => logs.trans later

end OnlyLogs

/-! ## Creating directories -/

/-- Climbing looks at the directories above, all of them if no call fails, and gives some
of them to create. -/
theorem climb_accesses (above : List Bytes) (missing : List (List Bytes)) :
    Ends (climb host above missing) machine fun result final => ∃ more,
      final.accesses = machine.accesses ++ more ∧ more ⊆ machine.disk.climbed above ∧
      (host.Reliable → more = machine.disk.climbed above) ∧
      ∀ found names, result = .ok (some found) → names ∈ found →
        names ∈ missing ∨ render names ∈ machine.disk.climbed above := by
  induction above generalizing machine missing with
  | nil =>
      refine ⟨[], (List.append_nil _).symm, List.nil_subset _, fun _ => rfl, ?_⟩
      rintro found names same member
      cases same
      exact .inl member
  | cons first above ih =>
      cases first with
      | nil =>
          rw [climb, Disk.climbed]
          by_cases top : above = []
          · rw [if_pos top, if_pos top]
            apply ends_begin
            cases fault : host.fault machine.calls with
            | none =>
                refine ⟨[[47]], rfl, List.Subset.refl _, fun _ => rfl, ?_⟩
                rintro found names same member
                cases same
                exact .inl member
            | fails written noticed =>
                refine ⟨[[47]], rfl, List.Subset.refl _,
                  fun reliable => (not_fails reliable.fault fault).elim, ?_⟩
                intro found names same
                cases same
          · rw [if_neg top, if_neg top]
            exact ih missing
      | cons byte tail =>
          let here := render ((byte :: tail) :: above).reverse
          have looked : machine.disk.climbed ((byte :: tail) :: above) =
              here :: if machine.disk.look here = none then machine.disk.climbed above else [] := by
            rw [Disk.climbed]
            exact List.cons_ne_nil byte tail
          rw [climb, looked]
          · apply ends_begin
            cases fault : host.fault machine.calls with
            | fails written noticed =>
                refine ⟨[here], rfl, List.cons_subset_cons _ (List.nil_subset _),
                  fun reliable => (not_fails reliable.fault fault).elim, ?_⟩
                intro found names same
                cases same
            | none =>
                apply ends_disk
                have same : (begun machine [here]).disk = machine.disk := rfl
                rw [same]
                -- the climb goes on where nothing is found
                have further (absent : machine.disk.look here = none) (more : List (List Bytes))
                    (named : ∀ names ∈ more, names ∈ missing ∨ render names = here) :
                    Ends (climb host above more) (begun machine [here]) fun result final => ∃ more,
                      final.accesses = machine.accesses ++ more ∧
                      more ⊆ (here :: if machine.disk.look here = none
                        then machine.disk.climbed above else []) ∧
                      (host.Reliable → more = here :: if machine.disk.look here = none
                        then machine.disk.climbed above else []) ∧
                      ∀ found names, result = .ok (some found) → names ∈ found →
                        names ∈ missing ∨ render names ∈ (here :: if machine.disk.look here = none
                          then machine.disk.climbed above else []) := by
                  rw [if_pos absent]
                  refine (ih more).mono ?_
                  rintro result final ⟨seen, noted, subset, complete, created⟩
                  refine ⟨here :: seen, ?_, List.cons_subset_cons _ subset, fun reliable => ?_, ?_⟩
                  · rw [noted]
                    exact List.append_assoc ..
                  · rw [complete reliable, same]
                  · intro found names returned member
                    rcases created found names returned member with old | inside
                    · rcases named names old with old | new
                      · exact .inl old
                      · exact .inr (new ▸ List.mem_cons_self ..)
                    · exact .inr (List.mem_cons_of_mem _ inside)
                cases found : machine.disk.look here with
                | some entry =>
                    rw [if_neg (Option.some_ne_none entry)]
                    cases entry with
                    | dir =>
                        refine ⟨[here], rfl, List.Subset.refl _, fun _ => rfl, ?_⟩
                        rintro found names same member
                        cases same
                        exact .inl member
                    | file content =>
                        refine ⟨[here], rfl, List.Subset.refl _, fun _ => rfl, ?_⟩
                        intro found names same
                        cases same
                | none =>
                    rw [found] at further
                    refine Ends.ite (fun _ => ?_) fun _ => ?_
                    · exact further rfl missing fun names member => .inl member
                    · refine further rfl _ fun names member => ?_
                      rcases List.mem_cons.mp member with rfl | old
                      · exact .inr rfl
                      · exact .inl old
          · exact List.cons_ne_nil byte tail

/-- Creating the missing directories logs them only. -/
theorem createAll_logs {missing : List (List Bytes)}
    (all : ∀ names ∈ missing, allowed (render names)) :
    Ends (createAll host missing) machine fun _ final => Logs allowed machine final := by
  induction missing generalizing machine with
  | nil => exact Logs.refl machine
  | cons names rest ih =>
      rw [createAll]
      have here : ∀ path ∈ [render names], allowed path := by
        simpa using all names (List.mem_cons_self ..)
      apply Ends.bind ((createDirectory_accesses (render names)).logs here)
      · intro created middle logs
        refine Ends.ite (fun _ => ?_) fun _ => logs
        refine (ih fun other member => all other (List.mem_cons_of_mem _ member)).mono ?_
        exact fun _ _ rest => logs.trans rest
      · exact fun _ _ logs => logs

/-- `create_directories` accesses the directories it looks at, all of them if no call
fails. -/
theorem createDirectories_logs (path : Bytes)
    (all : ∀ other ∈ machine.disk.lookedAt path, allowed other) :
    Ends (createDirectories host path) machine fun _ final => Logs allowed machine final ∧
      (host.Reliable → ∀ other ∈ machine.disk.lookedAt path, Notes other machine final) := by
  unfold createDirectories
  unfold Disk.lookedAt at all ⊢
  refine Ends.ite (fun empty => ?_) fun nonempty => ?_
  · rw [if_pos empty]
    exact ⟨Logs.refl machine, nofun⟩
  · rw [if_neg nonempty] at all ⊢
    apply Ends.bind (climb_accesses (components (cString path)).reverse [])
    · rintro found middle ⟨more, noted, subset, complete, created⟩
      have logs : Logs allowed machine middle := .of_eq noted fun other member =>
        all other (subset member)
      have notes (reliable : host.Reliable) (other : Bytes)
          (member : other ∈ machine.disk.climbed (components (cString path)).reverse) :
          Notes other machine middle := .of_eq noted (complete reliable ▸ member)
      cases found with
      | none => exact ⟨logs, notes⟩
      | some missing =>
          have inside : ∀ names ∈ missing, allowed (render names) := by
            intro names member
            rcases created missing names rfl member with none | inside
            · exact absurd none List.not_mem_nil
            · exact all _ inside
          refine (createAll_logs inside).mono fun _ _ rest => ⟨logs.trans rest, ?_⟩
          exact fun reliable other member => (notes reliable other member).extend rest.extends
    · rintro thrown final ⟨more, noted, subset, complete, _⟩
      refine ⟨.of_eq noted fun other member => all other (subset member), ?_⟩
      exact fun reliable other member => .of_eq noted (complete reliable ▸ member)

end Fs

end Basis
