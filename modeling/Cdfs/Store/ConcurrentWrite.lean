import Cdfs.Basis.Bytes
import Cdfs.Basis.Run

/-! # Concurrent writers of one file

Several `write_disk` calls with the same path and data, interleaved step by step. A
temporary name denotes a file, and a call writes through the handle it opened, so two
calls that drew the same suffix share a file; the one that renames second finds no source
and its error path removes the published file. As long as no call opens a temporary file
that another one is still using, a file once written stays
(`Cdfs.Writers.published_of_returned`).
-/

namespace Cdfs

open Basis

/-- A file, whatever names it has. -/
inductive FileId where
  | original
  | leftover (suffix : Nat)
  | created (number : Nat)
  deriving DecidableEq, Repr

/-- The part of the file system the calls share: the file at the final path, the temporary
files by suffix, and the contents. -/
structure SharedFiles where
  full : Option FileId
  temps : Nat → Option FileId
  contents : FileId → Bytes
  next : Nat := 0

namespace SharedFiles

/-- What is at the final path. -/
def published (files : SharedFiles) : Option Bytes := files.full.map files.contents

/-- Open the temporary file for writing: truncate it or create it. -/
def create (files : SharedFiles) (suffix : Nat) : FileId × SharedFiles :=
  match files.temps suffix with
  | some file => (file, { files with contents := Function.update files.contents file [] })
  | none =>
      (.created files.next,
        { files with
          temps := Function.update files.temps suffix (some (.created files.next))
          contents := Function.update files.contents (.created files.next) []
          next := files.next + 1 })

/-- Write from the start of an open file. -/
def write (files : SharedFiles) (file : FileId) (data : Bytes) : SharedFiles :=
  { files with contents :=
      Function.update files.contents file (data ++ (files.contents file).drop data.length) }

/-- Rename the temporary file to the final path; without it the call throws. -/
def rename (files : SharedFiles) (suffix : Nat) : Option SharedFiles :=
  (files.temps suffix).map fun file =>
    { files with full := some file, temps := Function.update files.temps suffix none }

/-- Remove the file at the final path. -/
def remove (files : SharedFiles) : SharedFiles := { files with full := none }

end SharedFiles

/-- Where a `write_disk` call stands, named by its next step. -/
inductive WriteStage where
  | exists_
  | size
  | create
  | write (handle : FileId)
  | close (handle : FileId)
  | rename
  | status
  | finalSize
  | discard
  | reportSize
  | cleanUp
  | returned (result : Bool)
  | thrown
  deriving DecidableEq, Repr

/-- The shared files and where each call stands. -/
structure Writers where
  files : SharedFiles
  stages : Nat → WriteStage

namespace Writers

variable (data : Bytes) (suffixes : Nat → Nat)

/-- All calls at their beginning, with what was at the final path and under temporary
names before. -/
def start (before : Option Bytes) (leftovers : Nat → Option Bytes) : Writers where
  files :=
    { full := before.map fun _ => .original
      temps := fun suffix => (leftovers suffix).map fun _ => .leftover suffix
      contents := fun
        | .original => before.getD []
        | .leftover suffix => (leftovers suffix).getD []
        | .created _ => [] }
  stages := fun _ => .exists_

/-- One step of a call that drew the suffix. A missing file makes `file_size` throw; the
first such call is outside the `try` block. -/
def advance (suffix : Nat) (files : SharedFiles) : WriteStage → WriteStage × SharedFiles
  | .exists_ => (if files.full.isSome then .size else .create, files)
  | .size =>
      match files.published with
      | none => (.thrown, files)
      | some content => (if content.length = data.length then .returned true else .create, files)
  | .create => (.write (files.create suffix).1, (files.create suffix).2)
  | .write handle => (.close handle, files.write handle data)
  | .close _ => (.rename, files)
  | .rename =>
      match files.rename suffix with
      | some renamed => (.status, renamed)
      | none => (.cleanUp, files)
  | .status => (if files.full.isSome then .finalSize else .discard, files)
  | .finalSize =>
      match files.published with
      | none => (.cleanUp, files)
      | some content => (if content.length = data.length then .returned true else .discard, files)
  | .discard => (.reportSize, files.remove)
  | .reportSize => (if files.full.isSome then .returned false else .cleanUp, files)
  | .cleanUp => (.returned false, files.remove)
  | .returned result => (.returned result, files)
  | .thrown => (.thrown, files)

/-- A step of the call with the given number. -/
def step (writers : Writers) (call : Nat) : Writers where
  files := (advance data (suffixes call) writers.files (writers.stages call)).2
  stages := Function.update writers.stages call
    (advance data (suffixes call) writers.files (writers.stages call)).1

/-- The call has opened its temporary file and not yet renamed it. -/
def UsesTemp : WriteStage → Prop
  | .write _ | .close _ | .rename => True
  | _ => False

/-- The step does not open a temporary file that another call is using. -/
def OpensPrivately (writers : Writers) (call : Nat) : Prop :=
  writers.stages call = .create →
    ∀ other, UsesTemp (writers.stages other) → suffixes other ≠ suffixes call

/-- A file already at the final path is not another one of the same length. -/
def NoImpostor (before : Option Bytes) : Prop :=
  ∀ content ∈ before, content.length = data.length → content = data

end Writers

/-- No file has two names, and files still to be created have none. -/
structure SharedFiles.Separate (files : SharedFiles) : Prop where
  temps_injective : ∀ {first second file},
    files.temps first = some file → files.temps second = some file → first = second
  full_ne_temp : ∀ {suffix file}, files.temps suffix = some file → files.full ≠ some file
  full_old : ∀ {number}, files.full = some (.created number) → number < files.next
  temp_old : ∀ {suffix number}, files.temps suffix = some (.created number) → number < files.next

namespace Writers

variable {data : Bytes} {suffixes : Nat → Nat}

/-- What holds of the files when a call is at a stage. A call that wrote has its data
under its temporary name, then at the final path; the stages that remove are not met. -/
def StageOk (data : Bytes) (suffix : Nat) (files : SharedFiles) : WriteStage → Prop
  | .exists_ | .create => True
  | .size => files.full.isSome = true
  | .write handle => files.temps suffix = some handle ∧ files.contents handle = []
  | .close handle => files.temps suffix = some handle ∧ files.contents handle = data
  | .rename => ∃ handle, files.temps suffix = some handle ∧ files.contents handle = data
  | .status | .finalSize | .returned true => files.published = some data
  | .discard | .reportSize | .cleanUp | .returned false | .thrown => False

/-- The invariant of runs in which temporary files are opened privately. -/
structure Invariant (data : Bytes) (suffixes : Nat → Nat) (writers : Writers) : Prop where
  separate : writers.files.Separate
  noImpostor : NoImpostor data writers.files.published
  alone : ∀ {first second}, UsesTemp (writers.stages first) → UsesTemp (writers.stages second) →
    suffixes first = suffixes second → first = second
  stages : ∀ call, StageOk data (suffixes call) writers.files (writers.stages call)

/-- Something is published if and only if the full path has a file. -/
theorem isSome_published (files : SharedFiles) : files.published.isSome = files.full.isSome :=
  Option.isSome_map

/-- The files a call can see of another one's step: the final path keeps its content or
gets the data, and the temporary file of a call that uses one is left alone. -/
structure Undisturbed (data : Bytes) (suffix : Nat) (stage : WriteStage)
    (files changed : SharedFiles) : Prop where
  published : changed.published = files.published ∨ changed.published = some data
  temp : UsesTemp stage → changed.temps suffix = files.temps suffix
  content : UsesTemp stage → ∀ {handle}, files.temps suffix = some handle →
    changed.contents handle = files.contents handle

/-- Nothing is disturbed without a step. -/
theorem Undisturbed.refl (data : Bytes) (suffix : Nat) (stage : WriteStage) (files : SharedFiles) :
    Undisturbed data suffix stage files files where
  published := .inl rfl
  temp := fun _ => rfl
  content := fun _ _ _ => rfl

/-- What holds of a call stays true while it is not disturbed. -/
theorem StageOk.undisturbed {suffix : Nat} {files changed : SharedFiles} {stage : WriteStage}
    (ok : StageOk data suffix files stage)
    (quiet : Undisturbed data suffix stage files changed) :
    StageOk data suffix changed stage := by
  have kept : files.published = some data → changed.published = some data := by
    intro written
    rcases quiet.published with same | now
    · exact same.trans written
    · exact now
  cases stage with
  | exists_ => trivial
  | create => trivial
  | size =>
      change changed.full.isSome = true
      rw [← isSome_published]
      rcases quiet.published with same | now
      · rw [same, isSome_published]
        exact ok
      · rw [now]
        rfl
  | write handle => exact ⟨(quiet.temp trivial).trans ok.1, (quiet.content trivial ok.1).trans ok.2⟩
  | close handle => exact ⟨(quiet.temp trivial).trans ok.1, (quiet.content trivial ok.1).trans ok.2⟩
  | rename =>
      obtain ⟨handle, named, written⟩ := ok
      exact ⟨handle, (quiet.temp trivial).trans named, (quiet.content trivial named).trans written⟩
  | status => exact kept ok
  | finalSize => exact kept ok
  | returned result =>
      cases result with
      | true => exact kept ok
      | false => exact ok
  | discard => exact ok
  | reportSize => exact ok
  | cleanUp => exact ok
  | thrown => exact ok

/-- A step keeps the invariant when it keeps the files separate and the other calls
undisturbed, and when the stage it reaches is as it should be. -/
theorem Invariant.update {writers : Writers} (invariant : Invariant data suffixes writers)
    {call : Nat} {changed : SharedFiles} {stage : WriteStage} (separate : changed.Separate)
    (quiet : ∀ other, other ≠ call →
      Undisturbed data (suffixes other) (writers.stages other) writers.files changed)
    (published : changed.published = writers.files.published ∨ changed.published = some data)
    (alone : UsesTemp stage → ∀ other, other ≠ call → UsesTemp (writers.stages other) →
      suffixes other ≠ suffixes call)
    (ok : StageOk data (suffixes call) changed stage) :
    Invariant data suffixes
      { files := changed, stages := Function.update writers.stages call stage } where
  separate := separate
  noImpostor := by
    rcases published with same | now
    · rw [same]
      exact invariant.noImpostor
    · rw [now]
      rintro content ⟨⟩ _
      rfl
  alone := by
    intro first second firstUses secondUses same
    dsimp only at firstUses secondUses
    by_cases firstHere : first = call
    · subst firstHere
      by_contra different
      rw [Function.update_self] at firstUses
      rw [Function.update_of_ne (Ne.symm different)] at secondUses
      exact alone firstUses second (Ne.symm different) secondUses same.symm
    · rw [Function.update_of_ne firstHere] at firstUses
      by_cases secondHere : second = call
      · subst secondHere
        rw [Function.update_self] at secondUses
        exact absurd same (alone secondUses first firstHere firstUses)
      · rw [Function.update_of_ne secondHere] at secondUses
        exact invariant.alone firstUses secondUses same
  stages := by
    intro other
    dsimp only
    by_cases here : other = call
    · subst here
      rw [Function.update_self]
      exact ok
    · rw [Function.update_of_ne here]
      exact (invariant.stages other).undisturbed (quiet other here)

/-- A step that only moves on. -/
theorem Invariant.move {writers : Writers} (invariant : Invariant data suffixes writers)
    {call : Nat} {stage : WriteStage}
    (uses : UsesTemp stage → UsesTemp (writers.stages call))
    (ok : StageOk data (suffixes call) writers.files stage) :
    Invariant data suffixes
      { files := writers.files, stages := Function.update writers.stages call stage } :=
  invariant.update invariant.separate (fun _ _ => .refl ..) (.inl rfl)
    (fun used _ different otherUses same =>
      different (invariant.alone otherUses (uses used) same)) ok

end Writers

namespace SharedFiles

/-- No name leads to a file that is still to be created. -/
theorem Separate.not_fresh {files : SharedFiles} (separate : files.Separate) :
    files.full ≠ some (.created files.next) ∧
      ∀ suffix, files.temps suffix ≠ some (.created files.next) :=
  ⟨fun found => Nat.lt_irrefl _ (separate.full_old found),
    fun _ found => Nat.lt_irrefl _ (separate.temp_old found)⟩

/-- A new file under a temporary name keeps the files separate. -/
theorem Separate.create_new {files : SharedFiles} (separate : files.Separate) (suffix : Nat)
    (contents : FileId → Bytes) :
    Separate
      { full := files.full,
        temps := Function.update files.temps suffix (some (.created files.next)),
        contents := contents, next := files.next + 1 } where
  temps_injective := by
    intro first second file firstFound secondFound
    dsimp only at firstFound secondFound
    by_cases firstHere : first = suffix
    · by_cases secondHere : second = suffix
      · rw [firstHere, secondHere]
      · rw [firstHere, Function.update_self] at firstFound
        rw [Function.update_of_ne secondHere, ← firstFound] at secondFound
        exact absurd secondFound (separate.not_fresh.2 second)
    · rw [Function.update_of_ne firstHere] at firstFound
      by_cases secondHere : second = suffix
      · rw [secondHere, Function.update_self] at secondFound
        rw [← secondFound] at firstFound
        exact absurd firstFound (separate.not_fresh.2 first)
      · rw [Function.update_of_ne secondHere] at secondFound
        exact separate.temps_injective firstFound secondFound
  full_ne_temp := by
    intro other file found
    dsimp only at found
    by_cases here : other = suffix
    · rw [here, Function.update_self] at found
      rw [← found]
      exact separate.not_fresh.1
    · rw [Function.update_of_ne here] at found
      exact separate.full_ne_temp found
  full_old := fun found => Nat.lt_succ_of_lt (separate.full_old found)
  temp_old := by
    intro other number found
    dsimp only at found
    by_cases here : other = suffix
    · rw [here, Function.update_self] at found
      cases found
      exact Nat.lt_succ_self _
    · rw [Function.update_of_ne here] at found
      exact Nat.lt_succ_of_lt (separate.temp_old found)

/-- Changing a file that is not at the final path does not show there. -/
theorem published_update {files : SharedFiles} {file : FileId} (unpublished : files.full ≠ some file)
    (content : Bytes) :
    files.full.map (Function.update files.contents file content) = files.published := by
  refine Option.map_congr fun other found => Function.update_of_ne ?_ ..
  rintro rfl
  exact unpublished found

/-- Opening a temporary file leaves everything else alone. -/
theorem create_spec {files : SharedFiles} (separate : files.Separate) (suffix : Nat) :
    (files.create suffix).2.Separate ∧
      (files.create suffix).2.temps suffix = some (files.create suffix).1 ∧
      (files.create suffix).2.contents (files.create suffix).1 = [] ∧
      (files.create suffix).2.published = files.published ∧
      ∀ other, other ≠ suffix → (files.create suffix).2.temps other = files.temps other ∧
        ∀ handle, files.temps other = some handle →
          (files.create suffix).2.contents handle = files.contents handle := by
  unfold create
  cases opened : files.temps suffix with
  | some file =>
      refine ⟨⟨separate.temps_injective, separate.full_ne_temp, separate.full_old,
        separate.temp_old⟩, opened, Function.update_self ..,
        published_update (separate.full_ne_temp opened) [], ?_⟩
      intro other different
      refine ⟨rfl, fun handle found => Function.update_of_ne ?_ ..⟩
      rintro rfl
      exact different (separate.temps_injective found opened)
  | none =>
      refine ⟨separate.create_new suffix _, Function.update_self .., Function.update_self ..,
        published_update separate.not_fresh.1 [], ?_⟩
      intro other different
      refine ⟨Function.update_of_ne different .., fun handle found => Function.update_of_ne ?_ ..⟩
      rintro rfl
      exact separate.not_fresh.2 other found

/-- Writing to an empty temporary file leaves everything else alone. -/
theorem write_spec {files : SharedFiles} (separate : files.Separate) {suffix : Nat}
    {file : FileId} (opened : files.temps suffix = some file) (empty : files.contents file = [])
    (data : Bytes) :
    (files.write file data).Separate ∧ (files.write file data).temps suffix = some file ∧
      (files.write file data).contents file = data ∧
      (files.write file data).published = files.published ∧
      ∀ other, other ≠ suffix → (files.write file data).temps other = files.temps other ∧
        ∀ handle, files.temps other = some handle →
          (files.write file data).contents handle = files.contents handle := by
  refine ⟨⟨separate.temps_injective, separate.full_ne_temp, separate.full_old,
    separate.temp_old⟩, opened, ?_, published_update (separate.full_ne_temp opened) _, ?_⟩
  · change Function.update files.contents file _ file = data
    rw [Function.update_self, empty, List.drop_nil, List.append_nil]
  · intro other different
    refine ⟨rfl, fun handle found => Function.update_of_ne ?_ ..⟩
    rintro rfl
    exact different (separate.temps_injective found opened)

/-- Renaming a temporary file publishes its content. -/
theorem rename_spec {files : SharedFiles} (separate : files.Separate) {suffix : Nat}
    {file : FileId} (opened : files.temps suffix = some file) :
    ∃ renamed, files.rename suffix = some renamed ∧ renamed.Separate ∧
      renamed.published = some (files.contents file) ∧
      ∀ other, other ≠ suffix → renamed.temps other = files.temps other ∧
        ∀ handle, files.temps other = some handle →
          renamed.contents handle = files.contents handle := by
  refine ⟨{ files with full := some file, temps := Function.update files.temps suffix none },
    by rw [rename, opened]; rfl, ?_, rfl, fun other different =>
      ⟨Function.update_of_ne different .., fun _ _ => rfl⟩⟩
  have kept {other : Nat} {found : FileId}
      (named : Function.update files.temps suffix none other = some found) :
      other ≠ suffix ∧ files.temps other = some found := by
    by_cases here : other = suffix
    · rw [here, Function.update_self] at named
      cases named
    · rw [Function.update_of_ne here] at named
      exact ⟨here, named⟩
  exact
    { temps_injective := fun first second =>
        separate.temps_injective (kept first).2 (kept second).2
      full_ne_temp := by
        intro other found named same
        cases same
        exact (kept named).1 (separate.temps_injective (kept named).2 opened)
      full_old := by
        intro number same
        cases same
        exact separate.temp_old opened
      temp_old := fun named => separate.temp_old (kept named).2 }

end SharedFiles

namespace Writers

variable {data : Bytes} {suffixes : Nat → Nat}

/-- A change to the temporary file of one call does not disturb calls with another
suffix. -/
theorem undisturbed_of_suffix {files changed : SharedFiles} {suffix : Nat} {stage : WriteStage}
    {changedSuffix : Nat}
    (published : changed.published = files.published ∨ changed.published = some data)
    (elsewhere : ∀ other, other ≠ changedSuffix → changed.temps other = files.temps other ∧
      ∀ handle, files.temps other = some handle → changed.contents handle = files.contents handle)
    (different : UsesTemp stage → suffix ≠ changedSuffix) :
    Undisturbed data suffix stage files changed where
  published := published
  temp := fun uses => (elsewhere suffix (different uses)).1
  content := fun uses handle named => (elsewhere suffix (different uses)).2 handle named

/-- A call that uses its temporary file uses it alone. -/
theorem Invariant.ne_of_uses {writers : Writers} (invariant : Invariant data suffixes writers)
    {call other : Nat} (uses : UsesTemp (writers.stages call)) (different : other ≠ call)
    (otherUses : UsesTemp (writers.stages other)) : suffixes other ≠ suffixes call :=
  fun same => different (invariant.alone otherUses uses same)

/-- Every step that opens its temporary file privately keeps the invariant. -/
theorem Invariant.step {writers : Writers} (invariant : Invariant data suffixes writers)
    {call : Nat} (privately : OpensPrivately suffixes writers call) :
    Invariant data suffixes (writers.step data suffixes call) := by
  have ok := invariant.stages call
  unfold Writers.step
  cases stage : writers.stages call with
  | exists_ =>
      unfold advance
      by_cases there : writers.files.full.isSome = true
      · rw [if_pos there]
        exact invariant.move (fun uses => uses.elim) there
      · rw [if_neg there]
        exact invariant.move (fun uses => uses.elim) trivial
  | size =>
      rw [stage] at ok
      obtain ⟨content, found⟩ := Option.isSome_iff_exists.mp
        ((isSome_published writers.files).trans ok)
      simp only [advance, found]
      by_cases length : content.length = data.length
      · rw [if_pos length]
        refine invariant.move (fun uses => uses.elim) ?_
        rw [← invariant.noImpostor content found length]
        exact found
      · rw [if_neg length]
        exact invariant.move (fun uses => uses.elim) trivial
  | create =>
      obtain ⟨separate, named, empty, published, elsewhere⟩ :=
        SharedFiles.create_spec invariant.separate (suffixes call)
      exact invariant.update separate (fun other _ => undisturbed_of_suffix (.inl published) elsewhere
        (privately stage other)) (.inl published) (fun _ other _ => privately stage other)
        ⟨named, empty⟩
  | write handle =>
      rw [stage] at ok
      have uses : UsesTemp (writers.stages call) := by rw [stage]; trivial
      obtain ⟨separate, named, written, published, elsewhere⟩ :=
        SharedFiles.write_spec invariant.separate ok.1 ok.2 data
      exact invariant.update separate (fun other different =>
        undisturbed_of_suffix (.inl published) elsewhere (invariant.ne_of_uses uses different))
        (.inl published) (fun _ other different => invariant.ne_of_uses uses different)
        ⟨named, written⟩
  | close handle =>
      rw [stage] at ok
      exact invariant.move (fun _ => by rw [stage]; trivial) ⟨handle, ok⟩
  | rename =>
      rw [stage] at ok
      have uses : UsesTemp (writers.stages call) := by rw [stage]; trivial
      obtain ⟨handle, named, written⟩ := ok
      obtain ⟨renamed, done, separate, published, elsewhere⟩ :=
        SharedFiles.rename_spec invariant.separate named
      rw [written] at published
      simp only [advance, done]
      exact invariant.update separate (fun other different =>
        undisturbed_of_suffix (.inr published) elsewhere (invariant.ne_of_uses uses different))
        (.inr published) (fun uses => uses.elim) published
  | status =>
      rw [stage] at ok
      have there : writers.files.full.isSome = true := by
        rw [← isSome_published, show writers.files.published = some data from ok]
        rfl
      simp only [advance, there]
      exact invariant.move (fun uses => uses.elim) ok
  | finalSize =>
      rw [stage] at ok
      simp only [advance, show writers.files.published = some data from ok]
      exact invariant.move (fun uses => uses.elim) ok
  | returned result =>
      rw [stage] at ok
      exact invariant.move (fun uses => uses.elim) ok
  | discard => rw [stage] at ok; exact ok.elim
  | reportSize => rw [stage] at ok; exact ok.elim
  | cleanUp => rw [stage] at ok; exact ok.elim
  | thrown => rw [stage] at ok; exact ok.elim

/-- The invariant holds before the first step. -/
theorem invariant_start {before : Option Bytes} (noImpostor : NoImpostor data before)
    (leftovers : Nat → Option Bytes) : Invariant data suffixes (start before leftovers) where
  separate :=
    { temps_injective := by
        intro first second file firstFound secondFound
        obtain ⟨_, _, rfl⟩ := Option.map_eq_some_iff.mp firstFound
        obtain ⟨_, _, same⟩ := Option.map_eq_some_iff.mp secondFound
        cases same
        rfl
      full_ne_temp := by
        intro suffix file found same
        obtain ⟨_, _, rfl⟩ := Option.map_eq_some_iff.mp found
        obtain ⟨_, _, original⟩ := Option.map_eq_some_iff.mp same
        cases original
      full_old := by
        intro number same
        obtain ⟨_, _, original⟩ := Option.map_eq_some_iff.mp same
        cases original
      temp_old := by
        intro suffix number found
        obtain ⟨_, _, leftover⟩ := Option.map_eq_some_iff.mp found
        cases leftover }
  noImpostor := by
    have same : (start before leftovers).files.published = before := by
      cases before <;> rfl
    rw [same]
    exact noImpostor
  alone := fun uses => uses.elim
  stages := fun _ => trivial

/-- A call that has returned stays so. -/
theorem returned_run {writers : Writers} {call : Nat} {result : Bool}
    (returned : writers.stages call = .returned result) (calls : List Nat) :
    (run (Writers.step data suffixes) writers calls).stages call = .returned result := by
  induction calls generalizing writers with
  | nil => exact returned
  | cons next calls ih =>
      refine ih ?_
      unfold Writers.step
      by_cases here : call = next
      · subst here
        simp only [Function.update_self, returned, advance]
      · simp only [Function.update_of_ne here, returned]

/-- In a run that opens temporary files privately, from the moment a call has returned
true the file is at its path with exactly the data. -/
theorem published_of_returned {before : Option Bytes} (noImpostor : NoImpostor data before)
    (leftovers : Nat → Option Bytes) {calls later : List Nat} {call : Nat}
    (privately : Permitted (Writers.step data suffixes) (OpensPrivately suffixes)
      (start before leftovers) (calls ++ later))
    (returned : (run (Writers.step data suffixes) (start before leftovers) calls).stages call =
      .returned true) :
    (run (Writers.step data suffixes) (start before leftovers) (calls ++ later)).files.published =
      some data := by
  have reached := Reachable.start.run privately
  have invariant := reached.invariant (Invariant data suffixes)
    (invariant_start noImpostor leftovers) fun _ _ kept permitted => kept.step permitted
  have ok := invariant.stages call
  rw [run_append, returned_run returned later, ← run_append] at ok
  exact ok

/-- Calls with different suffixes never meet. -/
theorem permitted_of_injective (distinct : Function.Injective suffixes) (writers : Writers)
    (calls : List Nat) :
    Permitted (Writers.step data suffixes) (OpensPrivately suffixes) writers calls := by
  induction calls generalizing writers with
  | nil => trivial
  | cons call calls ih =>
      refine ⟨?_, ih _⟩
      intro creating other uses same
      rw [distinct same, creating] at uses
      exact uses

/-- Two calls with different suffixes: the second one replaces the file of the first. -/
theorem published_of_different_suffixes :
    (run (Writers.step (bytes "hello") (100000 + ·)) (start none fun _ => none)
      ([0, 1, 0, 1, 0, 0, 0, 0, 0] ++ [1, 1, 1, 1, 1])).files.published = some (bytes "hello") := by
  have returned : (run (Writers.step (bytes "hello") (100000 + ·)) (start none fun _ => none)
      [0, 1, 0, 1, 0, 0, 0, 0, 0]).stages 0 = .returned true := rfl
  exact published_of_returned (by rintro _ ⟨⟩) (fun _ => none)
    (permitted_of_injective (fun _ _ same => Nat.add_left_cancel same) _ _) returned

/-- Two calls that drew the same suffix: the first one has returned true when the second
one fails to rename and removes the file. -/
theorem removed_of_same_suffix :
    (run (Writers.step (bytes "hello") fun _ => 123456) (start none fun _ => none)
        [0, 1, 0, 1, 0, 1, 0, 0, 0, 0]).stages 0 = .returned true ∧
      (run (Writers.step (bytes "hello") fun _ => 123456) (start none fun _ => none)
        ([0, 1, 0, 1, 0, 1, 0, 0, 0, 0] ++ [1, 1, 1])).files.published = none :=
  ⟨rfl, rfl⟩

end Writers

end Cdfs
