import Cdfs.Basis.DecimalOrder
import Cdfs.Basis.Run
import Cdfs.Store.ShardScan
import Cdfs.Store.WriteDisk

/-! # Uploads of chunks and checks between their steps

Several `handleChunkUpload` calls for one file, interleaved step by step with
`handleCheckChunk` requests. The temporary files stand in the directory that a check
scans, and a scan reads the name of a temporary file as the number of its chunk. So a
check is right exactly when no temporary file stands there
(`Cdfs.ChunkWriters.checksSound_iff`), as long as no call opens a temporary file that
another one is writing and no short write goes unnoticed.
-/

namespace Cdfs

open Basis

/-! ## The directory -/

/-- The chunk directory: the files by name and their contents. A file keeps its content
when it is renamed. -/
structure ChunkFiles where
  entries : OrderedMap Bytes Nat := .empty
  contents : Nat → Bytes := fun _ => []
  next : Nat := 0

namespace ChunkFiles

/-- The content of the file with the name. -/
def look (files : ChunkFiles) (name : Bytes) : Option Bytes :=
  (files.entries.get name).map files.contents

/-- Open a file for writing: truncate it or create it. -/
def create (files : ChunkFiles) (name : Bytes) : Nat × ChunkFiles :=
  match files.entries.get name with
  | some file => (file, { files with contents := Function.update files.contents file [] })
  | none =>
      (files.next,
        { entries := files.entries.put name files.next
          contents := Function.update files.contents files.next []
          next := files.next + 1 })

/-- Write from the start of an open file. -/
def write (files : ChunkFiles) (file : Nat) (data : Bytes) : ChunkFiles :=
  { files with contents :=
      Function.update files.contents file (data ++ (files.contents file).drop data.length) }

/-- Rename a file; without it the call throws. -/
def rename (files : ChunkFiles) (source target : Bytes) : Option ChunkFiles :=
  (files.entries.get source).map fun file =>
    { files with entries := (files.entries.erase source).put target file }

/-- Remove a file. -/
def remove (files : ChunkFiles) (name : Bytes) : ChunkFiles :=
  { files with entries := files.entries.erase name }

/-- The names in the directory. -/
def names (files : ChunkFiles) : List Bytes := files.entries.entries.map Prod.fst

/-- What `get_shard_index` reads off the names. -/
def scan (files : ChunkFiles) : List Int := files.names.filterMap stoi

end ChunkFiles

/-! ## The calls -/

/-- A chunk upload that `handleChunkUpload` accepts, and the suffix it draws. -/
structure ChunkUpload where
  chunk : Nat
  data : Bytes
  suffix : Nat
  data_ne_nil : data ≠ []

/-- The name of the chunk file. -/
def ChunkUpload.name (upload : ChunkUpload) : Bytes := decimal upload.chunk

/-- The name of the temporary file. -/
def ChunkUpload.temporary (upload : ChunkUpload) : Bytes :=
  FileStore.tempPath upload.name upload.suffix

/-- Where a call stands, named by its next step: those of `write_disk`, then the removal
with which `save_file` answers a failure. -/
inductive ChunkStage where
  | exists_
  | size
  | create
  | write (handle : Nat)
  | removeTemp
  | rename
  | status
  | finalSize
  | discard
  | reportSize
  | cleanUp
  | saveRemove
  | returned (result : Bool)
  | thrown
  deriving DecidableEq, Repr

/-- One step of a call, which may fail. A failing query or `rename` throws, which the
first two stages and the removal in the handler let through; a failing write has written
some bytes. -/
def ChunkUpload.advance (upload : ChunkUpload) (fault : Fault) (files : ChunkFiles) :
    ChunkStage → ChunkStage × ChunkFiles
  | .exists_ =>
      match fault with
      | .none => (if (files.look upload.name).isSome then .size else .create, files)
      | .fails _ _ => (.thrown, files)
  | .size =>
      match fault, files.look upload.name with
      | .none, some content =>
          (if content.length = upload.data.length then .returned true else .create, files)
      | _, _ => (.thrown, files)
  | .create =>
      match fault with
      | .none => (.write (files.create upload.temporary).1, (files.create upload.temporary).2)
      | .fails _ _ => (.saveRemove, files)
  | .write handle =>
      match fault with
      | .none => (.rename, files.write handle upload.data)
      | .fails written noticed =>
          (if noticed then .removeTemp else .rename,
            files.write handle (upload.data.take written))
  | .removeTemp =>
      match fault with
      | .none => (.saveRemove, files.remove upload.temporary)
      | .fails _ _ => (.cleanUp, files)
  | .rename =>
      match fault, files.rename upload.temporary upload.name with
      | .none, some renamed => (.status, renamed)
      | _, _ => (.cleanUp, files)
  | .status =>
      match fault with
      | .none => (if (files.look upload.name).isSome then .finalSize else .discard, files)
      | .fails _ _ => (.cleanUp, files)
  | .finalSize =>
      match fault, files.look upload.name with
      | .none, some content =>
          (if content.length = upload.data.length then .returned true else .discard, files)
      | _, _ => (.cleanUp, files)
  | .discard =>
      match fault with
      | .none => (.reportSize, files.remove upload.name)
      | .fails _ _ => (.cleanUp, files)
  | .reportSize =>
      match fault with
      | .none => (if (files.look upload.name).isSome then .saveRemove else .cleanUp, files)
      | .fails _ _ => (.cleanUp, files)
  | .cleanUp =>
      match fault with
      | .none => (.saveRemove, files.remove upload.name)
      | .fails _ _ => (.thrown, files)
  | .saveRemove =>
      match fault with
      | .none => (.returned false, files.remove upload.name)
      | .fails _ _ => (.returned false, files)
  | .returned result => (.returned result, files)
  | .thrown => (.thrown, files)

/-- The chunk directory and where each call stands. -/
structure ChunkWriters where
  files : ChunkFiles := {}
  stages : Nat → ChunkStage := fun _ => .exists_

/-- What happens next: a step of a call, a call that stops where it is, or a check. -/
inductive ChunkEvent where
  | advance (call : Nat) (fault : Fault)
  | stop (call : Nat)
  | check
  deriving DecidableEq, Repr

namespace ChunkWriters

variable (uploads : Nat → ChunkUpload)

/-- One event. A check is answered at one moment and changes nothing. -/
def step (writers : ChunkWriters) : ChunkEvent → ChunkWriters
  | .advance call fault =>
      { files := ((uploads call).advance fault writers.files (writers.stages call)).2
        stages := Function.update writers.stages call
          ((uploads call).advance fault writers.files (writers.stages call)).1 }
  | .stop call => { writers with stages := Function.update writers.stages call .thrown }
  | .check => writers

/-- The call has opened its temporary file and not yet renamed or given it up. -/
def UsesTemp : ChunkStage → Prop
  | .write _ | .rename => True
  | _ => False

/-- No call opens a temporary file that another one is using, and no short write goes
unnoticed. -/
def Orderly (writers : ChunkWriters) : ChunkEvent → Prop
  | .advance call fault =>
      (writers.stages call = .create → fault = .none → ∀ other, UsesTemp (writers.stages other) →
        (uploads other).temporary ≠ (uploads call).temporary) ∧
      ∀ handle written, writers.stages call = .write handle → fault = .fails written false →
        (uploads call).data.length ≤ written
  | .stop _ | .check => True

/-- The chunk file with the number holds all the data of an upload of the chunk. -/
def CompleteChunk (files : ChunkFiles) (index : Int) : Prop :=
  ∃ call, index = (uploads call).chunk ∧
    files.look (decimalInt index) = some (uploads call).data

/-- The answer of a check: no duplicates, and complete chunks only. -/
def SoundAnswer (files : ChunkFiles) (answer : List Int) : Prop :=
  answer.Nodup ∧ ∀ index ∈ answer, CompleteChunk uploads files index

/-- No temporary file that a scan reads as a number stands in the directory. -/
def NoTemporary (files : ChunkFiles) : Prop :=
  ∀ chunk suffix, chunk < 2 ^ 31 → files.look (FileStore.tempPath (decimal chunk) suffix) = none

/-- The events up to a check. -/
def Checked (events before : List ChunkEvent) : Prop := before ++ [.check] <+: events

end ChunkWriters

/-! ## Names -/

/-- The scan reads the number of a chunk, when it fits into an `int`. -/
theorem stoi_name (chunk : Nat) :
    stoi (decimal chunk) = if chunk < 2 ^ 31 then some (chunk : Int) else none := by
  by_cases small : chunk < 2 ^ 31
  · rw [if_pos small, stoi_decimal small]
  · rw [if_neg small, stoi_decimal_of_large (Nat.le_of_not_lt small)]

/-- A temporary file is read as the number of its chunk. -/
theorem stoi_tempPath (chunk suffix : Nat) :
    stoi (FileStore.tempPath (decimal chunk) suffix) = stoi (decimal chunk) := by
  obtain ⟨first, more, text⟩ := List.exists_cons_of_ne_nil (decimal_ne_nil chunk)
  have digit : isDigit first = true :=
    isDigit_of_mem_decimal (text ▸ List.mem_cons_self ..)
  have marker : bytes ".tmp." = 46 :: bytes "tmp." := by decide
  rw [FileStore.tempPath, text, marker, List.cons_append]
  exact stoi_append (plain_of_isDigit digit) more (by decide) _

namespace ChunkUpload

/-- No chunk is published under a temporary name. -/
theorem name_ne_temporary (first second : ChunkUpload) : first.name ≠ second.temporary := by
  intro same
  have dot : (46 : UInt8) ∈ first.name := by
    rw [same]
    refine List.mem_append_right _ (List.mem_append_left _ ?_)
    decide
  exact absurd (isDigit_of_mem_decimal dot) (by decide)

end ChunkUpload

/-! ## What the calls keep -/

/-- No file has two names, and files still to be created have none. -/
structure ChunkFiles.Separate (files : ChunkFiles) : Prop where
  injective : ∀ {first second file}, files.entries.get first = some file →
    files.entries.get second = some file → first = second
  old : ∀ {name file}, files.entries.get name = some file → file < files.next

/-- Every name is that of a chunk or of a temporary file, and chunk files are complete. -/
structure ChunkFiles.Published (uploads : Nat → ChunkUpload) (files : ChunkFiles) : Prop where
  named : ∀ {name file}, files.entries.get name = some file →
    ∃ call, name = (uploads call).name ∨ name = (uploads call).temporary
  complete : ∀ {call file}, files.entries.get (uploads call).name = some file →
    ∃ other, (uploads other).chunk = (uploads call).chunk ∧
      files.contents file = (uploads other).data

namespace ChunkWriters

variable {uploads : Nat → ChunkUpload}

/-- What holds of the files when a call is at a stage. The file it opened has no other
name than that of its temporary file, and once written has its data. -/
def StageOk (upload : ChunkUpload) (files : ChunkFiles) : ChunkStage → Prop
  | .write handle => handle < files.next ∧ files.contents handle = [] ∧
      (∀ name, files.entries.get name = some handle → name = upload.temporary) ∧
      ∀ file, files.entries.get upload.temporary = some file → file = handle
  | .rename => ∀ file, files.entries.get upload.temporary = some file →
      files.contents file = upload.data
  | _ => True

/-- The invariant of orderly runs. -/
structure Invariant (uploads : Nat → ChunkUpload) (writers : ChunkWriters) : Prop where
  separate : writers.files.Separate
  published : writers.files.Published uploads
  alone : ∀ {first second}, UsesTemp (writers.stages first) → UsesTemp (writers.stages second) →
    (uploads first).temporary = (uploads second).temporary → first = second
  handles : ∀ {first second handle}, writers.stages first = .write handle →
    writers.stages second = .write handle → first = second
  stages : ∀ call, StageOk (uploads call) writers.files (writers.stages call)

/-- A call moves on to a stage, having changed the files. -/
theorem Invariant.move {writers : ChunkWriters} (invariant : Invariant uploads writers)
    {call : Nat} {stage : ChunkStage} {changed : ChunkFiles} (separate : changed.Separate)
    (published : changed.Published uploads)
    (alone : UsesTemp stage → ∀ other ≠ call, UsesTemp (writers.stages other) →
      (uploads other).temporary ≠ (uploads call).temporary)
    (handles : ∀ handle, stage = .write handle → ∀ other ≠ call,
      writers.stages other ≠ .write handle)
    (others : ∀ other ≠ call, StageOk (uploads other) changed (writers.stages other))
    (ok : StageOk (uploads call) changed stage) :
    Invariant uploads
      { files := changed, stages := Function.update writers.stages call stage } where
  separate := separate
  published := published
  alone := by
    intro first second firstUses secondUses same
    dsimp only at firstUses secondUses
    by_cases firstHere : first = call
    · by_cases secondHere : second = call
      · rw [firstHere, secondHere]
      · rw [firstHere, Function.update_self] at firstUses
        rw [Function.update_of_ne secondHere] at secondUses
        exact absurd (firstHere ▸ same.symm) (alone firstUses second secondHere secondUses)
    · rw [Function.update_of_ne firstHere] at firstUses
      by_cases secondHere : second = call
      · rw [secondHere, Function.update_self] at secondUses
        exact absurd (secondHere ▸ same) (alone secondUses first firstHere firstUses)
      · rw [Function.update_of_ne secondHere] at secondUses
        exact invariant.alone firstUses secondUses same
  handles := by
    intro first second handle firstWrites secondWrites
    dsimp only at firstWrites secondWrites
    by_cases firstHere : first = call
    · by_cases secondHere : second = call
      · rw [firstHere, secondHere]
      · rw [firstHere, Function.update_self] at firstWrites
        rw [Function.update_of_ne secondHere] at secondWrites
        exact absurd secondWrites (handles handle firstWrites second secondHere)
    · rw [Function.update_of_ne firstHere] at firstWrites
      by_cases secondHere : second = call
      · rw [secondHere, Function.update_self] at secondWrites
        exact absurd firstWrites (handles handle secondWrites first firstHere)
      · rw [Function.update_of_ne secondHere] at secondWrites
        exact invariant.handles firstWrites secondWrites
  stages := by
    intro other
    dsimp only
    by_cases here : other = call
    · rw [here, Function.update_self]
      exact ok
    · rw [Function.update_of_ne here]
      exact others other here

end ChunkWriters

/-! ## Removing -/

namespace ChunkFiles

variable {uploads : Nat → ChunkUpload} {files : ChunkFiles} {name : Bytes}

/-- What is left after a removal was there before. -/
theorem get_of_get_remove {other : Bytes} {file : Nat}
    (found : (files.remove name).entries.get other = some file) :
    files.entries.get other = some file := by
  change (files.entries.erase name).get other = some file at found
  by_cases same : name = other
  · rw [same, OrderedMap.get_erase_self] at found
    cases found
  · rwa [OrderedMap.get_erase_of_ne _ same] at found

/-- Removing a name keeps the names of different files apart. -/
theorem Separate.remove (separate : files.Separate) (name : Bytes) : (files.remove name).Separate where
  injective := fun first second =>
    separate.injective (get_of_get_remove first) (get_of_get_remove second)
  old := fun found => separate.old (get_of_get_remove found)

/-- Removing a name takes nothing away from what the others have published. -/
theorem Published.remove (published : files.Published uploads) (name : Bytes) :
    (files.remove name).Published uploads where
  named := fun found => published.named (get_of_get_remove found)
  complete := fun found => published.complete (get_of_get_remove found)

end ChunkFiles

namespace ChunkWriters

variable {uploads : Nat → ChunkUpload}

/-- Removing a name keeps what holds of a call. -/
theorem StageOk.remove {upload : ChunkUpload} {files : ChunkFiles} {stage : ChunkStage}
    (ok : StageOk upload files stage) (name : Bytes) : StageOk upload (files.remove name) stage := by
  cases stage with
  | write handle =>
      exact ⟨ok.1, ok.2.1, fun other found => ok.2.2.1 other (ChunkFiles.get_of_get_remove found),
        fun file found => ok.2.2.2 file (ChunkFiles.get_of_get_remove found)⟩
  | rename => exact fun file found => ok file (ChunkFiles.get_of_get_remove found)
  | _ => trivial

/-- A call that removes a file, or does not touch the files, and gives up its temporary
file. -/
theorem Invariant.leave {writers : ChunkWriters} (invariant : Invariant uploads writers)
    {call : Nat} {stage : ChunkStage} {changed : ChunkFiles}
    (removed : changed = writers.files ∨ ∃ name, changed = writers.files.remove name)
    (idle : ¬ UsesTemp stage) :
    Invariant uploads
      { files := changed, stages := Function.update writers.stages call stage } := by
  have noWrite (handle : Nat) (writes : stage = .write handle) : False :=
    idle (by rw [writes]; trivial)
  have ok : StageOk (uploads call) changed stage := by
    cases stage with
    | write handle => exact absurd trivial idle
    | rename => exact absurd trivial idle
    | _ => trivial
  rcases removed with rfl | ⟨name, rfl⟩
  · exact invariant.move invariant.separate invariant.published (fun uses => absurd uses idle)
      (fun handle writes => (noWrite handle writes).elim) (fun other _ => invariant.stages other) ok
  · exact invariant.move (invariant.separate.remove name) (invariant.published.remove name)
      (fun uses => absurd uses idle) (fun handle writes => (noWrite handle writes).elim)
      (fun other _ => (invariant.stages other).remove name) ok

end ChunkWriters

/-! ## Opening, writing and renaming -/

namespace ChunkFiles

variable {files : ChunkFiles} {name : Bytes}

/-- What opening a file has done: it is empty, and has this name only. -/
structure Opened (files : ChunkFiles) (name : Bytes) (handle : Nat) (opened : ChunkFiles) : Prop where
  named : opened.entries.get name = some handle
  elsewhere : ∀ other ≠ name, opened.entries.get other = files.entries.get other
  empty : opened.contents handle = []
  contents : ∀ file ≠ handle, opened.contents file = files.contents file
  alone : ∀ other, files.entries.get other = some handle → other = name
  known : handle < opened.next
  grown : files.next ≤ opened.next
  origin : files.entries.get name = some handle ∨ handle = files.next

/-- Opening a name gives an empty file with no other name. -/
theorem Separate.create (separate : files.Separate) (name : Bytes) :
    Opened files name (files.create name).1 (files.create name).2 := by
  unfold ChunkFiles.create
  cases found : files.entries.get name with
  | some file =>
      exact
        { named := found
          elsewhere := fun _ _ => rfl
          empty := Function.update_self ..
          contents := fun other different => Function.update_of_ne different ..
          alone := fun other there => separate.injective there found
          known := separate.old found
          grown := le_rfl
          origin := .inl found }
  | none =>
      exact
        { named := OrderedMap.get_put_self ..
          elsewhere := fun other different => OrderedMap.get_put_of_ne _ _ (Ne.symm different)
          empty := Function.update_self ..
          contents := fun other different => Function.update_of_ne different ..
          alone := fun other there => absurd (separate.old there) (Nat.lt_irrefl _)
          known := Nat.lt_succ_self _
          grown := Nat.le_succ _
          origin := .inr rfl }

/-- After opening one the files still have names of their own. -/
theorem Opened.separate {handle : Nat} {opened : ChunkFiles} (opens : Opened files name handle opened)
    (separate : files.Separate) : opened.Separate := by
  have original {other : Bytes} {file : Nat} (found : opened.entries.get other = some file) :
      other = name ∧ file = handle ∨ other ≠ name ∧ files.entries.get other = some file := by
    by_cases here : other = name
    · rw [here, opens.named] at found
      exact .inl ⟨here, (Option.some.inj found).symm⟩
    · exact .inr ⟨here, (opens.elsewhere other here).symm.trans found⟩
  refine ⟨fun {first second file} firstFound secondFound => ?_, fun {other file} found => ?_⟩
  · rcases original firstFound with ⟨rfl, rfl⟩ | ⟨_, first⟩
    · rcases original secondFound with ⟨rfl, _⟩ | ⟨_, second⟩
      · rfl
      · exact (opens.alone _ second).symm
    · rcases original secondFound with ⟨rfl, rfl⟩ | ⟨_, second⟩
      · exact opens.alone _ first
      · exact separate.injective first second
  · rcases original found with ⟨_, rfl⟩ | ⟨_, there⟩
    · exact opens.known
    · exact Nat.lt_of_lt_of_le (separate.old there) opens.grown

/-- The entries after renaming a file. -/
theorem get_rename {source target : Bytes} {renamed : ChunkFiles}
    (done : files.rename source target = some renamed) :
    ∃ file, files.entries.get source = some file ∧ renamed.contents = files.contents ∧
      renamed.next = files.next ∧ ∀ name found, renamed.entries.get name = some found →
        name = target ∧ found = file ∨
          name ≠ target ∧ name ≠ source ∧ files.entries.get name = some found := by
  obtain ⟨file, there, rfl⟩ := Option.map_eq_some_iff.mp done
  refine ⟨file, there, rfl, rfl, fun name found stored => ?_⟩
  change ((files.entries.erase source).put target file).get name = some found at stored
  by_cases here : target = name
  · rw [here, OrderedMap.get_put_self] at stored
    exact .inl ⟨here.symm, (Option.some.inj stored).symm⟩
  · rw [OrderedMap.get_put_of_ne _ _ here] at stored
    by_cases gone : source = name
    · rw [gone, OrderedMap.get_erase_self] at stored
      cases stored
    · rw [OrderedMap.get_erase_of_ne _ gone] at stored
      exact .inr ⟨Ne.symm here, Ne.symm gone, stored⟩

end ChunkFiles

namespace ChunkWriters

variable {uploads : Nat → ChunkUpload} {writers : ChunkWriters} {call : Nat}

/-- Opening the temporary file, which no other call is using. -/
theorem Invariant.create (invariant : Invariant uploads writers)
    (privately : ∀ other, UsesTemp (writers.stages other) →
      (uploads other).temporary ≠ (uploads call).temporary) :
    Invariant uploads
      { files := (writers.files.create (uploads call).temporary).2
        stages := Function.update writers.stages call
          (.write (writers.files.create (uploads call).temporary).1) } := by
  have opens := invariant.separate.create (uploads call).temporary
  generalize (writers.files.create (uploads call).temporary).1 = handle at *
  generalize (writers.files.create (uploads call).temporary).2 = opened at *
  -- the file is not one that another call is writing
  have apart (other held : Nat) (writes : writers.stages other = .write held) : held ≠ handle := by
    rintro rfl
    have ok := invariant.stages other
    rw [writes] at ok
    rcases opens.origin with named | fresh
    · exact privately other (by rw [writes]; trivial) (ok.2.2.1 _ named).symm
    · exact Nat.lt_irrefl _ (fresh ▸ ok.1)
  refine invariant.move (opens.separate invariant.separate) ⟨fun {name file} found => ?_,
    fun {other file} found => ?_⟩ (fun _ other _ uses => privately other uses) ?_
    (fun other _ => ?_) ?_
  · by_cases here : name = (uploads call).temporary
    · exact ⟨call, .inr here⟩
    · exact invariant.published.named ((opens.elsewhere name here).symm.trans found)
  · have different := ChunkUpload.name_ne_temporary (uploads other) (uploads call)
    rw [opens.elsewhere _ different] at found
    obtain ⟨origin, same, content⟩ := invariant.published.complete found
    refine ⟨origin, same, (opens.contents file ?_).trans content⟩
    rintro rfl
    exact different (opens.alone _ found)
  · intro held same other _ writes
    cases same
    exact apart other handle writes rfl
  · have ok := invariant.stages other
    cases stage : writers.stages other with
    | write held =>
        rw [stage] at ok
        have uses : UsesTemp (writers.stages other) := by rw [stage]; trivial
        refine ⟨Nat.lt_of_lt_of_le ok.1 opens.grown, ?_, fun name found => ?_, fun file found => ?_⟩
        · rw [opens.contents held (apart other held stage)]
          exact ok.2.1
        · by_cases here : name = (uploads call).temporary
          · rw [here, opens.named] at found
            exact absurd (Option.some.inj found).symm (apart other held stage)
          · exact ok.2.2.1 name ((opens.elsewhere name here).symm.trans found)
        · rw [opens.elsewhere _ (privately other uses)] at found
          exact ok.2.2.2 file found
    | rename =>
        rw [stage] at ok
        have uses : UsesTemp (writers.stages other) := by rw [stage]; trivial
        intro file found
        rw [opens.elsewhere _ (privately other uses)] at found
        rw [opens.contents file ?_]
        · exact ok file found
        · rintro rfl
          exact privately other uses (opens.alone _ found)
    | _ => trivial
  · refine ⟨opens.known, opens.empty, fun name found => ?_, fun file found => ?_⟩
    · by_cases here : name = (uploads call).temporary
      · exact here
      · exact opens.alone name ((opens.elsewhere name here).symm.trans found)
    · rw [opens.named] at found
      exact (Option.some.inj found).symm

/-- Writing to the file that the call has opened: all the data, or the call gives up. -/
theorem Invariant.write (invariant : Invariant uploads writers) {handle : Nat}
    (writing : writers.stages call = .write handle) {piece : Bytes} {stage : ChunkStage}
    (next : stage = .rename ∧ piece = (uploads call).data ∨ stage = .removeTemp) :
    Invariant uploads
      { files := writers.files.write handle piece
        stages := Function.update writers.stages call stage } := by
  have own := invariant.stages call
  rw [writing] at own
  have uses : UsesTemp (writers.stages call) := by rw [writing]; trivial
  have kept (file : Nat) (different : file ≠ handle) :
      (writers.files.write handle piece).contents file = writers.files.contents file :=
    Function.update_of_ne different ..
  have written : (writers.files.write handle piece).contents handle = piece := by
    change Function.update writers.files.contents handle _ handle = piece
    rw [Function.update_self, own.2.1, List.drop_nil, List.append_nil]
  refine invariant.move ⟨invariant.separate.injective, invariant.separate.old⟩
    ⟨invariant.published.named, fun {other file} found => ?_⟩ (fun _ other different otherUses same =>
      different (invariant.alone otherUses uses same)) ?_ (fun other different => ?_) ?_
  · obtain ⟨origin, same, content⟩ := invariant.published.complete found
    refine ⟨origin, same, (kept file ?_).trans content⟩
    rintro rfl
    exact ChunkUpload.name_ne_temporary _ _ (own.2.2.1 _ found)
  · rintro held same other _ _
    rcases next with ⟨rfl, _⟩ | rfl
    · cases same
    · cases same
  · have ok := invariant.stages other
    cases otherStage : writers.stages other with
    | write held =>
        rw [otherStage] at ok
        refine ⟨ok.1, ?_, ok.2.2.1, ok.2.2.2⟩
        rw [kept held]
        · exact ok.2.1
        · rintro rfl
          exact different (invariant.handles otherStage writing)
    | rename =>
        rw [otherStage] at ok
        have otherUses : UsesTemp (writers.stages other) := by rw [otherStage]; trivial
        intro file found
        rw [kept file]
        · exact ok file found
        · rintro rfl
          exact different (invariant.alone otherUses uses (own.2.2.1 _ found))
    | _ => trivial
  · rcases next with ⟨rfl, all⟩ | rfl
    · intro file found
      rw [own.2.2.2 file found, written, all]
    · trivial

/-- Renaming the temporary file, which holds all the data. -/
theorem Invariant.rename (invariant : Invariant uploads writers)
    (renames : writers.stages call = .rename) {renamed : ChunkFiles}
    (done : writers.files.rename (uploads call).temporary (uploads call).name = some renamed) :
    Invariant uploads
      { files := renamed, stages := Function.update writers.stages call .status } := by
  obtain ⟨file, there, contents, next, names⟩ := ChunkFiles.get_rename done
  have own := invariant.stages call
  rw [renames] at own
  have uses : UsesTemp (writers.stages call) := by rw [renames]; trivial
  have fromTemporary {other : Nat} {found : Nat} (stored : renamed.entries.get
      (uploads other).temporary = some found) :
      writers.files.entries.get (uploads other).temporary = some found := by
    rcases names _ _ stored with ⟨same, _⟩ | ⟨_, _, old⟩
    · exact absurd same.symm (ChunkUpload.name_ne_temporary _ _)
    · exact old
  refine invariant.move ⟨fun {first second found} firstFound secondFound => ?_,
    fun {name found} stored => ?_⟩ ⟨fun {name found} stored => ?_, fun {other found} stored => ?_⟩
    (fun uses => uses.elim) (fun handle writes => ?_) (fun other different => ?_) trivial
  · rcases names _ _ firstFound with ⟨rfl, rfl⟩ | ⟨_, firstElse, first⟩
    · rcases names _ _ secondFound with ⟨rfl, _⟩ | ⟨_, secondElse, second⟩
      · rfl
      · exact absurd (invariant.separate.injective second there) secondElse
    · rcases names _ _ secondFound with ⟨rfl, rfl⟩ | ⟨_, _, second⟩
      · exact absurd (invariant.separate.injective first there) firstElse
      · exact invariant.separate.injective first second
  · rw [next]
    rcases names _ _ stored with ⟨_, rfl⟩ | ⟨_, _, old⟩
    · exact invariant.separate.old there
    · exact invariant.separate.old old
  · rcases names _ _ stored with ⟨same, _⟩ | ⟨_, _, old⟩
    · exact ⟨call, .inl same⟩
    · exact invariant.published.named old
  · rw [contents]
    rcases names _ _ stored with ⟨same, rfl⟩ | ⟨_, _, old⟩
    · exact ⟨call, (decimal_injective same).symm, own found there⟩
    · exact invariant.published.complete old
  · cases writes
  · have ok := invariant.stages other
    cases stage : writers.stages other with
    | write handle =>
        rw [stage] at ok
        have otherUses : UsesTemp (writers.stages other) := by rw [stage]; trivial
        refine ⟨next ▸ ok.1, contents ▸ ok.2.1, fun name stored => ?_, fun found stored =>
          ok.2.2.2 found (fromTemporary stored)⟩
        rcases names _ _ stored with ⟨_, rfl⟩ | ⟨_, _, old⟩
        · exact absurd (invariant.alone otherUses uses (ok.2.2.1 _ there).symm) different
        · exact ok.2.2.1 name old
    | rename =>
        rw [stage] at ok
        intro found stored
        rw [contents]
        exact ok found (fromTemporary stored)
    | _ => trivial

/-- A step that removes a file at most and after which the call uses no temporary file. -/
def Leaves (files : ChunkFiles) (result : ChunkStage × ChunkFiles) : Prop :=
  (result.2 = files ∨ ∃ name, result.2 = files.remove name) ∧ ¬ UsesTemp result.1

theorem leaves_same {files : ChunkFiles} {stage : ChunkStage} (idle : ¬ UsesTemp stage) :
    Leaves files (stage, files) := ⟨.inl rfl, idle⟩

theorem leaves_remove {files : ChunkFiles} {stage : ChunkStage} (idle : ¬ UsesTemp stage)
    (name : Bytes) : Leaves files (stage, files.remove name) := ⟨.inr ⟨name, rfl⟩, idle⟩

/-- Neither branch uses a temporary file. -/
theorem not_usesTemp_ite {condition : Prop} [Decidable condition] {first second : ChunkStage}
    (idle : ¬ UsesTemp first) (other : ¬ UsesTemp second) :
    ¬ UsesTemp (if condition then first else second) := by
  split
  · exact idle
  · exact other

/-- The steps that neither open nor write nor rename a temporary file. -/
theorem leaves_advance (upload : ChunkUpload) (fault : Fault) (files : ChunkFiles) {stage : ChunkStage}
    (creates : stage ≠ .create) (uses : ¬ UsesTemp stage) :
    Leaves files (upload.advance fault files stage) := by
  cases stage with
  | create => exact absurd rfl creates
  | write handle => exact absurd trivial uses
  | rename => exact absurd trivial uses
  | exists_ =>
      cases fault with
      | none => exact leaves_same (not_usesTemp_ite id id)
      | fails written noticed => exact leaves_same id
  | size =>
      cases fault with
      | none =>
          cases found : files.look upload.name with
          | none =>
              simp only [ChunkUpload.advance, found]
              exact leaves_same id
          | some content =>
              simp only [ChunkUpload.advance, found]
              exact leaves_same (not_usesTemp_ite id id)
      | fails written noticed => exact leaves_same id
  | removeTemp =>
      cases fault with
      | none => exact leaves_remove id _
      | fails written noticed => exact leaves_same id
  | status =>
      cases fault with
      | none => exact leaves_same (not_usesTemp_ite id id)
      | fails written noticed => exact leaves_same id
  | finalSize =>
      cases fault with
      | none =>
          cases found : files.look upload.name with
          | none =>
              simp only [ChunkUpload.advance, found]
              exact leaves_same id
          | some content =>
              simp only [ChunkUpload.advance, found]
              exact leaves_same (not_usesTemp_ite id id)
      | fails written noticed => exact leaves_same id
  | discard =>
      cases fault with
      | none => exact leaves_remove id _
      | fails written noticed => exact leaves_same id
  | reportSize =>
      cases fault with
      | none => exact leaves_same (not_usesTemp_ite id id)
      | fails written noticed => exact leaves_same id
  | cleanUp =>
      cases fault with
      | none => exact leaves_remove id _
      | fails written noticed => exact leaves_same id
  | saveRemove =>
      cases fault with
      | none => exact leaves_remove id _
      | fails written noticed => exact leaves_same id
  | returned result => exact leaves_same id
  | thrown => exact leaves_same id

/-- Every orderly event keeps the invariant. -/
theorem Invariant.step (invariant : Invariant uploads writers) {event : ChunkEvent}
    (orderly : Orderly uploads writers event) : Invariant uploads (writers.step uploads event) := by
  cases event with
  | check => exact invariant
  | stop call => exact invariant.leave (.inl rfl) id
  | advance call fault =>
      have moved {result : ChunkStage × ChunkFiles}
          (advanced : (uploads call).advance fault writers.files (writers.stages call) = result)
          (kept : Invariant uploads
            { files := result.2, stages := Function.update writers.stages call result.1 }) :
          Invariant uploads (writers.step uploads (.advance call fault)) := by
        rw [← advanced] at kept
        exact kept
      cases stage : writers.stages call with
      | create =>
          cases fault with
          | none => exact moved (by rw [stage]) (invariant.create (orderly.1 stage rfl))
          | fails written noticed => exact moved (by rw [stage]) (invariant.leave (.inl rfl) id)
      | write handle =>
          cases fault with
          | none => exact moved (by rw [stage]) (invariant.write stage (.inl ⟨rfl, rfl⟩))
          | fails written noticed =>
              cases noticed with
              | true => exact moved (by rw [stage]) (invariant.write stage (.inr rfl))
              | false =>
                  have all := List.take_of_length_le (orderly.2 handle written stage rfl)
                  exact moved (by rw [stage]) (invariant.write stage (.inl ⟨rfl, all⟩))
      | rename =>
          cases fault with
          | none =>
              cases done : writers.files.rename (uploads call).temporary (uploads call).name with
              | none =>
                  refine @moved (.cleanUp, writers.files) ?_ (invariant.leave (.inl rfl) id)
                  rw [stage]
                  simp only [ChunkUpload.advance, done]
              | some renamed =>
                  refine @moved (.status, renamed) ?_ (invariant.rename stage done)
                  rw [stage]
                  simp only [ChunkUpload.advance, done]
          | fails written noticed => exact moved (by rw [stage]) (invariant.leave (.inl rfl) id)
      | _ =>
          have leaves : Leaves writers.files
              ((uploads call).advance fault writers.files (writers.stages call)) := by
            refine leaves_advance (uploads call) fault writers.files ?_ ?_
            · rw [stage]
              exact fun same => by cases same
            · rw [stage]
              exact id
          exact invariant.leave leaves.1 leaves.2

/-- Before the first event there is no file. -/
theorem invariant_start : Invariant uploads {} where
  separate := ⟨fun found => (by cases found), fun found => (by cases found)⟩
  published := ⟨fun found => (by cases found), fun found => (by cases found)⟩
  alone := fun uses => uses.elim
  handles := fun writes => (by cases writes)
  stages := fun _ => trivial

/-- The invariant holds behind every orderly run. -/
theorem invariant_run {events : List ChunkEvent}
    (orderly : Permitted (step uploads) (Orderly uploads) {} events) :
    Invariant uploads (run (step uploads) {} events) :=
  (Reachable.start.run orderly).invariant (Invariant uploads) invariant_start
    fun _ _ kept permitted => kept.step permitted

end ChunkWriters

/-! ## Scans -/

namespace ChunkFiles

variable {files : ChunkFiles}

/-- A name is listed if and only if a file has it. -/
theorem mem_names_iff {name : Bytes} : name ∈ files.names ↔ files.look name ≠ none := by
  rw [look, ne_eq, Option.map_eq_none_iff, ← ne_eq, Option.ne_none_iff_exists', names, List.mem_map]
  constructor
  · rintro ⟨⟨_, file⟩, member, rfl⟩
    exact ⟨file, OrderedMap.mem_entries_iff.mp member⟩
  · rintro ⟨file, found⟩
    exact ⟨(name, file), OrderedMap.mem_entries_iff.mpr found, rfl⟩

theorem nodup_names (files : ChunkFiles) : files.names.Nodup :=
  files.entries.sorted.imp fun below => below.ne

/-- Two names that a scan reads as the same number make a duplicate. -/
theorem eq_of_nodup_scan (distinct : files.scan.Nodup) {first second : Bytes} {number : Int}
    (firstThere : first ∈ files.names) (secondThere : second ∈ files.names)
    (firstRead : stoi first = some number) (secondRead : stoi second = some number) :
    first = second := by
  by_contra different
  have symmetric : Std.Symm fun one other : Bytes =>
      ∀ read, stoi one = some read → ∀ again, stoi other = some again → read ≠ again :=
    ⟨fun _ _ separate read found again other => Ne.symm (separate again other read found)⟩
  have apart := (List.pairwise_filterMap.mp distinct).forall firstThere secondThere different
  exact apart number firstRead number secondRead rfl

end ChunkFiles

namespace ChunkWriters

variable {uploads : Nat → ChunkUpload}

/-- The answers of a check at a moment: the scan in the order in which the directory is
read. -/
def Answers (files : ChunkFiles) (answer : List Int) : Prop := answer.Perm files.scan

/-- Without temporary files every number of the scan is that of a complete chunk. -/
theorem soundAnswer_of_noTemporary {files : ChunkFiles} (published : files.Published uploads)
    (quiet : NoTemporary files) {answer : List Int} (answers : Answers files answer) :
    SoundAnswer uploads files answer := by
  have read {name : Bytes} {number : Int} (listed : name ∈ files.names)
      (reads : stoi name = some number) :
      name = decimalInt number ∧ ∃ call, number = (uploads call).chunk := by
    have found := ChunkFiles.mem_names_iff.mp listed
    obtain ⟨file, stored⟩ : ∃ file, files.entries.get name = some file := by
      rwa [ChunkFiles.look, ne_eq, Option.map_eq_none_iff, ← ne_eq, Option.ne_none_iff_exists']
        at found
    obtain ⟨call, rfl | rfl⟩ := published.named stored
    · rw [ChunkUpload.name, stoi_name] at reads
      split at reads
      · cases reads
        exact ⟨rfl, call, rfl⟩
      · cases reads
    · rw [ChunkUpload.temporary, ChunkUpload.name, stoi_tempPath, stoi_name] at reads
      split at reads
      · rename_i small
        exact absurd (quiet _ _ small) found
      · cases reads
  refine ⟨answers.nodup_iff.mpr ?_, fun index member => ?_⟩
  · refine List.pairwise_filterMap.mpr ((files.nodup_names).imp_of_mem ?_)
    rintro first second firstListed secondListed different number firstRead _ secondRead rfl
    exact different ((read firstListed firstRead).1.trans (read secondListed secondRead).1.symm)
  · obtain ⟨name, listed, reads⟩ := List.mem_filterMap.mp (answers.subset member)
    obtain ⟨text, call, rfl⟩ := read listed reads
    obtain ⟨content, found⟩ := Option.ne_none_iff_exists'.mp (ChunkFiles.mem_names_iff.mp listed)
    obtain ⟨file, stored, rfl⟩ := Option.map_eq_some_iff.mp found
    rw [text] at stored
    obtain ⟨other, chunk, content⟩ :=
      @ChunkFiles.Published.complete uploads files published call file stored
    refine ⟨other, by rw [chunk], ?_⟩
    rw [ChunkFiles.look, stored, Option.map_some, content]

/-- A temporary file makes an answer wrong: its number is given though the chunk is not
there, or given twice. -/
theorem noTemporary_of_soundAnswer {files : ChunkFiles}
    (sound : ∀ answer, Answers files answer → SoundAnswer uploads files answer) :
    NoTemporary files := by
  intro chunk suffix small
  by_contra there
  obtain ⟨distinct, complete⟩ := sound files.scan (List.Perm.refl _)
  have temporary := ChunkFiles.mem_names_iff.mpr there
  have reads : stoi (FileStore.tempPath (decimal chunk) suffix) = some (chunk : Int) := by
    rw [stoi_tempPath, stoi_decimal small]
  obtain ⟨_, _, found⟩ := complete chunk (List.mem_filterMap.mpr ⟨_, temporary, reads⟩)
  have final : decimal chunk ∈ files.names :=
    ChunkFiles.mem_names_iff.mpr (by
      rw [show decimal chunk = decimalInt chunk from rfl, found]
      exact Option.some_ne_none _)
  have same := ChunkFiles.eq_of_nodup_scan distinct final temporary (stoi_decimal small) reads
  have lengths := congrArg List.length same
  rw [FileStore.tempPath, List.length_append, List.length_append,
    show (bytes ".tmp.").length = 5 from by decide] at lengths
  omega

/-- In an orderly run every answer of a check is sound if and only if no temporary file
that reads as a number stands in the directory at any check. -/
theorem checksSound_iff (uploads : Nat → ChunkUpload) (events : List ChunkEvent)
    (orderly : Permitted (step uploads) (Orderly uploads) {} events) :
    (∀ before, Checked events before →
      ∀ answer, Answers (run (step uploads) {} before).files answer →
        SoundAnswer uploads (run (step uploads) {} before).files answer) ↔
    ∀ before, Checked events before → NoTemporary (run (step uploads) {} before).files := by
  constructor
  · exact fun sound before checked => noTemporary_of_soundAnswer (sound before checked)
  · intro quiet before checked answer answers
    obtain ⟨later, rfl⟩ := checked
    have published := (invariant_run orderly.of_append.of_append).published
    exact soundAnswer_of_noTemporary published (quiet before ⟨later, rfl⟩) answers

/-- The directory of the tree has just these files. -/
structure Shows (files : ChunkFiles) (disk : Disk) (directory : Bytes) : Prop where
  isDir : disk.look directory = some .dir
  entries : ∀ name, disk.node (FsPath.location disk.cwd directory ++ [name]) =
    (files.look name).map .file

/-- What is listed has names as a directory holds them. -/
theorem isName_of_published {files : ChunkFiles} (published : files.Published uploads) {name : Bytes}
    (listed : name ∈ files.names) : FsPath.IsName name := by
  have chunk (call : Nat) : FsPath.IsName (uploads call).name :=
    isName_of_hex (decimal_ne_nil _) fun byte member => by
      have digit : isDigit byte = true := isDigit_of_mem_decimal member
      have all : ∀ byte : UInt8, isDigit byte = true → isHexDigit byte = true :=
        forall_byte (by decide +kernel)
      exact all byte digit
  obtain ⟨content, found⟩ := Option.ne_none_iff_exists'.mp (ChunkFiles.mem_names_iff.mp listed)
  obtain ⟨file, stored, _⟩ := Option.map_eq_some_iff.mp found
  obtain ⟨call, rfl | rfl⟩ := published.named stored
  · exact chunk call
  · exact FileStore.isName_append_temp (chunk call).2.2.2.1 (chunk call).2.2.2.2 _

/-- What `get_shard_index` returns on a tree with these files is an answer. -/
theorem answers_getShardIndex {files : ChunkFiles} (published : files.Published uploads)
    {host : Host} {machine : Machine} {directory : Bytes} (nonempty : directory ≠ [])
    (plain : (0 : UInt8) ∉ directory) (shows : Shows files machine.disk directory) {answer : List Int}
    (returned : outcome (FileStore.getShardIndex host directory) machine = .ok answer) :
    Answers files answer := by
  have listed (name : Bytes) : name ∈ machine.disk.names
      (FsPath.location machine.disk.cwd directory) ↔ name ∈ files.names := by
    rw [Disk.mem_names_iff, ChunkFiles.mem_names_iff, ← Option.ne_none_iff_exists', shows.entries,
      ne_eq, Option.map_eq_none_iff]
  have names : (machine.disk.names (FsPath.location machine.disk.cwd directory)).Perm files.names :=
    (List.perm_ext_iff_of_nodup (Disk.nodup_names ..) files.nodup_names).mpr listed
  refine (FileStore.scan_perm returned).trans ?_
  rw [FileStore.scanned, if_pos shows.isDir]
  refine List.Perm.trans (List.Perm.of_eq (List.filterMap_congr fun name member => ?_))
    (names.filterMap stoi)
  have valid := isName_of_published published ((listed name).mp member)
  obtain ⟨content, found⟩ :=
    Option.ne_none_iff_exists'.mp (ChunkFiles.mem_names_iff.mp ((listed name).mp member))
  rw [FileStore.numbered, FileStore.look_join_name nonempty plain shows.isDir valid,
    shows.entries, found]
  rfl

/-- Names of temporary files have a dot. -/
theorem noTemporary_of_names {files : ChunkFiles}
    (plain : ∀ name ∈ files.names, (46 : UInt8) ∉ name) : NoTemporary files := by
  intro chunk suffix _
  by_contra there
  refine plain _ (ChunkFiles.mem_names_iff.mpr there)
    (List.mem_append_right _ (List.mem_append_left _ ?_))
  decide

/-- A call that nothing fails for and no other call is under way is orderly. -/
theorem orderly_alone (call : Nat) (count : Nat) {writers : ChunkWriters}
    (others : ∀ other ≠ call, ¬ UsesTemp (writers.stages other)) :
    Permitted (step uploads) (Orderly uploads) writers
      (List.replicate count (.advance call .none) ++ [.check]) := by
  induction count generalizing writers with
  | zero => exact ⟨trivial, trivial⟩
  | succ count ih =>
      refine ⟨⟨fun creates _ other uses => ?_, fun _ _ _ failed => by cases failed⟩, ih ?_⟩
      · by_cases here : other = call
        · rw [here, creates] at uses
          exact uses.elim
        · exact absurd uses (others other here)
      · intro other different
        change ¬ UsesTemp (Function.update writers.stages call _ other)
        rw [Function.update_of_ne different]
        exact others other different

/-- Uploads of `hello` as chunk 0. -/
def helloUploads (_ : Nat) : ChunkUpload where
  chunk := 0
  data := bytes "hello"
  suffix := 123456
  data_ne_nil := by decide

/-- A check behind a whole upload. -/
theorem checksSound_helloUploads : SoundAnswer helloUploads
    (run (step helloUploads) {} (List.replicate 6 (.advance 0 .none))).files [0] := by
  have scan : (run (step helloUploads) {} (List.replicate 6 (.advance 0 .none))).files.scan = [0] := by
    decide +kernel
  have last : Checked (List.replicate 6 (.advance 0 .none) ++ [.check])
      (List.replicate 6 (.advance 0 .none)) := List.prefix_rfl
  refine (checksSound_iff helloUploads _ (orderly_alone 0 6 fun _ _ => id)).mpr ?_ _ last [0]
    (List.Perm.of_eq scan.symm)
  intro before checked
  have noCheck : ChunkEvent.check ∉ List.replicate 6 (ChunkEvent.advance 0 .none) := by decide
  rcases List.prefix_concat_iff.mp checked with whole | early
  · rw [List.append_cancel_right whole]
    exact noTemporary_of_names (by decide +kernel)
  · exact absurd (early.subset (List.mem_append_right _ (List.mem_singleton_self _))) noCheck

/-- A check between opening the temporary file and writing it: chunk 0 is given though there
is no such file. -/
theorem not_soundAnswer_helloUploads :
    Answers (run (step helloUploads) {} [.advance 0 .none, .advance 0 .none]).files [0] ∧
      ¬ SoundAnswer helloUploads
        (run (step helloUploads) {} [.advance 0 .none, .advance 0 .none]).files [0] := by
  have scan : (run (step helloUploads) {} [.advance 0 .none, .advance 0 .none]).files.scan = [0] := by
    decide +kernel
  have missing : (run (step helloUploads) {} [.advance 0 .none, .advance 0 .none]).files.look
      (decimalInt 0) = none := by decide +kernel
  refine ⟨List.Perm.of_eq scan.symm, fun sound => ?_⟩
  obtain ⟨_, _, found⟩ := sound.2 0 (List.mem_singleton_self _)
  rw [missing] at found
  cases found

end ChunkWriters

end Cdfs
