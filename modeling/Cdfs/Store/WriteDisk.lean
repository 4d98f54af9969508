import Cdfs.Basis.FileSystemRules
import Cdfs.Store.FileStore

/-! # What writing a file does

Which entries of the tree `write_disk` can touch and what stands at the target
afterwards (`Cdfs.FileStore.writeDisk_ends`), whatever call to the file system fails, as
long as removing does not.
-/

namespace Cdfs

open Basis FsPath

namespace FileStore

/-! ## Temporary names -/

/-- A temporary name is a name. -/
theorem isName_append_temp {name : Bytes} (noSlash : (47 : UInt8) ∉ name) (noZero : (0 : UInt8) ∉ name)
    (number : Nat) : IsName (name ++ (bytes ".tmp." ++ decimal number)) := by
  have marker : bytes ".tmp." = [46, 116, 109, 112, 46] := by decide
  have digits (other : UInt8) (notDigit : isDigit other = false) : other ∉ decimal number :=
    fun member => by
      rw [isDigit_of_mem_decimal member] at notDigit
      cases notDigit
  have long : 4 < (name ++ (bytes ".tmp." ++ decimal number)).length := by
    rw [List.length_append, List.length_append, marker]
    change 4 < name.length + (5 + (decimal number).length)
    omega
  refine ⟨?_, ?_, ?_, ?_, ?_⟩
  · exact fun same => absurd (same ▸ long) (by decide)
  · exact fun same => absurd (same ▸ long) (by decide)
  · exact fun same => absurd (same ▸ long) (by decide)
  · simp only [List.mem_append, not_or]
    exact ⟨noSlash, by rw [marker]; decide, digits 47 (by decide)⟩
  · simp only [List.mem_append, not_or]
    exact ⟨noZero, by rw [marker]; decide, digits 0 (by decide)⟩

/-- The temporary file stands beside the target, under a longer name. -/
theorem exists_location_tempPath {fullPath : Bytes} (plain : (0 : UInt8) ∉ fullPath) (number : Nat)
    (cwd : List Bytes) :
    ∃ above, location cwd fullPath = enter above (filename fullPath) ∧
      location cwd (tempPath fullPath number) =
        above ++ [filename fullPath ++ (bytes ".tmp." ++ decimal number)] :=
  exists_location_append plain (fun _ noSlash noZero => isName_append_temp noSlash noZero number) cwd

/-- The temporary file is another entry than the target, or the two paths are the same
to the system. -/
theorem cString_tempPath_or (fullPath : Bytes) (number : Nat) (cwd : List Bytes) :
    cString (tempPath fullPath number) = cString fullPath ∨
      location cwd (tempPath fullPath number) ≠ location cwd fullPath := by
  by_cases zero : (0 : UInt8) ∈ fullPath
  · exact .inl (cString_append_of_mem zero _)
  · obtain ⟨above, target, temporary⟩ := exists_location_tempPath zero number cwd
    right
    rw [target, temporary]
    unfold enter
    split
    · intro same
      have lengths := congrArg List.length same
      rw [List.length_append, List.length_singleton] at lengths
      omega
    · split
      · intro same
        have lengths := congrArg List.length same
        rw [List.length_append, List.length_singleton, List.length_dropLast] at lengths
        omega
      · intro same
        have names := List.cons.inj (List.append_cancel_left same)
        have lengths := congrArg List.length names.1
        rw [List.length_append, List.length_append,
          show (bytes ".tmp.").length = 5 from by decide] at lengths
        omega

/-- The suffix has no zero byte, so that a temporary path is cut where the path is. -/
theorem cString_append_temp {last : Bytes} (plain : (0 : UInt8) ∉ last) (number : Nat) :
    cString (last ++ (bytes ".tmp." ++ decimal number)) = last ++ (bytes ".tmp." ++ decimal number) := by
  refine cString_of_not_mem fun zero => ?_
  rcases List.mem_append.mp zero with inside | behind
  · exact plain inside
  · exact (isName_append_temp List.not_mem_nil List.not_mem_nil number).2.2.2.2 behind

/-- The temporary file of a path made of names below a directory. -/
theorem location_tempPath_join_render {root last : Bytes} {names : List Bytes}
    (valid : ∀ name ∈ names, IsName name) (some : names ≠ []) (nonempty : root ≠ [])
    (plain : (0 : UInt8) ∉ root) (plainLast : (47 : UInt8) ∉ last) (validLast : IsName (cString last))
    (number : Nat) (cwd : List Bytes) :
    location cwd (tempPath (join root (render names ++ 47 :: last)) number) =
      location cwd root ++ names ++ [cString (last ++ (bytes ".tmp." ++ decimal number))] := by
  have suffix := isName_append_temp List.not_mem_nil List.not_mem_nil number
  have text : tempPath (join root (render names ++ 47 :: last)) number =
      join root (render names ++ 47 :: (last ++ (bytes ".tmp." ++ decimal number))) := by
    rw [tempPath, join_render_append valid some, join_render_append valid some, List.append_assoc,
      List.cons_append]
  have noSlash : (47 : UInt8) ∉ last ++ (bytes ".tmp." ++ decimal number) := by
    rw [List.mem_append, not_or]
    exact ⟨plainLast, suffix.2.2.2.1⟩
  rw [text]
  refine location_join_render_append valid some nonempty plain noSlash ?_ cwd
  by_cases zero : (0 : UInt8) ∈ last
  · rw [cString_append_of_mem zero]
    exact validLast
  · rw [cString_append_temp zero]
    exact isName_append_temp plainLast zero number

/-! ## Writing a file -/

section Write

variable {host : Host} {machine : Machine} {fullPath temporary data : Bytes}

/-- No removal fails. -/
def RemovesSoundly (host : Host) : Prop := ∀ call, host.removeFault call = false

/-- The target of a path, as long as it resolves, is not a directory. -/
def Writable (disk : Disk) (path : Bytes) : Prop :=
  ∀ place, disk.resolve path = some place → disk.node place ≠ some .dir

theorem writable_of_look {disk : Disk} {path : Bytes} (found : disk.look path ≠ some .dir) :
    Writable disk path := fun _ resolved directory =>
  found (Option.bind_eq_some_iff.mpr ⟨_, resolved, directory⟩)

/-- The quick check reads the disk only; it is true for a file of the same size, and false
only where no directory stands. -/
theorem alreadyWritten_ends (size : Nat) :
    Ends (alreadyWritten host fullPath size) machine fun result final =>
      final.disk = machine.disk ∧ match result with
        | .ok true => ∃ content, machine.disk.look fullPath = some (.file content) ∧
            content.length = size
        | .ok false => machine.disk.look fullPath ≠ some .dir
        | .error _ => True := by
  unfold alreadyWritten
  apply Ends.bind (Fs.exists_ends fullPath)
  · rintro found middle ⟨same, isSome⟩
    cases found with
    | false =>
        refine ⟨same, fun directory => ?_⟩
        rw [directory] at isSome
        cases isSome
    | true =>
        rw [if_pos rfl]
        apply Ends.bind (Fs.fileSize_ends fullPath)
        · rintro written final ⟨unchanged, content, file, rfl⟩
          rw [same] at unchanged file
          refine ⟨unchanged, ?_⟩
          by_cases equal : content.length = size
          · rw [decide_eq_true equal]
            exact ⟨content, file, equal⟩
          · rw [decide_eq_false equal, file]
            exact nofun
        · rintro thrown final ⟨unchanged, _⟩
          exact ⟨unchanged.trans same, trivial⟩
  · rintro thrown final ⟨same, _⟩
    exact ⟨same, trivial⟩

/-- The quick check fails on another size, or on nothing. -/
theorem alreadyWritten_false (size : Nat) :
    Ends (alreadyWritten host fullPath size) machine fun result final =>
      final.disk = machine.disk ∧ (result = .ok false → machine.disk.look fullPath ≠ some .dir ∧
        ∀ content, machine.disk.look fullPath = some (.file content) → content.length ≠ size) := by
  unfold alreadyWritten
  apply Ends.bind (Fs.exists_ends fullPath)
  · rintro present middle ⟨same, rfl⟩
    refine Ends.ite (fun present => ?_) fun absent => ?_
    · apply Ends.bind (Fs.fileSize_ends fullPath)
      · rintro written final ⟨unchanged, content, there, rfl⟩
        rw [same] at there
        refine ⟨unchanged.trans same, fun different => ⟨by rw [there]; exact nofun, ?_⟩⟩
        rintro other found
        rw [there] at found
        cases found
        simpa using different
      · rintro thrown final ⟨unchanged, _⟩
        exact ⟨unchanged.trans same, nofun⟩
    · have missing : machine.disk.look fullPath = none := by simpa using absent
      exact ⟨same, fun _ => by simp [missing]⟩
  · rintro thrown final ⟨same, _⟩
    exact ⟨same, nofun⟩

/-- Removing a file that is not a directory. Only a path that leads nowhere may be refused. -/
theorem remove_writable_ends (sound : RemovesSoundly host) (writable : Writable machine.disk fullPath) :
    Ends (Fs.remove host fullPath) machine fun result final =>
      (machine.disk.resolve fullPath = none ∧ final.disk = machine.disk) ∨
        result = .ok ⟨⟩ ∧ machine.disk.resolve fullPath = some (location machine.disk.cwd fullPath) ∧
          final.disk = machine.disk.erase (location machine.disk.cwd fullPath) := by
  refine (Fs.remove_ends fullPath).mono fun result final ended => ?_
  cases result with
  | ok value => exact ended.imp_right fun erased => ⟨rfl, erased⟩
  | error thrown =>
      rcases ended.2 (sound _) with unresolved | directory
      · exact .inl ⟨unresolved, ended.1⟩
      · obtain ⟨place, resolved, directory⟩ := Option.bind_eq_some_iff.mp directory
        exact absurd directory (writable place resolved)

/-- Removing it when an exception on the way is ignored. -/
theorem remove_caught_ends (sound : RemovesSoundly host) (writable : Writable machine.disk fullPath) :
    Ends (tryCatch (Fs.remove host fullPath) fun _ => return ⟨⟩) machine fun result final =>
      result = .ok ⟨⟩ ∧
        ((machine.disk.resolve fullPath = none ∧ final.disk = machine.disk) ∨
          machine.disk.resolve fullPath = some (location machine.disk.cwd fullPath) ∧
            final.disk = machine.disk.erase (location machine.disk.cwd fullPath)) := by
  apply Ends.tryCatch (remove_writable_ends sound writable)
  · exact fun _ final ended => ⟨rfl, ended.imp_right And.right⟩
  · rintro thrown left (unresolved | ⟨returned, _⟩)
    · exact ⟨rfl, .inl unresolved⟩
    · cases returned

/-- At the target of the path stands a file. -/
def HasFile (disk : Disk) (path content : Bytes) : Prop :=
  disk.resolve path = some (location disk.cwd path) ∧
    disk.node (location disk.cwd path) = some (.file content)

theorem HasFile.look {disk : Disk} {path content : Bytes} (present : HasFile disk path content) :
    disk.look path = some (.file content) :=
  Option.bind_eq_some_iff.mpr ⟨_, present⟩

/-- A path under which a file is found has the file. -/
theorem hasFile_of_look {disk : Disk} {path content : Bytes}
    (found : disk.look path = some (.file content)) : HasFile disk path content := by
  obtain ⟨place, resolved, stored⟩ := Option.bind_eq_some_iff.mp found
  have here := Disk.location_of_resolve resolved
  subst here
  exact ⟨resolved, stored⟩

/-- A file can be written again. -/
theorem HasFile.writable {disk : Disk} {path content : Bytes} (present : HasFile disk path content) :
    Writable disk path := by
  intro place resolved directory
  rw [Disk.location_of_resolve resolved, present.2] at directory
  cases directory

/-- Discarding removes the file and never reports success. -/
theorem discard_ends (sound : RemovesSoundly host) {content : Bytes}
    (present : HasFile machine.disk fullPath content) :
    Ends (discard host fullPath) machine fun result final => result ≠ .ok true ∧
      final.disk = machine.disk.erase (location machine.disk.cwd fullPath) := by
  unfold discard
  apply Ends.bind (remove_writable_ends sound present.writable)
  · rintro _ middle (⟨unresolved, _⟩ | ⟨_, _, erased⟩)
    · rw [present.1] at unresolved
      cases unresolved
    · apply Ends.bind (Fs.fileSize_ends fullPath)
      · rintro size final ⟨same, _⟩
        exact ⟨nofun, same.trans erased⟩
      · rintro thrown final ⟨same, _⟩
        exact ⟨nofun, same.trans erased⟩
  · rintro thrown final (⟨unresolved, _⟩ | ⟨returned, _⟩)
    · rw [present.1] at unresolved
      cases unresolved
    · cases returned

/-- The check succeeds on a file of the right size only; otherwise it throws, or the
file is removed. -/
theorem verifyWritten_ends (sound : RemovesSoundly host) {content : Bytes} (size : Nat)
    (present : HasFile machine.disk fullPath content) :
    Ends (verifyWritten host fullPath size) machine fun result final =>
      (final.disk = machine.disk ∧ (result = .ok true ∧ content.length = size ∨
        ∃ thrown, result = .error thrown)) ∨
      result ≠ .ok true ∧
        final.disk = machine.disk.erase (location machine.disk.cwd fullPath) := by
  unfold verifyWritten
  apply Ends.bind (Fs.status_ends fullPath)
  · rintro entry middle ⟨same, rfl⟩
    rw [present.look, Option.isSome_some, if_pos rfl]
    apply Ends.bind (Fs.fileSize_ends fullPath)
    · rintro written later ⟨unchanged, stored, file, rfl⟩
      rw [same, present.look] at file
      cases file
      have total := unchanged.trans same
      refine Ends.ite (fun equal => .inl ⟨total, .inl ⟨rfl, equal⟩⟩) fun _ => ?_
      rw [← total] at present ⊢
      exact (discard_ends sound present).mono fun _ _ ended => .inr ended
    · rintro thrown final ⟨unchanged, _⟩
      exact .inl ⟨unchanged.trans same, .inr ⟨thrown, rfl⟩⟩
  · rintro thrown final ⟨same, _⟩
    exact .inl ⟨same, .inr ⟨thrown, rfl⟩⟩

/-- The file at a path has been written; the tree has the same directories. -/
structure Rewritten (path content : Bytes) (before after : Disk) : Prop where
  touched : Disk.Touched {location before.cwd path} before after
  hasFile : HasFile after path content
  free : before.node (location before.cwd path) ≠ some .dir

namespace Rewritten

variable {path content : Bytes} {before after : Disk}

theorem cwd (written : Rewritten path content before after) : after.cwd = before.cwd :=
  written.touched.keepsDirs.1

/-- The file stands at the place of the path. -/
theorem node_self (written : Rewritten path content before after) :
    after.node (location before.cwd path) = some (.file content) := by
  rw [← written.cwd]
  exact written.hasFile.2

theorem dir_iff (written : Rewritten path content before after) (place : List Bytes) :
    after.node place = some .dir ↔ before.node place = some .dir :=
  ⟨written.touched.noNewDirs place, written.touched.keepsDirs.2 place⟩

theorem resolve (written : Rewritten path content before after) (other : Bytes) :
    after.resolve other = before.resolve other := written.touched.resolve other

end Rewritten

/-- An open for writing leaves an empty file, or it fails and leaves the disk as it is. -/
theorem openTruncate_rewritten :
    Ends (Fs.openTruncate host temporary) machine fun result final => ∃ opened, result = .ok opened ∧
      if opened then Rewritten temporary [] machine.disk final.disk
      else final.disk = machine.disk := by
  refine (Fs.openTruncate_ends temporary).mono ?_
  rintro result final ⟨opened, returned, ended⟩
  refine ⟨opened, returned, ?_⟩
  cases opened with
  | false => exact ended
  | true =>
      obtain ⟨free, resolved, stored⟩ := ended
      have touched : Disk.Touched {location machine.disk.cwd temporary} machine.disk final.disk := by
        rw [stored]
        exact .put (Set.mem_singleton _) free []
      have here : final.disk.node (location machine.disk.cwd temporary) = some (.file []) := by
        rw [stored, Disk.node_put_self]
      refine ⟨touched, ?_, free⟩
      unfold HasFile
      rw [touched.keepsDirs.1]
      exact ⟨touched.keepsDirs.resolve resolved, here⟩

/-- A path can be opened for writing: it leads somewhere, and not to a directory. -/
structure Opens (disk : Disk) (path : Bytes) : Prop where
  resolves : (disk.resolve path).isSome = true
  free : disk.look path ≠ some .dir

/-- A file can be opened for writing. -/
theorem HasFile.opens {disk : Disk} {path content : Bytes} (present : HasFile disk path content) :
    Opens disk path := by
  constructor
  · rw [present.1]
    rfl
  · rw [present.look]
    exact nofun

/-- A path that leads to no directory can be opened. -/
theorem openTruncate_opens (calm : host.fault machine.calls = .none) (path : Bytes) :
    Ends (Fs.openTruncate host path) machine fun result final => final.calls = machine.calls + 1 ∧
      ((machine.disk.resolve path).isSome = true → machine.disk.look path ≠ some .dir →
        result = .ok true) := by
  unfold Fs.openTruncate
  apply Fs.ends_begin
  rw [calm]
  apply Fs.ends_disk
  simp only [Fs.begun, Disk.look]
  cases machine.disk.resolve path with
  | none => exact ⟨rfl, fun resolved => absurd resolved Bool.false_ne_true⟩
  | some place =>
      exact Ends.ite (fun directory => ⟨rfl, fun _ free => absurd directory free⟩)
        fun _ => ⟨rfl, fun _ _ => rfl⟩

/-- A file that is there can be opened. -/
theorem openTruncate_calm (calm : host.fault machine.calls = .none) (path : Bytes) :
    Ends (Fs.openTruncate host path) machine fun result final => final.calls = machine.calls + 1 ∧
      ∀ content, machine.disk.look path = some (.file content) → result = .ok true := by
  refine (openTruncate_opens calm path).mono ?_
  rintro result final ⟨counted, opens⟩
  exact ⟨counted, fun content found =>
    opens (hasFile_of_look found).opens.resolves (hasFile_of_look found).opens.free⟩

/-- What has been opened could be. -/
theorem Rewritten.opens {path content : Bytes} {before after : Disk}
    (written : Rewritten path content before after) : Opens before path := by
  refine ⟨?_, fun directory => written.free (Disk.node_location_of_look directory)⟩
  rw [← written.resolve, written.hasFile.1]
  rfl

/-- A write adds a prefix of the data to the file, all of it when nothing fails. -/
theorem append_rewritten {start : Disk} {content : Bytes}
    (written : Rewritten temporary content start machine.disk) :
    Ends (Fs.append host temporary data) machine fun result final => ∃ good more, result = .ok good ∧
      Rewritten temporary (content ++ more) start final.disk ∧ more <+: data ∧
      (host.Faultless → good = true ∧ more = data) := by
  refine (Fs.append_ends temporary data).mono ?_
  rintro result final ⟨good, returned, ⟨noFile, _⟩ | ⟨old, count, file, stored, faultless⟩⟩
  · exact absurd written.hasFile.look (noFile content)
  · rw [written.hasFile.look] at file
    cases file
    refine ⟨good, data.take count, returned, ?_, List.take_prefix .., faultless⟩
    have free : machine.disk.node (location machine.disk.cwd temporary) ≠ some .dir := by
      rw [written.hasFile.2]
      exact nofun
    have touched : Disk.Touched {location start.cwd temporary} machine.disk final.disk := by
      rw [stored, ← written.cwd]
      exact .put (Set.mem_singleton _) free _
    refine ⟨written.touched.trans touched, ?_, written.free⟩
    unfold HasFile
    rw [touched.keepsDirs.1]
    refine ⟨touched.keepsDirs.resolve written.hasFile.1, ?_⟩
    rw [stored, Disk.node_put_self]

/-- Abandoning the temporary file takes it away again. -/
theorem remove_rewritten (sound : RemovesSoundly host) {start : Disk} {content : Bytes}
    (written : Rewritten temporary content start machine.disk) :
    Ends (Fs.remove host temporary) machine fun result final => result = .ok ⟨⟩ ∧
      Disk.Touched {location start.cwd temporary} start final.disk ∧
      final.disk.node (location start.cwd temporary) = none ∧
      ∀ path, Writable start path → Writable final.disk path := by
  refine (remove_writable_ends sound written.hasFile.writable).mono ?_
  rintro result final (⟨unresolved, _⟩ | ⟨returned, _, erased⟩)
  · rw [written.hasFile.1] at unresolved
    cases unresolved
  · rw [written.cwd] at erased
    have free : machine.disk.node (location start.cwd temporary) ≠ some .dir := by
      rw [written.node_self]
      exact nofun
    have touched : Disk.Touched {location start.cwd temporary} start final.disk := by
      rw [erased]
      exact written.touched.trans (.erase (Set.mem_singleton _) free)
    have gone : final.disk.node (location start.cwd temporary) = none := by
      rw [erased, Disk.node_erase_self]
    refine ⟨returned, touched, gone, fun path writable place resolved directory => ?_⟩
    have back : Disk.KeepsDirs final.disk start := by
      refine ⟨touched.keepsDirs.1.symm, fun other there => ?_⟩
      by_cases here : other = location start.cwd temporary
      · rw [here, gone] at there
        cases there
      · rwa [touched.node other here] at there
    exact writable place (back.resolve resolved) (back.2 place directory)

/-- Renaming the temporary file puts its content at the target, or changes nothing. -/
theorem rename_rewritten {start : Disk} {content : Bytes}
    (written : Rewritten temporary content start machine.disk) :
    Ends (Fs.rename host temporary fullPath) machine fun result final =>
      match result with
      | .ok _ => HasFile final.disk fullPath content ∧
          Disk.Touched {location start.cwd fullPath, location start.cwd temporary} start final.disk
      | .error _ => final.disk = machine.disk := by
  refine (Fs.rename_ends temporary fullPath).mono ?_
  intro result final ended
  cases result with
  | error thrown => exact ended
  | ok value =>
      obtain ⟨moved, file, resolved, free, stored⟩ := ended
      rw [written.hasFile.look] at file
      cases file
      have inner : Disk.Touched {location start.cwd fullPath, location start.cwd temporary}
          machine.disk final.disk := by
        rw [stored, written.cwd]
        have notDir : machine.disk.node (location start.cwd temporary) ≠ some .dir := by
          rw [written.node_self]
          exact nofun
        refine Disk.Touched.trans (.erase (Set.mem_insert_of_mem _ rfl) notDir) ?_
        refine .put (Set.mem_insert ..) ?_ content
        rw [written.cwd] at free
        intro directory
        by_cases same : location start.cwd temporary = location start.cwd fullPath
        · rw [← same, Disk.node_erase_self] at directory
          cases directory
        · rw [Disk.node_erase_of_ne _ same] at directory
          exact free directory
      have wider : Disk.Touched {location start.cwd fullPath, location start.cwd temporary}
          start machine.disk := written.touched.mono (Set.subset_insert ..)
      refine ⟨?_, wider.trans inner⟩
      unfold HasFile
      rw [inner.keepsDirs.1]
      refine ⟨inner.keepsDirs.resolve resolved, ?_⟩
      rw [stored, Disk.node_put_self]

/-- Paths that the system reads alike lead to the same place. -/
theorem resolve_of_cString_eq {disk : Disk} {first second : Bytes}
    (same : cString first = cString second) : disk.resolve first = disk.resolve second := by
  unfold Disk.resolve
  rw [same]

/-- What an exception leaves behind at the target can be removed. -/
def Abandoned (before after : Disk) (path : Bytes) : Prop :=
  Writable after path ∧ (after.resolve path = none →
    after.node (location before.cwd path) = before.node (location before.cwd path))

/-- What an attempt to publish leaves at the target. -/
def Published (data path : Bytes) (before after : Disk) : Except Exn Bool → Prop
  | .ok true => after.look path = some (.file data)
  | .ok false => Writable after path ∧
      (after.node (location before.cwd path) = before.node (location before.cwd path) ∨
        after.node (location before.cwd path) = none)
  | .error _ => Abandoned before after path

/-- A failed rename leaves the target as it was. -/
theorem abandoned_of_rewritten {before after : Disk} {content : Bytes}
    (writable : Writable before fullPath)
    (apart : cString temporary = cString fullPath ∨
      location before.cwd temporary ≠ location before.cwd fullPath)
    (written : Rewritten temporary content before after) : Abandoned before after fullPath := by
  constructor
  · intro place resolved directory
    rw [written.resolve] at resolved
    exact writable place resolved ((written.dir_iff place).mp directory)
  · intro unresolved
    rcases apart with same | different
    · rw [← resolve_of_cString_eq same, written.hasFile.1] at unresolved
      cases unresolved
    · exact written.touched.node _ (Ne.symm different)

/-- What the check leaves at the target. -/
theorem published_of_verified {before renamed final : Disk} {more : Bytes} {result : Except Exn Bool}
    {places : Set (List Bytes)} (front : more <+: data) (present : HasFile renamed fullPath more)
    (touched : Disk.Touched (insert (location before.cwd fullPath) places) before renamed)
    (verified : (final = renamed ∧ (result = .ok true ∧ more.length = data.length ∨
        ∃ thrown, result = .error thrown)) ∨
      result ≠ .ok true ∧ final = renamed.erase (location renamed.cwd fullPath)) :
    Disk.Touched (insert (location before.cwd fullPath) places) before final ∧
      Published data fullPath before final result := by
  rcases verified with ⟨rfl, ⟨rfl, size⟩ | ⟨thrown, rfl⟩⟩ | ⟨failed, rfl⟩
  · rw [← front.eq_of_length size]
    exact ⟨touched, present.look⟩
  · refine ⟨touched, present.writable, fun unresolved => ?_⟩
    rw [present.1] at unresolved
    cases unresolved
  · rw [touched.keepsDirs.1]
    have free : renamed.node (location before.cwd fullPath) ≠ some .dir := by
      rw [← touched.keepsDirs.1, present.2]
      exact nofun
    have erased : Disk.Touched (insert (location before.cwd fullPath) places) renamed
        (renamed.erase (location before.cwd fullPath)) := .erase (Set.mem_insert ..) free
    have writable : Writable (renamed.erase (location before.cwd fullPath)) fullPath := by
      intro place again
      rw [Disk.location_of_resolve again, erased.keepsDirs.1, touched.keepsDirs.1,
        Disk.node_erase_self]
      exact nofun
    refine ⟨touched.trans erased, ?_⟩
    cases result with
    | ok success =>
        cases success with
        | true => exact absurd rfl failed
        | false => exact ⟨writable, .inr (Disk.node_erase_self ..)⟩
    | error thrown =>
        refine ⟨writable, fun unresolved => ?_⟩
        rw [erased.keepsDirs.resolve present.1] at unresolved
        cases unresolved

/-- The temporary file is written and renamed, or the target is not touched; an exception
leaves something at the target that can be removed. -/
theorem publish_ends (sound : RemovesSoundly host) (writable : Writable machine.disk fullPath)
    (apart : cString temporary = cString fullPath ∨
      location machine.disk.cwd temporary ≠ location machine.disk.cwd fullPath) :
    Ends (publish host temporary fullPath data) machine fun result final =>
      Disk.Touched {location machine.disk.cwd fullPath, location machine.disk.cwd temporary}
        machine.disk final.disk ∧
      Published data fullPath machine.disk final.disk result := by
  have widen {after : Disk} (touched : Disk.Touched {location machine.disk.cwd temporary}
      machine.disk after) : Disk.Touched
        {location machine.disk.cwd fullPath, location machine.disk.cwd temporary} machine.disk after :=
    touched.mono (Set.subset_insert ..)
  unfold publish
  apply Ends.bind openTruncate_rewritten
  · rintro success opened ⟨_, returned, ended⟩
    cases returned
    cases success with
    | false => exact ⟨ended ▸ .refl _, ended ▸ writable, .inl (ended ▸ rfl)⟩
    | true =>
        rw [if_pos rfl]
        apply Ends.bind (append_rewritten ended)
        · rintro good appended ⟨_, more, returned, written, front, _⟩
          cases returned
          cases good with
          | false =>
              rw [if_neg Bool.false_ne_true]
              apply Ends.bind (remove_rewritten sound written)
              · rintro _ removed ⟨_, touched, gone, kept⟩
                refine ⟨widen touched, kept fullPath writable, ?_⟩
                by_cases same : location machine.disk.cwd fullPath =
                    location machine.disk.cwd temporary
                · exact .inr (same ▸ gone)
                · exact .inl (touched.node _ same)
              · rintro _ _ ⟨returned, _⟩
                cases returned
          | true =>
              rw [if_pos rfl]
              apply Ends.bind (rename_rewritten written)
              · rintro _ renamed ⟨present, touched⟩
                refine (verifyWritten_ends sound data.length present).mono ?_
                exact fun _ _ ended => published_of_verified front present touched ended
              · rintro thrown final unchanged
                rw [unchanged]
                exact ⟨widen written.touched, abandoned_of_rewritten writable apart written⟩
        · rintro _ _ ⟨_, _, returned, _⟩
          cases returned
  · rintro _ _ ⟨_, returned, _⟩
    cases returned

/-- What `write_disk` leaves at the target: on success a file of the right size, which is
the data or was there before; otherwise nothing new. -/
def Written (data path : Bytes) (before after : Disk) : Except Exn Bool → Prop
  | .ok true => ∃ content, after.look path = some (.file content) ∧ content.length = data.length ∧
      (content = data ∨ after = before)
  | result => (result = .ok false → Writable after path) ∧
      (after.node (location before.cwd path) = before.node (location before.cwd path) ∨
        after.node (location before.cwd path) = none)

/-- `write_disk` touches at most the path and one temporary path of it, however it ends. -/
theorem writeDisk_ends (sound : RemovesSoundly host)
    (settled : Fs.Settled machine.disk (parentPath fullPath)) :
    Ends (writeDisk host fullPath data) machine fun result final => ∃ number,
      Disk.Touched {location machine.disk.cwd fullPath,
        location machine.disk.cwd (tempPath fullPath number)} machine.disk final.disk ∧
      Written data fullPath machine.disk final.disk result := by
  unfold writeDisk
  apply Ends.bind (alreadyWritten_ends data.length)
  · rintro written checked ⟨same, found⟩
    cases written with
    | true =>
        obtain ⟨content, file, size⟩ := found
        rw [← same] at file ⊢
        exact ⟨0, .refl _, content, file, size, .inr rfl⟩
    | false =>
        have writable := writable_of_look found
        rw [← same] at settled writable ⊢
        apply Ends.bind (Fs.createDirectories_settled settled)
        · rintro _ created ⟨unchanged, _⟩
          rw [← unchanged] at writable ⊢
          unfold Fs.randomNumber
          simp only [bind_assoc, pure_bind]
          apply Fs.ends_ask
          apply Fs.ends_begin
          generalize 100000 + (host.random created.calls).val = number
          have kept : (Fs.begun created []).disk = created.disk := rfl
          rw [← kept] at writable ⊢
          apply Ends.tryCatch (publish_ends sound writable (cString_tempPath_or fullPath number _))
          · rintro success final ⟨touched, published⟩
            refine ⟨number, touched, ?_⟩
            cases success with
            | true => exact ⟨data, published, rfl, .inl rfl⟩
            | false => exact ⟨fun _ => published.1, published.2⟩
          · rintro thrown left ⟨touched, free, unresolved⟩
            apply Ends.bind (remove_writable_ends sound free)
            · rintro _ final (⟨lost, unmoved⟩ | ⟨_, resolved, erased⟩)
              · apply Ends.pure
                rw [unmoved]
                exact ⟨number, touched, fun _ => free, .inl (unresolved lost)⟩
              · rw [touched.keepsDirs.1] at erased
                have free := free _ resolved
                rw [touched.keepsDirs.1] at free
                have total := touched.trans (.erase (Set.mem_insert ..) free)
                apply Ends.pure
                rw [erased]
                refine ⟨number, total, fun _ place again => ?_, .inr (Disk.node_erase_self ..)⟩
                rw [Disk.location_of_resolve again, total.keepsDirs.1, Disk.node_erase_self]
                exact nofun
            · rintro _ final (⟨lost, unmoved⟩ | ⟨returned, _⟩)
              · rw [unmoved]
                exact ⟨number, touched, nofun, .inl (unresolved lost)⟩
              · cases returned
        · rintro _ _ ⟨_, _, returned⟩
          cases returned
  · rintro thrown final ⟨same, _⟩
    exact ⟨0, same ▸ .refl _, nofun, .inl (same ▸ rfl)⟩

/-! ## Saving a file -/

/-- The two places a write to a path can touch. -/
def touchedFiles (cwd : List Bytes) (fullPath : Bytes) (number : Nat) : Set (List Bytes) :=
  {location cwd fullPath, location cwd (tempPath fullPath number)}

/-- Nothing new stands at the target, save perhaps a directory. -/
def NothingNew (path : Bytes) (before after : Disk) : Prop :=
  after.node (location before.cwd path) = before.node (location before.cwd path) ∨
    after.node (location before.cwd path) = none ∨
    before.node (location before.cwd path) = none ∧
      after.node (location before.cwd path) = some .dir

/-- A file of the right size stands at the target: the data, or one that was there. -/
def FileThere (data path : Bytes) (before after : Disk) : Prop :=
  ∃ content, after.look path = some (.file content) ∧ content.length = data.length ∧
    (content = data ∨ before.node (location before.cwd path) = some (.file content))

/-- Directories that are created bring no file to the path. -/
theorem nothingNew_of_grown {path : Bytes} {before middle after : Disk}
    (grown : Disk.Grown before middle)
    (unchanged : after.node (location before.cwd path) = middle.node (location before.cwd path) ∨
      after.node (location before.cwd path) = none) : NothingNew path before after := by
  rcases unchanged with same | gone
  · rcases grown.node (location before.cwd path) with earlier | ⟨absent, added⟩
    · exact .inl (same.trans earlier)
    · exact .inr (.inr ⟨absent, same.trans added⟩)
  · exact .inr (.inl gone)

/-- What a save has done so far, by its result. -/
structure Saving (data fullPath : Bytes) (before : Disk) (result : Except Exn Bool) (after : Disk) :
    Prop where
  evolved : ∃ number, Disk.Evolved (Fs.passed before.cwd (parentPath fullPath))
    (touchedFiles before.cwd fullPath number) before after
  fileThere : result = .ok true → FileThere data fullPath before after
  nothingNew : result ≠ .ok true → NothingNew fullPath before after

/-- `write_disk` after the directories have been created. -/
theorem writeDisk_saving (sound : RemovesSoundly host) {before : Disk}
    (evolved : Disk.Evolved (Fs.passed before.cwd (parentPath fullPath)) ∅ before machine.disk)
    (grown : Disk.Grown before machine.disk)
    (settled : Fs.Settled machine.disk (parentPath fullPath)) :
    Ends (writeDisk host fullPath data) machine fun result final =>
      Saving data fullPath before result final.disk ∧
      (result = .ok false → Writable final.disk fullPath) := by
  refine (writeDisk_ends sound settled).mono ?_
  rintro result final ⟨number, touched, written⟩
  rw [grown.cwd] at touched
  have total : ∃ number, Disk.Evolved (Fs.passed before.cwd (parentPath fullPath))
      (touchedFiles before.cwd fullPath number) before final.disk :=
    ⟨number, (evolved.mono (Set.empty_subset _)).trans touched.evolved⟩
  have failed (unchanged : final.disk.node (location machine.disk.cwd fullPath) =
        machine.disk.node (location machine.disk.cwd fullPath) ∨
      final.disk.node (location machine.disk.cwd fullPath) = none) :
      NothingNew fullPath before final.disk := by
    rw [grown.cwd] at unchanged
    exact nothingNew_of_grown grown unchanged
  cases result with
  | error thrown => exact ⟨⟨total, nofun, fun _ => failed written.2⟩, nofun⟩
  | ok success =>
      cases success with
      | false => exact ⟨⟨total, nofun, fun _ => failed written.2⟩, written.1⟩
      | true =>
          obtain ⟨content, found, size, origin⟩ := written
          refine ⟨⟨total, fun _ => ⟨content, found, size, ?_⟩, absurd rfl⟩, nofun⟩
          rcases origin with same | unchanged
          · exact .inl same
          · rw [unchanged] at found
            have there := Disk.node_location_of_look found
            rw [grown.cwd] at there
            exact .inr ((grown.file_iff _ _).mp there)

/-- Removing the target once more after a failed write. -/
theorem remove_saving (sound : RemovesSoundly host) {before : Disk}
    (saving : Saving data fullPath before (.ok false) machine.disk)
    (writable : Writable machine.disk fullPath) :
    Ends (tryCatch (Fs.remove host fullPath) fun _ => return ⟨⟩) machine fun _ final =>
      Saving data fullPath before (.ok false) final.disk := by
  refine (remove_caught_ends sound writable).mono ?_
  rintro _ final ⟨_, ⟨_, unmoved⟩ | ⟨resolved, erased⟩⟩
  · rw [unmoved]
    exact saving
  · obtain ⟨number, evolved⟩ := saving.evolved
    have free := writable _ resolved
    rw [evolved.keepsDirs.1] at erased free
    have touched : Disk.Touched (touchedFiles before.cwd fullPath number) machine.disk
        (machine.disk.erase (location before.cwd fullPath)) := .erase (Set.mem_insert ..) free
    rw [erased]
    exact ⟨⟨number, evolved.trans touched.evolved⟩, nofun,
      fun _ => .inr (.inl (Disk.node_erase_self ..))⟩

/-- Saving the data of a chunk. -/
theorem saveFileAt_ends (sound : RemovesSoundly host) (config : StoreConfig) (relPath : Bytes) :
    Ends (saveFileAt host config data relPath) machine fun result final =>
      ((find relPath (bytes "..") 0).isSome → final.disk = machine.disk ∧ result = .ok false) ∧
      Saving data (join config.rootDir relPath) machine.disk result final.disk := by
  have unchanged (result : Except Exn Bool) (failed : result ≠ .ok true) :
      Saving data (join config.rootDir relPath) machine.disk result machine.disk :=
    ⟨⟨0, .refl _⟩, fun success => absurd success failed, fun _ => .inl rfl⟩
  unfold saveFileAt
  refine Ends.ite (fun _ => ⟨fun _ => ⟨rfl, rfl⟩, unchanged _ nofun⟩) fun accepted => ?_
  apply Ends.bind (Fs.createDirectories_evolved _)
  · rintro created middle ⟨evolved, grown, _, returned, settled⟩
    cases returned
    cases created with
    | false =>
        refine ⟨fun rejected => absurd rejected accepted, ⟨0, evolved.mono (Set.empty_subset _)⟩, nofun,
          fun _ => nothingNew_of_grown grown (.inl rfl)⟩
    | true =>
        rw [if_pos rfl]
        apply Ends.bind (writeDisk_saving sound evolved grown (settled rfl))
        · rintro success written ⟨saving, writable⟩
          cases success with
          | true => exact ⟨fun rejected => absurd rejected accepted, saving⟩
          | false =>
              rw [if_neg Bool.false_ne_true]
              apply Ends.bind (remove_saving sound saving (writable rfl))
              · rintro _ final saved
                exact ⟨fun rejected => absurd rejected accepted, saved⟩
              · rintro thrown final saved
                exact ⟨fun rejected => absurd rejected accepted, saved.evolved, nofun,
                  fun _ => saved.nothingNew nofun⟩
        · rintro thrown final ⟨saving, _⟩
          exact ⟨fun rejected => absurd rejected accepted, saving⟩
  · rintro thrown final ⟨_, _, _, returned, _⟩
    cases returned

/-- What saving an upload has done, by its result: with a path, the file was there, or
there is one of the right size now. -/
structure Storing (data fullPath path : Bytes) (before : Disk) (result : Except Exn (Option Bytes))
    (after : Disk) : Prop where
  evolved : ∃ number, Disk.Evolved (Fs.passed before.cwd (parentPath fullPath))
    (touchedFiles before.cwd fullPath number) before after
  found : ∀ returned, result = .ok (some returned) → returned = path ∧
    (after = before ∧ (before.look fullPath).isSome ∨
      before.look fullPath = none ∧ FileThere data fullPath before after)
  nothingNew : (∀ returned, result ≠ .ok (some returned)) → NothingNew fullPath before after
  untouched : (before.look fullPath).isSome = true → after = before

/-- Saving an upload. -/
theorem saveFile_ends (sound : RemovesSoundly host) (digest : Bytes → Digest) (config : StoreConfig)
    {filename scene md5 rel : Bytes}
    (placed : relPath filename (if md5.isEmpty then md5Hex digest data else md5) = .ok rel) :
    Ends (saveFile host digest config filename data scene md5) machine fun result final =>
      Storing data (join (join config.rootDir scene) rel) (join scene rel) machine.disk result
        final.disk := by
  unfold saveFile
  dsimp only
  rw [placed]
  dsimp only
  apply Ends.bind (Fs.exists_ends _)
  · rintro present checked ⟨same, found⟩
    cases present with
    | true =>
        rw [if_pos rfl]
        refine ⟨⟨0, same ▸ .refl _⟩, fun returned returns => ?_, fun failed => absurd rfl (failed _),
          fun _ => same⟩
        cases returns
        exact ⟨rfl, .inl ⟨same, found.symm⟩⟩
    | false =>
        have absent : machine.disk.look (join (join config.rootDir scene) rel) = none :=
          Option.isSome_eq_false_iff.mp found.symm |> Option.isNone_iff_eq_none.mp
        rw [if_neg Bool.false_ne_true, ← same]
        rw [← same] at absent
        have missing {result : Disk} :
            (checked.disk.look (join (join config.rootDir scene) rel)).isSome = true →
              result = checked.disk := by
          rw [absent]
          exact nofun
        apply Ends.bind (Fs.createDirectories_evolved _)
        · rintro created middle ⟨evolved, grown, _, returned, settled⟩
          cases returned
          cases created with
          | false =>
              exact ⟨⟨0, evolved.mono (Set.empty_subset _)⟩, nofun,
                fun _ => nothingNew_of_grown grown (.inl rfl), missing⟩
          | true =>
              rw [if_pos rfl]
              apply Ends.bind (writeDisk_saving sound evolved grown (settled rfl))
              · rintro success written ⟨saving, _⟩
                cases success with
                | true =>
                    rw [if_pos rfl]
                    refine ⟨saving.evolved, fun returned returns => ?_,
                      fun failed => absurd rfl (failed _), missing⟩
                    cases returns
                    exact ⟨rfl, .inr ⟨absent, saving.fileThere rfl⟩⟩
                | false => exact ⟨saving.evolved, nofun, fun _ => saving.nothingNew nofun, missing⟩
              · rintro thrown final ⟨saving, _⟩
                exact ⟨saving.evolved, nofun, fun _ => saving.nothingNew nofun, missing⟩
        · rintro thrown final ⟨_, _, _, returned, _⟩
          cases returned
  · rintro thrown final ⟨same, _⟩
    exact ⟨⟨0, same ▸ .refl _⟩, nofun, fun _ => .inl (same ▸ rfl), fun _ => same⟩

end Write

/-! ## Below the root directory -/

/-- Where a save to a path made of names below an existing directory changes the tree:
it creates directories along the names, and touches the target and the temporary file
beside it. -/
theorem evolved_below {root last : Bytes} {names : List Bytes}
    (valid : ∀ name ∈ names, IsName name) (some : names ≠ []) (nonempty : root ≠ [])
    (plain : (0 : UInt8) ∉ root) (plainLast : (47 : UInt8) ∉ last) (validLast : IsName (cString last))
    {before after : Disk} {number : Nat} (directory : before.look root = Option.some .dir)
    (evolved : Disk.Evolved
      (Fs.passed before.cwd (parentPath (join root (render names ++ 47 :: last))))
      (touchedFiles before.cwd (join root (render names ++ 47 :: last)) number) before after)
    (place : List Bytes) :
    after.node place = before.node place ∨
      (∃ taken, taken ≠ [] ∧ taken <+: names ∧ place = location before.cwd root ++ taken ∧
        before.node place = none ∧ after.node place = Option.some .dir) ∨
      place = location before.cwd root ++ names ++ [cString last] ∨
      place = location before.cwd root ++ names ++
        [cString (last ++ (bytes ".tmp." ++ decimal number))] := by
  by_cases inside : place ∈ touchedFiles before.cwd (join root (render names ++ 47 :: last)) number
  · rw [touchedFiles, location_join_render_append valid some nonempty plain plainLast validLast,
      location_tempPath_join_render valid some nonempty plain plainLast validLast] at inside
    rcases inside with target | temporary
    · exact .inr (.inr (.inl target))
    · exact .inr (.inr (.inr temporary))
  · rcases evolved.node place inside with same | ⟨passed, absent, added⟩
    · exact .inl same
    · rw [parentPath_join_render valid some plainLast] at passed
      rcases Fs.passed_join_render nonempty plain directory valid some passed with present | below
      · rw [present] at absent
        cases absent
      · obtain ⟨taken, taking, front, here⟩ := below
        exact .inr (.inl ⟨taken, taking, front, here, absent, added⟩)

end FileStore

end Cdfs
