import Cdfs.Basis.FileSystem

/-! # What the file system calls do

For every call a postcondition in terms of the tree before it. Directories are only
added by the calls that create them (`Basis.Disk.Grown`), a path that resolves goes on
resolving while directories stay, and it always resolves to its lexical location
(`Basis.Disk.location_of_resolve`).
-/

namespace Basis

namespace Disk

open FsPath

variable {before after : Disk} {place : List Bytes}

@[simp] theorem node_put_self (disk : Disk) (place : List Bytes) (entry : Node) :
    (disk.put place entry).node place = some entry := OrderedMap.get_put_self ..

theorem node_put_of_ne (disk : Disk) {place other : List Bytes} (entry : Node)
    (different : place ≠ other) : (disk.put place entry).node other = disk.node other :=
  OrderedMap.get_put_of_ne _ _ different

@[simp] theorem node_erase_self (disk : Disk) (place : List Bytes) :
    (disk.erase place).node place = none := OrderedMap.get_erase_self ..

theorem node_erase_of_ne (disk : Disk) {place other : List Bytes} (different : place ≠ other) :
    (disk.erase place).node other = disk.node other := OrderedMap.get_erase_of_ne _ different

/-- Erasing brings nothing back. -/
theorem node_erase_of_none {disk : Disk} {place other : List Bytes} (absent : disk.node place = none) :
    (disk.erase other).node place = none := by
  by_cases same : other = place
  · rw [same, node_erase_self]
  · rw [node_erase_of_ne disk same, absent]

/-- Walking leads to the lexical location. -/
theorem eq_foldl_of_walk {disk : Disk} {names : List Bytes} {start : List Bytes}
    (walked : disk.walk start names = some place) : place = names.foldl enter start := by
  induction names generalizing start with
  | nil => exact (Option.some.inj walked).symm
  | cons name rest ih =>
      simp only [walk] at walked
      split at walked
      · exact ih walked
      · cases walked

/-- A path that resolves leads to its location: the walk only checks that directories are
there. -/
theorem location_of_resolve {disk : Disk} {path : Bytes}
    (resolved : disk.resolve path = some place) : place = location disk.cwd path := by
  unfold resolve at resolved
  split at resolved
  · cases resolved
  · exact eq_foldl_of_walk resolved

/-- What is found under a path stands at its location. -/
theorem node_location_of_look {disk : Disk} {path : Bytes} {entry : Node}
    (found : disk.look path = some entry) : disk.node (location disk.cwd path) = some entry := by
  obtain ⟨place, resolved, stored⟩ := Option.bind_eq_some_iff.mp found
  rw [← location_of_resolve resolved]
  exact stored

/-- A walk over two lists of names is the second walk from where the first one ends. -/
theorem walk_append (disk : Disk) (start : List Bytes) (first second : List Bytes) :
    disk.walk start (first ++ second) =
      (disk.walk start first).bind fun place => disk.walk place second := by
  induction first generalizing start with
  | nil => rfl
  | cons name rest ih =>
      simp only [List.cons_append, walk]
      split
      · exact ih _
      · rfl

/-- Behind a slash the walk goes on from the directory in front of it. -/
theorem resolve_slash (disk : Disk) {first : Bytes} (nonempty : first ≠ [])
    (plain : (0 : UInt8) ∉ first) (second : Bytes) :
    disk.resolve (first ++ 47 :: second) =
      (disk.resolve first).bind fun place => disk.walk place (components (cString second)) := by
  have cut : cString (47 :: second) = 47 :: cString second := rfl
  unfold resolve
  rw [cString_append plain, cut, cString_of_not_mem plain, if_neg nonempty,
    if_neg (List.append_ne_nil_of_left_ne_nil nonempty _), isAbsolute_append nonempty,
    components_append, walk_append]

/-- What stands in front of a slash is a directory. -/
theorem look_dir_of_slash {disk : Disk} {first second : Bytes} {entry : Node} (nonempty : first ≠ [])
    (plain : (0 : UInt8) ∉ first) (found : disk.look (first ++ 47 :: second) = some entry) :
    disk.look first = some .dir := by
  obtain ⟨place, resolved, _⟩ := Option.bind_eq_some_iff.mp found
  rw [resolve_slash disk nonempty plain] at resolved
  obtain ⟨middle, before, after⟩ := Option.bind_eq_some_iff.mp resolved
  refine Option.bind_eq_some_iff.mpr ⟨middle, before, ?_⟩
  cases split : components (cString second) with
  | nil => exact absurd split (components_ne_nil _)
  | cons name rest =>
      rw [split, walk] at after
      split at after
      · assumption
      · cases after

/-- Behind a directory a path goes on from there. -/
theorem resolve_slash_of_look {disk : Disk} {first : Bytes} (nonempty : first ≠ [])
    (plain : (0 : UInt8) ∉ first) (directory : disk.look first = some .dir) (second : Bytes) :
    disk.resolve (first ++ 47 :: second) =
      disk.walk (location disk.cwd first) (components (cString second)) := by
  obtain ⟨place, resolved, _⟩ := Option.bind_eq_some_iff.mp directory
  rw [resolve_slash disk nonempty plain, resolved, Option.bind_some, location_of_resolve resolved]

/-- A relative path joined to a directory goes on from there. -/
theorem resolve_join_of_look {disk : Disk} {left right : Bytes} (nonempty : left ≠ [])
    (plain : (0 : UInt8) ∉ left) (directory : disk.look left = some .dir)
    (relative : isAbsolute right = false) :
    disk.resolve (join left right) =
      disk.walk (location disk.cwd left) (components (cString right)) := by
  cases named : hasFilename left with
  | true =>
      rw [join_named named relative]
      exact resolve_slash_of_look nonempty plain directory right
  | false =>
      obtain ⟨front, rfl⟩ := exists_of_hasFilename_eq_false named nonempty
      have plainFront : (0 : UInt8) ∉ front := fun zero => plain (List.mem_append_left _ zero)
      rw [join_of_relative relative, named, if_neg Bool.false_ne_true, List.nil_append,
        List.append_assoc, List.singleton_append]
      by_cases empty : front = []
      · subst empty
        have top : disk.node [] = some .dir := node_location_of_look directory
        have cut : cString (47 :: right) = 47 :: cString right := rfl
        rw [List.nil_append, resolve, cut, if_neg (List.cons_ne_nil _ _), components, if_pos rfl]
        exact if_pos top
      · rw [resolve_slash_of_look empty plainFront (look_dir_of_slash empty plainFront directory),
          location_trailing_slash empty plainFront]

/-- A text without slashes behind a path changes the last component only, which need not
exist. -/
theorem isSome_resolve_append {disk : Disk} {path suffix : Bytes} (nonempty : path ≠ [])
    (plain : (0 : UInt8) ∉ path) (noSlash : (47 : UInt8) ∉ suffix) (noZero : (0 : UInt8) ∉ suffix) :
    (disk.resolve (path ++ suffix)).isSome = (disk.resolve path).isSome := by
  have plainWhole : (0 : UInt8) ∉ path ++ suffix := by
    rw [List.mem_append, not_or]
    exact ⟨plain, noZero⟩
  obtain ⟨front, last, parts⟩ : ∃ front last, components path = front ++ [last] :=
    ⟨_, _, (dropLast_components_append_filename path).symm⟩
  have longer := components_append_of_not_mem parts noSlash
  unfold resolve
  rw [cString_of_not_mem plainWhole, cString_of_not_mem plain, if_neg nonempty,
    if_neg (List.append_ne_nil_of_left_ne_nil nonempty _), isAbsolute_append nonempty, longer,
    parts, walk_append, walk_append]
  cases disk.walk (if isAbsolute path = true then [] else disk.cwd) front with
  | none => rfl
  | some above =>
      rw [Option.bind_some, Option.bind_some]
      unfold walk
      split <;> rfl

/-- A walk down names sees only the entries it goes through. -/
theorem walk_congr {names : List Bytes} (valid : ∀ name ∈ names, IsName name) {start : List Bytes}
    (same : ∀ front, front <+: names → after.node (start ++ front) = before.node (start ++ front)) :
    after.walk start names = before.walk start names := by
  induction names generalizing start with
  | nil => rfl
  | cons name rest ih =>
      have here := same [] List.nil_prefix
      rw [List.append_nil] at here
      have deeper : after.walk (start ++ [name]) rest = before.walk (start ++ [name]) rest := by
        refine ih (fun other member => valid other (List.mem_cons_of_mem _ member)) ?_
        intro front taken
        rw [← List.append_cons]
        exact same (name :: front) (List.cons_prefix_cons.mpr ⟨rfl, taken⟩)
      simp only [walk, here, enter_of_isName (valid name (List.mem_cons_self ..))]
      rw [deeper]

/-- The entries of the tree have names. -/
def Named (disk : Disk) : Prop := ∀ entry ∈ disk.tree.entries, ∀ name ∈ entry.1, IsName name

instance (disk : Disk) : Decidable disk.Named :=
  inferInstanceAs (Decidable (∀ entry ∈ disk.tree.entries, ∀ name ∈ entry.1, IsName name))

/-- The entries of a directory are names. -/
theorem Named.isName {disk : Disk} (named : disk.Named) {name : Bytes}
    (listed : name ∈ disk.names place) : IsName name := by
  obtain ⟨entry, member, last⟩ := List.mem_filterMap.mp listed
  split at last
  · exact named entry member name (List.mem_of_getLast? last)
  · cases last

/-- The entries of a directory stand right below it. -/
theorem mem_names_iff {disk : Disk} {place : List Bytes} {name : Bytes} :
    name ∈ disk.names place ↔ ∃ entry, disk.node (place ++ [name]) = some entry := by
  constructor
  · intro listed
    obtain ⟨⟨key, entry⟩, member, last⟩ := List.mem_filterMap.mp listed
    split at last
    · rename_i here
      obtain ⟨front, final, rfl⟩ := (List.eq_nil_or_concat' key).resolve_left here.2
      rw [List.getLast?_concat] at last
      rw [List.dropLast_concat] at here
      cases last
      obtain ⟨rfl, _⟩ := here
      exact ⟨entry, OrderedMap.mem_entries_iff.mp member⟩
    · cases last
  · rintro ⟨entry, stored⟩
    refine List.mem_filterMap.mpr ⟨(place ++ [name], entry), OrderedMap.mem_entries_iff.mpr stored, ?_⟩
    have nonempty : place ++ [name] ≠ [] := List.append_ne_nil_of_right_ne_nil _ (List.cons_ne_nil _ _)
    rw [if_pos ⟨List.dropLast_concat, nonempty⟩, List.getLast?_concat]

/-- No name is listed twice. -/
theorem nodup_names (disk : Disk) (place : List Bytes) : (disk.names place).Nodup := by
  have distinct : disk.tree.entries.Pairwise fun first second => first.1 ≠ second.1 :=
    (List.pairwise_map.mp disk.tree.sorted).imp fun below => below.ne
  refine List.Pairwise.filterMap _ ?_ distinct
  have key {entry : List Bytes × Node} {name : Bytes}
      (named : (if entry.1.dropLast = place ∧ entry.1 ≠ [] then entry.1.getLast? else none) =
        some name) : entry.1 = place ++ [name] := by
    split at named
    · rename_i here
      obtain ⟨front, final, same⟩ := (List.eq_nil_or_concat' entry.1).resolve_left here.2
      rw [same] at named here ⊢
      rw [List.getLast?_concat] at named
      rw [List.dropLast_concat] at here
      cases named
      rw [here.1]
    · cases named
  rintro first second different name named other again rfl
  exact different ((key named).trans (key again).symm)

/-- Every directory stays a directory. -/
def KeepsDirs (before after : Disk) : Prop :=
  after.cwd = before.cwd ∧ ∀ place, before.node place = some .dir → after.node place = some .dir

/-- A walk still leads to its end when more directories are there. -/
theorem walk_mono (kept : ∀ place, before.node place = some .dir → after.node place = some .dir)
    {names start : List Bytes} (walked : before.walk start names = some place) :
    after.walk start names = some place := by
  induction names generalizing start with
  | nil => exact walked
  | cons name rest ih =>
      simp only [walk] at walked ⊢
      split at walked
      · rename_i directory
        rw [if_pos (kept _ directory)]
        exact ih walked
      · cases walked

/-- A path that resolves goes on resolving while directories stay. -/
theorem KeepsDirs.resolve (kept : KeepsDirs before after) {path : Bytes}
    (resolved : before.resolve path = some place) : after.resolve path = some place := by
  unfold Disk.resolve at resolved ⊢
  split at resolved
  · cases resolved
  · rename_i nonempty
    rw [if_neg nonempty, kept.1]
    exact walk_mono kept.2 resolved

theorem KeepsDirs.refl (disk : Disk) : KeepsDirs disk disk := ⟨rfl, fun _ directory => directory⟩

/-- Directories kept by one change after the other. -/
theorem KeepsDirs.trans {later : Disk} (first : KeepsDirs before after)
    (second : KeepsDirs after later) : KeepsDirs before later :=
  ⟨second.1.trans first.1, fun place directory => second.2 place (first.2 place directory)⟩

/-- A directory is still found under its path. -/
theorem KeepsDirs.look_dir (kept : KeepsDirs before after) {path : Bytes}
    (found : before.look path = some .dir) : after.look path = some .dir := by
  obtain ⟨place, resolved, directory⟩ := Option.bind_eq_some_iff.mp found
  exact Option.bind_eq_some_iff.mpr ⟨place, kept.resolve resolved, kept.2 place directory⟩

/-- Only directories have been added. -/
structure Grown (before after : Disk) : Prop where
  cwd : after.cwd = before.cwd
  node : ∀ place, after.node place = before.node place ∨
    before.node place = none ∧ after.node place = some .dir

theorem Grown.refl (disk : Disk) : Grown disk disk := ⟨rfl, fun _ => .inl rfl⟩

/-- Creating directories takes none away. -/
theorem Grown.keepsDirs (grown : Grown before after) : KeepsDirs before after := by
  refine ⟨grown.cwd, fun place directory => ?_⟩
  rcases grown.node place with same | ⟨absent, _⟩
  · rw [same, directory]
  · rw [absent] at directory
    cases directory

/-- Creating directories leaves every file as it is. -/
theorem Grown.file_iff (grown : Grown before after) (place : List Bytes) (content : Bytes) :
    after.node place = some (.file content) ↔ before.node place = some (.file content) := by
  rcases grown.node place with same | ⟨absent, added⟩
  · rw [same]
  · simp only [absent, added, Option.some.injEq, reduceCtorEq]

/-- A path to a file still leads to it. -/
theorem Grown.look_file (grown : Grown before after) {path content : Bytes}
    (found : before.look path = some (.file content)) : after.look path = some (.file content) := by
  obtain ⟨there, resolved, stored⟩ := Option.bind_eq_some_iff.mp found
  exact Option.bind_eq_some_iff.mpr ⟨there, grown.keepsDirs.resolve resolved,
    (grown.file_iff there content).mpr stored⟩

/-- Directories created by one call after the other. -/
theorem Grown.trans {later : Disk} (first : Grown before after) (second : Grown after later) :
    Grown before later := by
  refine ⟨second.cwd.trans first.cwd, fun place => ?_⟩
  rcases second.node place with same | ⟨absent, added⟩
  · rw [same]
    exact first.node place
  · rcases first.node place with unchanged | ⟨_, present⟩
    · exact .inr ⟨unchanged ▸ absent, added⟩
    · rw [present] at absent
      cases absent

/-- A directory put where nothing stands. -/
theorem Grown.put_dir {disk : Disk} (absent : disk.node place = none) :
    Grown disk (disk.put place .dir) := by
  refine ⟨rfl, fun other => ?_⟩
  by_cases same : place = other
  · subst same
    exact .inr ⟨absent, node_put_self ..⟩
  · exact .inl (node_put_of_ne _ _ same)

/-- Entries have changed at the given places only; the directories are the same. -/
structure Touched (places : Set (List Bytes)) (before after : Disk) : Prop where
  keepsDirs : KeepsDirs before after
  node : ∀ place ∉ places, after.node place = before.node place
  noNewDirs : ∀ place, after.node place = some .dir → before.node place = some .dir

variable {places : Set (List Bytes)}

theorem Touched.refl (disk : Disk) : Touched places disk disk :=
  ⟨.refl _, fun _ _ => rfl, fun _ directory => directory⟩

/-- Files touched by one call after the other. -/
theorem Touched.trans {later : Disk} (first : Touched places before after)
    (second : Touched places after later) : Touched places before later :=
  ⟨first.keepsDirs.trans second.keepsDirs, fun place outside =>
    (second.node place outside).trans (first.node place outside),
    fun place directory => first.noNewDirs place (second.noNewDirs place directory)⟩

/-- More places may be touched. -/
theorem Touched.mono {more : Set (List Bytes)} (touched : Touched places before after)
    (larger : places ⊆ more) : Touched more before after :=
  ⟨touched.keepsDirs, fun place outside => touched.node place fun inside => outside (larger inside),
    touched.noNewDirs⟩

/-- Writing a file at one of the places. -/
theorem Touched.put {disk : Disk} (inside : place ∈ places) (free : disk.node place ≠ some .dir)
    (content : Bytes) : Touched places disk (disk.put place (.file content)) := by
  have others {other : List Bytes} (different : place ≠ other) :
      (disk.put place (.file content)).node other = disk.node other :=
    node_put_of_ne _ _ different
  refine ⟨⟨rfl, fun other directory => ?_⟩, fun other outside => ?_, fun other directory => ?_⟩
  · by_cases same : place = other
    · exact absurd (same ▸ directory) free
    · rw [others same, directory]
  · exact others fun same => outside (same ▸ inside)
  · by_cases same : place = other
    · rw [← same, node_put_self] at directory
      cases directory
    · rwa [others same] at directory

/-- Erasing a file at one of the places. -/
theorem Touched.erase {disk : Disk} (inside : place ∈ places) (free : disk.node place ≠ some .dir) :
    Touched places disk (disk.erase place) := by
  have others {other : List Bytes} (different : place ≠ other) :
      (disk.erase place).node other = disk.node other := node_erase_of_ne _ different
  refine ⟨⟨rfl, fun other directory => ?_⟩, fun other outside => ?_, fun other directory => ?_⟩
  · by_cases same : place = other
    · exact absurd (same ▸ directory) free
    · rw [others same, directory]
  · exact others fun same => outside (same ▸ inside)
  · by_cases same : place = other
    · rw [← same, node_erase_self] at directory
      cases directory
    · rwa [others same] at directory

/-- Paths lead where they led while the directories are the same. -/
theorem Touched.resolve (touched : Touched places before after) (path : Bytes) :
    after.resolve path = before.resolve path := by
  have back : KeepsDirs after before := ⟨touched.keepsDirs.1.symm, touched.noNewDirs⟩
  cases resolved : before.resolve path with
  | some place => exact touched.keepsDirs.resolve resolved
  | none =>
      cases later : after.resolve path with
      | none => rfl
      | some place =>
          rw [back.resolve later] at resolved
          cases resolved

/-- Outside the given files only directories have been added, at the given places; no
directory is gone. -/
structure Evolved (dirs files : Set (List Bytes)) (before after : Disk) : Prop where
  keepsDirs : KeepsDirs before after
  node : ∀ place ∉ files, after.node place = before.node place ∨
    place ∈ dirs ∧ before.node place = none ∧ after.node place = some .dir
  newDirs : ∀ place, after.node place = some .dir → before.node place = some .dir ∨ place ∈ dirs

variable {dirs files : Set (List Bytes)}

theorem Touched.evolved (touched : Touched files before after) : Evolved dirs files before after :=
  ⟨touched.keepsDirs, fun place outside => .inl (touched.node place outside),
    fun place directory => .inl (touched.noNewDirs place directory)⟩

theorem Evolved.refl (disk : Disk) : Evolved dirs files disk disk := (Touched.refl disk).evolved

/-- One change after the other. -/
theorem Evolved.trans {later : Disk} (first : Evolved dirs files before after)
    (second : Evolved dirs files after later) : Evolved dirs files before later := by
  refine ⟨first.keepsDirs.trans second.keepsDirs, fun place outside => ?_,
    fun place directory => ?_⟩
  · rcases second.node place outside with same | ⟨inside, absent, added⟩
    · rw [same]
      exact first.node place outside
    · rcases first.node place outside with unmoved | ⟨_, _, present⟩
      · exact .inr ⟨inside, unmoved ▸ absent, added⟩
      · rw [present] at absent
        cases absent
  · rcases second.newDirs place directory with earlier | inside
    · exact first.newDirs place earlier
    · exact .inr inside

/-- More files may be touched. -/
theorem Evolved.mono {more : Set (List Bytes)} (evolved : Evolved dirs files before after)
    (larger : files ⊆ more) : Evolved dirs more before after :=
  ⟨evolved.keepsDirs, fun place outside => evolved.node place fun inside => outside (larger inside),
    evolved.newDirs⟩

/-- Files outside the given ones are the same. -/
theorem Evolved.file_iff (evolved : Evolved dirs files before after) {place : List Bytes}
    (outside : place ∉ files) (content : Bytes) :
    after.node place = some (.file content) ↔ before.node place = some (.file content) := by
  rcases evolved.node place outside with same | ⟨_, absent, added⟩
  · rw [same]
  · simp only [absent, added, Option.some.injEq, reduceCtorEq]

/-- A path to a file outside the given ones still leads to it. -/
theorem Evolved.look_file (evolved : Evolved dirs files before after) {path content : Bytes}
    (outside : location before.cwd path ∉ files) (found : before.look path = some (.file content)) :
    after.look path = some (.file content) := by
  obtain ⟨place, resolved, stored⟩ := Option.bind_eq_some_iff.mp found
  rw [← location_of_resolve resolved] at outside
  exact Option.bind_eq_some_iff.mpr ⟨place, evolved.keepsDirs.resolve resolved,
    (evolved.file_iff outside content).mpr stored⟩

end Disk

namespace Fs

open FsPath

variable {host : Host} {machine : Machine}

/-- On a host without faults no call fails. -/
theorem not_fails (faultless : host.Faultless) {call written : Nat} {noticed : Bool}
    (fault : host.fault call = .fails written noticed) : False := by
  rw [faultless _] at fault
  cases fault

/-- The state after a call has been started. -/
def begun (machine : Machine) (paths : List Bytes) : Machine :=
  { machine with accesses := machine.accesses ++ paths, calls := machine.calls + 1 }

section Sequence

variable {β : Type} {post : Except Exn β → Machine → Prop}

theorem ends_begin {paths : List Bytes} {next : Fault → FsOp β}
    (rest : Ends (next (host.fault machine.calls)) (begun machine paths) post) :
    Ends (begin host paths >>= next) machine post := rest

theorem ends_ask {γ : Type} {answer : Nat → γ} {next : γ → FsOp β}
    (rest : Ends (next (answer machine.calls)) machine post) :
    Ends (ask answer >>= next) machine post := rest

theorem ends_disk {next : Disk → FsOp β} (rest : Ends (next machine.disk) machine post) :
    Ends (disk >>= next) machine post := rest

end Sequence

/-- A query gives what stands under the path, and changes nothing. -/
theorem status_ends (path : Bytes) :
    Ends (status host path) machine fun result final => final.disk = machine.disk ∧
      match result with
      | .ok entry => entry = machine.disk.look path
      | .error _ => ¬ host.Faultless := by
  unfold status
  apply ends_begin
  cases failing : host.fault machine.calls with
  | none => exact ⟨rfl, rfl⟩
  | fails written noticed =>
      refine ⟨rfl, fun faultless => ?_⟩
      rw [faultless _] at failing
      cases failing

/-- `exists` tells whether something stands under the path. -/
theorem exists_ends (path : Bytes) :
    Ends (exists_ host path) machine fun result final => final.disk = machine.disk ∧
      match result with
      | .ok found => found = (machine.disk.look path).isSome
      | .error _ => ¬ host.Faultless := by
  unfold exists_
  apply Ends.bind (status_ends path)
  · rintro entry final ⟨same, rfl⟩
    exact ⟨same, rfl⟩
  · exact fun _ _ failed => failed

theorem isDirectory_ends (path : Bytes) :
    Ends (isDirectory host path) machine fun _ final => final.disk = machine.disk :=
  Ends.bind (status_ends path) (fun _ _ ended => ended.1) fun _ _ ended => ended.1

/-- `file_size` gives the length of a file, and throws for everything else. -/
theorem fileSize_ends (path : Bytes) :
    Ends (fileSize host path) machine fun result final => final.disk = machine.disk ∧
      match result with
      | .ok size => ∃ content, machine.disk.look path = some (.file content) ∧ size = content.length
      | .error _ => ¬ host.Faultless ∨ ∀ content, machine.disk.look path ≠ some (.file content) := by
  unfold fileSize
  apply Ends.bind (status_ends path)
  · rintro entry final ⟨same, found⟩
    cases entry with
    | none => exact ⟨same, .inr fun content file => by rw [← found] at file; cases file⟩
    | some entry =>
        cases entry with
        | dir => exact ⟨same, .inr fun content file => by rw [← found] at file; cases file⟩
        | file content => exact ⟨same, content, found.symm, rfl⟩
  · exact fun _ _ failed => ⟨failed.1, .inl failed.2⟩

/-- One directory is created at most; a success means that it is there. -/
theorem createDirectory_ends (path : Bytes) :
    Ends (createDirectory host path) machine fun result final =>
      Disk.Grown machine.disk final.disk ∧ ∃ created, result = .ok created ∧
        (created = true → final.disk.look path = some .dir) := by
  unfold createDirectory
  apply ends_begin
  cases host.fault machine.calls with
  | fails written noticed => exact ⟨.refl _, false, rfl, nofun⟩
  | none =>
      apply ends_disk
      simp only [begun]
      cases resolved : machine.disk.resolve path with
      | none => exact ⟨.refl _, false, rfl, nofun⟩
      | some place =>
          dsimp only
          cases stored : machine.disk.node place with
          | none =>
              have grown := Disk.Grown.put_dir stored
              refine ⟨grown, true, rfl, fun _ => ?_⟩
              exact Option.bind_eq_some_iff.mpr
                ⟨place, grown.keepsDirs.resolve resolved, Disk.node_put_self ..⟩
          | some entry =>
              cases entry with
              | dir =>
                  refine ⟨.refl _, true, rfl, fun _ => ?_⟩
                  exact Option.bind_eq_some_iff.mpr ⟨place, resolved, stored⟩
              | file content => exact ⟨.refl _, false, rfl, nofun⟩

/-- The names of a path are free of slashes and NUL bytes. -/
theorem plain_components (path : Bytes) :
    ∀ name ∈ components (cString path), (47 : UInt8) ∉ name ∧ (0 : UInt8) ∉ name := by
  intro name member
  exact ⟨not_mem_of_mem_components member, fun zero =>
    not_mem_cString path (mem_of_mem_components member zero)⟩

/-- From the innermost name upwards: without the dots in front. -/
def inner (above : List Bytes) : List Bytes := above.dropWhile fun name => IsDots name

/-- An innermost name of dots is left out. -/
theorem inner_of_isDots {name : Bytes} (above : List Bytes) (dots : IsDots name) :
    inner (name :: above) = inner above := by
  unfold inner
  exact List.dropWhile_cons_of_pos (by simpa only [decide_eq_true_eq] using dots)

/-- With another innermost name nothing is left out. -/
theorem inner_of_not_isDots {name : Bytes} (above : List Bytes) (named : ¬ IsDots name) :
    inner (name :: above) = name :: above := by
  unfold inner
  exact List.dropWhile_cons_of_neg (by simpa only [decide_eq_true_eq] using named)

/-- An entry found behind dots shows that what the dots start from is a directory. -/
theorem look_inner {disk : Disk} {first : Bytes} {above : List Bytes} {entry : Node}
    (plain : ∀ name ∈ above, (0 : UInt8) ∉ name) (named : inner above ≠ [])
    (found : disk.look (render (first :: above).reverse) = some entry) :
    disk.look (render (inner above).reverse) = some .dir := by
  obtain ⟨name, rest, head⟩ := List.exists_cons_of_ne_nil named
  have notDots : ¬ IsDots name := by
    have kept := List.head_dropWhile_not (fun name => decide (IsDots name)) named
    simpa only [← show inner above = above.dropWhile _ from rfl, head, List.head_cons,
      decide_eq_false_iff_not] using kept
  have parts : first :: above = (first :: above.takeWhile fun name => IsDots name) ++ inner above := by
    rw [List.cons_append]
    exact congrArg _ List.takeWhile_append_dropWhile.symm
  rw [parts, List.reverse_append, render_append (List.reverse_ne_nil_iff.mpr named)
    (List.reverse_ne_nil_iff.mpr (List.cons_ne_nil _ _))] at found
  refine Disk.look_dir_of_slash ?_ ?_ found
  · rw [head, List.reverse_cons]
    exact render_concat_ne_nil _ fun empty => notDots (.inl empty)
  · refine not_mem_render (by decide) fun other member => plain other ?_
    exact (List.dropWhile_suffix _).subset (List.mem_reverse.mp member)

/-- Climbing changes nothing and puts further directories in front. The innermost name
is a directory, or among the directories to create. -/
theorem climb_ends {above : List Bytes} (plain : ∀ name ∈ above, (0 : UInt8) ∉ name)
    (missing : List (List Bytes)) :
    Ends (climb host above missing) machine fun result final => final.disk = machine.disk ∧
      ∃ found, result = .ok found ∧ ∀ names, found = some names →
        (∃ added, names = added ++ missing) ∧
        (inner above ≠ [] → machine.disk.look (render (inner above).reverse) = some .dir ∨
          (inner above).reverse ∈ names) := by
  induction above generalizing machine missing with
  | nil => exact ⟨rfl, _, rfl, fun names same => ⟨⟨[], (Option.some.inj same).symm⟩, nofun⟩⟩
  | cons first above ih =>
      have ih {machine : Machine} := @ih machine fun name member =>
        plain name (List.mem_cons_of_mem _ member)
      cases first with
      | nil =>
          rw [climb, inner_of_isDots above (.inl rfl)]
          refine Ends.ite (fun top => ?_) fun _ => ih missing
          subst top
          apply ends_begin
          cases host.fault machine.calls with
          | none => exact ⟨rfl, _, rfl, fun names same => ⟨⟨[], (Option.some.inj same).symm⟩, nofun⟩⟩
          | fails written noticed => exact ⟨rfl, _, rfl, nofun⟩
      | cons byte tail =>
          rw [climb]
          · apply ends_begin
            cases host.fault machine.calls with
            | fails written noticed => exact ⟨rfl, _, rfl, nofun⟩
            | none =>
                apply ends_disk
                dsimp only [begun]
                split
                · rename_i directory
                  refine ⟨rfl, _, rfl, fun names same => ⟨⟨[], (Option.some.inj same).symm⟩, ?_⟩⟩
                  intro some
                  left
                  by_cases dots : IsDots (byte :: tail)
                  · rw [inner_of_isDots above dots] at some ⊢
                    exact look_inner (fun name member => plain name (List.mem_cons_of_mem _ member))
                      some directory
                  · rw [inner_of_not_isDots above dots]
                    exact directory
                · exact ⟨rfl, _, rfl, nofun⟩
                · refine Ends.ite (fun dots => ?_) fun named => ?_
                  · rw [inner_of_isDots above (.inr dots)]
                    exact ih missing
                  · have notDots : ¬ IsDots (byte :: tail) := not_or.mpr ⟨nofun, named⟩
                    rw [inner_of_not_isDots above notDots]
                    refine (ih _).mono ?_
                    rintro result final ⟨same, found, ended, shape⟩
                    refine ⟨same, found, ended, fun names some => ?_⟩
                    obtain ⟨⟨added, split⟩, _⟩ := shape names some
                    subst split
                    refine ⟨⟨added ++ [((byte :: tail) :: above).reverse], by simp⟩, fun _ => .inr ?_⟩
                    exact List.mem_append_right _ (List.mem_cons_self ..)
          · exact nofun

/-- When the innermost name is a directory there is nothing to create. -/
theorem climb_settled {above : List Bytes} (missing : List (List Bytes))
    (settled : inner above ≠ [] → machine.disk.look (render (inner above).reverse) = some .dir) :
    Ends (climb host above missing) machine fun result final => final.disk = machine.disk ∧
      ∃ found, result = .ok found ∧ ∀ names, found = some names → names = missing := by
  induction above generalizing machine with
  | nil => exact ⟨rfl, _, rfl, fun names same => (Option.some.inj same).symm⟩
  | cons first above ih =>
      cases first with
      | nil =>
          rw [climb]
          rw [inner_of_isDots above (.inl rfl)] at settled
          refine Ends.ite (fun top => ?_) fun _ => ih settled
          apply ends_begin
          cases host.fault machine.calls with
          | none => exact ⟨rfl, _, rfl, fun names same => (Option.some.inj same).symm⟩
          | fails written noticed => exact ⟨rfl, _, rfl, nofun⟩
      | cons byte tail =>
          rw [climb]
          · apply ends_begin
            cases host.fault machine.calls with
            | fails written noticed => exact ⟨rfl, _, rfl, nofun⟩
            | none =>
                apply ends_disk
                dsimp only [begun]
                split
                · exact ⟨rfl, _, rfl, fun names same => (Option.some.inj same).symm⟩
                · exact ⟨rfl, _, rfl, nofun⟩
                · rename_i absent
                  refine Ends.ite (fun dots => ?_) fun named => ?_
                  · rw [inner_of_isDots above (.inr dots)] at settled
                    exact ih settled
                  · have notDots : ¬ IsDots (byte :: tail) := not_or.mpr ⟨nofun, named⟩
                    rw [inner_of_not_isDots above notDots] at settled
                    rw [settled (List.cons_ne_nil _ _)] at absent
                    cases absent
          · exact nofun

/-- All missing directories are created, or the call fails on the way. -/
theorem createAll_ends (missing : List (List Bytes)) :
    Ends (createAll host missing) machine fun result final =>
      Disk.Grown machine.disk final.disk ∧ ∃ created, result = .ok created ∧
        (created = true → ∀ names ∈ missing, final.disk.look (render names) = some .dir) := by
  induction missing generalizing machine with
  | nil => exact ⟨.refl _, true, rfl, fun _ _ member => absurd member List.not_mem_nil⟩
  | cons names rest ih =>
      rw [createAll]
      apply Ends.bind (createDirectory_ends (render names))
      · rintro created middle ⟨grown, _, same, directory⟩
        cases same
        cases created with
        | false => exact ⟨grown, false, rfl, nofun⟩
        | true =>
            refine ih.mono ?_
            rintro result final ⟨further, done, ended, all⟩
            refine ⟨grown.trans further, done, ended, fun complete other member => ?_⟩
            rcases List.mem_cons.mp member with rfl | member
            · exact further.keepsDirs.look_dir (directory rfl)
            · exact all complete other member
      · rintro thrown final ⟨_, _, same, _⟩
        cases same

/-- The system reads a path up to its first zero byte. -/
theorem look_cString (disk : Disk) (path : Bytes) : disk.look (cString path) = disk.look path := by
  unfold Disk.look Disk.resolve
  rw [cString_of_not_mem (not_mem_cString path)]

/-- The directories of a path have been created: its innermost name is a directory. -/
def Settled (disk : Disk) (path : Bytes) : Prop :=
  inner (components (cString path)).reverse ≠ [] →
    disk.look (render (inner (components (cString path)).reverse).reverse) = some .dir

/-- A settled path that ends in a name is a directory. -/
theorem Settled.look_dir {disk : Disk} {path : Bytes} (settled : Settled disk path)
    {front : List Bytes} {name : Bytes} (ends : components (cString path) = front ++ [name])
    (named : ¬ IsDots name) : disk.look path = some .dir := by
  have whole : inner (components (cString path)).reverse = (components (cString path)).reverse := by
    rw [ends, List.reverse_append, List.reverse_singleton, List.singleton_append,
      inner_of_not_isDots _ named]
  unfold Settled at settled
  rw [whole, List.reverse_reverse, render_components, look_cString] at settled
  exact settled (List.reverse_ne_nil_iff.mpr (components_ne_nil _))

/-- `create_directories` only adds directories; when it reports no error, the path is
settled. -/
theorem createDirectories_ends (path : Bytes) :
    Ends (createDirectories host path) machine fun result final =>
      Disk.Grown machine.disk final.disk ∧ ∃ created, result = .ok created ∧
        (created = true → Settled final.disk path) := by
  unfold createDirectories
  refine Ends.ite (fun _ => ⟨.refl _, false, rfl, nofun⟩) fun _ => ?_
  have plain : ∀ name ∈ (components (cString path)).reverse, (0 : UInt8) ∉ name :=
    fun name member => (plain_components path name (List.mem_reverse.mp member)).2
  apply Ends.bind (climb_ends plain [])
  · rintro found middle ⟨same, _, ended, shape⟩
    cases ended
    cases found with
    | none => exact ⟨same ▸ .refl _, false, rfl, nofun⟩
    | some missing =>
        refine (createAll_ends missing).mono ?_
        rintro result final ⟨grown, created, done, all⟩
        rw [same] at grown
        refine ⟨grown, created, done, fun complete named => ?_⟩
        rcases (shape missing rfl).2 named with present | member
        · exact grown.keepsDirs.look_dir present
        · exact all complete _ member
  · rintro thrown final ⟨_, _, ended, _⟩
    cases ended

/-- On a settled path `create_directories` changes nothing. -/
theorem createDirectories_settled {path : Bytes} (settled : Settled machine.disk path) :
    Ends (createDirectories host path) machine fun result final =>
      final.disk = machine.disk ∧ ∃ created, result = .ok created := by
  unfold createDirectories
  refine Ends.ite (fun _ => ⟨rfl, false, rfl⟩) fun _ => ?_
  apply Ends.bind (climb_settled [] settled)
  · rintro found middle ⟨same, _, ended, shape⟩
    cases ended
    cases found with
    | none => exact ⟨same, false, rfl⟩
    | some missing =>
        rw [shape missing rfl]
        exact ⟨same, true, rfl⟩
  · rintro thrown final ⟨_, _, ended, _⟩
    cases ended

/-- Only the directory the path names is created. -/
theorem createDirectory_places (path : Bytes) :
    Ends (createDirectory host path) machine fun _ final => final.disk.cwd = machine.disk.cwd ∧
      ∀ place ≠ location machine.disk.cwd path, final.disk.node place = machine.disk.node place := by
  unfold createDirectory
  apply ends_begin
  cases host.fault machine.calls with
  | fails written noticed => exact ⟨rfl, fun _ _ => rfl⟩
  | none =>
      apply ends_disk
      simp only [begun]
      cases resolved : machine.disk.resolve path with
      | none => exact ⟨rfl, fun _ _ => rfl⟩
      | some place =>
          have here := Disk.location_of_resolve resolved
          subst here
          dsimp only
          cases machine.disk.node (location machine.disk.cwd path) with
          | none => exact ⟨rfl, fun other different => Disk.node_put_of_ne _ _ (Ne.symm different)⟩
          | some entry =>
              cases entry with
              | dir => exact ⟨rfl, fun _ _ => rfl⟩
              | file content => exact ⟨rfl, fun _ _ => rfl⟩

/-- Only missing directories are created, each at the location of its path. -/
theorem createAll_places (missing : List (List Bytes)) :
    Ends (createAll host missing) machine fun _ final => final.disk.cwd = machine.disk.cwd ∧
      ∀ place, final.disk.node place = machine.disk.node place ∨
        ∃ names ∈ missing, place = location machine.disk.cwd (render names) := by
  induction missing generalizing machine with
  | nil => exact ⟨rfl, fun _ => .inl rfl⟩
  | cons names rest ih =>
      have first {middle : Machine} (unmoved : ∀ place ≠ location machine.disk.cwd (render names),
          middle.disk.node place = machine.disk.node place) (place : List Bytes) :
          middle.disk.node place = machine.disk.node place ∨
            ∃ other ∈ names :: rest, place = location machine.disk.cwd (render other) := by
        by_cases here : place = location machine.disk.cwd (render names)
        · exact .inr ⟨names, List.mem_cons_self .., here⟩
        · exact .inl (unmoved place here)
      rw [createAll]
      apply Ends.bind (createDirectory_places (render names))
      · rintro created middle ⟨cwd, unmoved⟩
        cases created with
        | false => exact ⟨cwd, first unmoved⟩
        | true =>
            refine ih.mono ?_
            rintro result final ⟨again, further⟩
            rw [cwd] at again further
            refine ⟨again, fun place => ?_⟩
            rcases further place with same | ⟨other, member, there⟩
            · rw [same]
              exact first unmoved place
            · exact .inr ⟨other, List.mem_cons_of_mem _ member, there⟩
      · rintro thrown final ⟨cwd, unmoved⟩
        exact ⟨cwd, first unmoved⟩

/-- The directories to create are given by their names. -/
theorem climb_names (above : List Bytes) (missing : List (List Bytes)) :
    Ends (climb host above missing) machine fun result _ => ∀ names found,
      result = .ok (some found) → names ∈ found → names ∈ missing ∨
        ∃ skipped name rest, above = skipped ++ name :: rest ∧ ¬ IsDots name ∧
          names = (name :: rest).reverse := by
  induction above generalizing machine missing with
  | nil =>
      rintro names found same member
      cases same
      exact .inl member
  | cons first above ih =>
      have skip {machine : Machine} : Ends (climb host above missing) machine fun result _ =>
          ∀ names found, result = .ok (some found) → names ∈ found → names ∈ missing ∨
            ∃ skipped name rest, first :: above = skipped ++ name :: rest ∧ ¬ IsDots name ∧
              names = (name :: rest).reverse := by
        refine (ih missing).mono fun result final shape names found same member => ?_
        rcases shape names found same member with old | ⟨skipped, name, rest, split, named, text⟩
        · exact .inl old
        · exact .inr ⟨first :: skipped, name, rest, by rw [split]; rfl, named, text⟩
      cases first with
      | nil =>
          rw [climb]
          refine Ends.ite (fun _ => ?_) fun _ => skip
          apply ends_begin
          cases host.fault machine.calls with
          | none =>
              rintro names found same member
              cases same
              exact .inl member
          | fails written noticed => exact nofun
      | cons byte tail =>
          rw [climb]
          · apply ends_begin
            cases host.fault machine.calls with
            | fails written noticed => exact nofun
            | none =>
                apply ends_disk
                split
                · rintro names found same member
                  cases same
                  exact .inl member
                · exact nofun
                · refine Ends.ite (fun _ => skip) fun named => ?_
                  refine (ih _).mono fun result final shape names found same member => ?_
                  rcases shape names found same member with old | ⟨skipped, name, rest, split, other⟩
                  · rcases List.mem_cons.mp old with rfl | old
                    · exact .inr ⟨[], _, above, rfl, not_or.mpr ⟨nofun, named⟩, rfl⟩
                    · exact .inl old
                  · exact .inr ⟨(byte :: tail) :: skipped, name, rest, by rw [split]; rfl, other⟩
          · exact nofun

/-- The places of the directories that a path goes through by name. -/
def passed (cwd : List Bytes) (path : Bytes) : Set (List Bytes) :=
  { place | ∃ front name back, components (cString path) = front ++ name :: back ∧ ¬ IsDots name ∧
    place = location cwd (render (front ++ [name])) }

/-- `create_directories` creates directories that the path goes through. -/
theorem createDirectories_places (path : Bytes) :
    Ends (createDirectories host path) machine fun _ final => ∀ place,
      final.disk.node place = machine.disk.node place ∨ place ∈ passed machine.disk.cwd path := by
  unfold createDirectories
  refine Ends.ite (fun _ _ => .inl rfl) fun _ => ?_
  have plain : ∀ name ∈ (components (cString path)).reverse, (0 : UInt8) ∉ name :=
    fun name member => (plain_components path name (List.mem_reverse.mp member)).2
  apply Ends.bind ((climb_ends plain []).and (climb_names _ []))
  · rintro found middle ⟨⟨same, _⟩, shape⟩
    cases found with
    | none => exact fun place => .inl (same ▸ rfl)
    | some missing =>
        refine (createAll_places missing).mono ?_
        rintro result final ⟨_, places⟩ place
        rw [same] at places
        rcases places place with unmoved | ⟨names, member, here⟩
        · exact .inl unmoved
        · rcases shape names missing rfl member with none | ⟨skipped, name, rest, split, named, rfl⟩
          · exact absurd none List.not_mem_nil
          · rw [List.reverse_eq_iff] at split
            refine .inr ⟨rest.reverse, name, skipped.reverse, ?_, named, ?_⟩
            · rw [split]
              simp
            · rw [here, List.reverse_cons]
  · rintro thrown final ⟨⟨_, _, ended, _⟩, _⟩
    cases ended

/-- `create_directories` creates directories on the way of the path only; a success leaves
all of them there. -/
theorem createDirectories_evolved (path : Bytes) :
    Ends (createDirectories host path) machine fun result final =>
      Disk.Evolved (passed machine.disk.cwd path) ∅ machine.disk final.disk ∧
      Disk.Grown machine.disk final.disk ∧
      ∃ created, result = .ok created ∧ (created = true → Settled final.disk path) := by
  refine ((createDirectories_ends path).and (createDirectories_places path)).mono ?_
  rintro result final ⟨⟨grown, ended⟩, places⟩
  refine ⟨⟨grown.keepsDirs, fun place _ => ?_, fun place directory => ?_⟩, grown, ended⟩
  · rcases grown.node place with same | ⟨absent, added⟩
    · exact .inl same
    · rcases places place with same | inside
      · exact .inl same
      · exact .inr ⟨inside, absent, added⟩
  · rcases places place with same | inside
    · exact .inl (same ▸ directory)
    · exact .inr inside

/-- A directory stands at every name that the path to a directory goes through. -/
theorem node_dir_of_base {disk : Disk} {root name : Bytes} (nonempty : root ≠ [])
    (plain : (0 : UInt8) ∉ root) (directory : disk.look root = some .dir) {front back : List Bytes}
    (named : ¬ IsDots name) (split : base root = (front ++ [name]) ++ back) :
    disk.node (location disk.cwd (render (front ++ [name]))) = some .dir := by
  apply Disk.node_location_of_look
  have start := render_concat_ne_nil front fun empty => named (.inl empty)
  rcases exists_append_of_base nonempty (by simp) split with same | ⟨rest, same⟩
  · rwa [← same]
  · rw [same] at directory plain
    exact Disk.look_dir_of_slash start (fun zero => plain (List.mem_append_left _ zero)) directory

/-- Below an existing directory a path goes through directories that are there or that
its names lead to. -/
theorem passed_join_render {disk : Disk} {root : Bytes} (nonempty : root ≠ [])
    (plain : (0 : UInt8) ∉ root) (directory : disk.look root = some .dir) {names : List Bytes}
    (valid : ∀ name ∈ names, IsName name) (some : names ≠ []) {place : List Bytes}
    (inside : place ∈ passed disk.cwd (join root (render names))) :
    disk.node place = Option.some .dir ∨
      ∃ taken, taken ≠ [] ∧ taken <+: names ∧ place = location disk.cwd root ++ taken := by
  obtain ⟨front, name, back, split, named, rfl⟩ := inside
  rw [cString_join_render plain valid, components_join_render nonempty valid some,
    List.append_cons] at split
  rcases List.append_eq_append_iff.mp split with ⟨taken, whole, rest⟩ | ⟨more, whole, rest⟩
  · have prefixed : taken <+: names := ⟨back, rest.symm⟩
    by_cases empty : taken = []
    · left
      rw [empty, List.append_nil] at whole
      exact node_dir_of_base nonempty plain directory named (by rw [whole, List.append_nil])
    · right
      have validTaken : ∀ other ∈ taken, IsName other :=
        fun other member => valid other (prefixed.subset member)
      refine ⟨taken, empty, prefixed, ?_⟩
      rw [whole, ← components_join_render nonempty validTaken empty, render_components,
        location_join_render nonempty plain validTaken]
  · left
    exact node_dir_of_base nonempty plain directory named whole

/-- Opening for writing empties the file or creates it; a failed open changes nothing. -/
theorem openTruncate_ends (path : Bytes) :
    Ends (openTruncate host path) machine fun result final => ∃ opened, result = .ok opened ∧
      if opened then machine.disk.node (location machine.disk.cwd path) ≠ some .dir ∧
        machine.disk.resolve path = some (location machine.disk.cwd path) ∧
        final.disk = machine.disk.put (location machine.disk.cwd path) (.file [])
      else final.disk = machine.disk := by
  unfold openTruncate
  apply ends_begin
  cases host.fault machine.calls with
  | fails written noticed => exact ⟨false, rfl, rfl⟩
  | none =>
      apply ends_disk
      simp only [begun]
      cases resolved : machine.disk.resolve path with
      | none => exact ⟨false, rfl, rfl⟩
      | some place =>
          have here := Disk.location_of_resolve resolved
          subst here
          exact Ends.ite (fun _ => ⟨false, rfl, rfl⟩) fun free => ⟨true, rfl, free, rfl, rfl⟩

/-- Appending to a file adds the data, or a front part of it on a failure. -/
theorem append_ends (path data : Bytes) :
    Ends (append host path data) machine fun result final => ∃ good, result = .ok good ∧
      ((∀ content, machine.disk.look path ≠ some (.file content)) ∧
          final.disk = machine.disk ∧ good = false ∨
        ∃ content written, machine.disk.look path = some (.file content) ∧
          final.disk = machine.disk.put (location machine.disk.cwd path)
            (.file (content ++ data.take written)) ∧
          (host.Faultless → good = true ∧ data.take written = data)) := by
  unfold append
  apply ends_begin
  apply ends_disk
  simp only [begun]
  cases resolved : machine.disk.resolve path with
  | none =>
      refine ⟨false, rfl, .inl ⟨fun content file => ?_, rfl, rfl⟩⟩
      rw [Disk.look, resolved] at file
      cases file
  | some place =>
      have here := Disk.location_of_resolve resolved
      subst here
      dsimp only
      split
      · rename_i content stored _
        refine ⟨true, rfl, .inr ⟨content, data.length, ?_, ?_, fun _ => ⟨rfl, List.take_length⟩⟩⟩
        · exact Option.bind_eq_some_iff.mpr ⟨_, resolved, stored⟩
        · rw [List.take_length]
      · rename_i content written noticed stored failing
        refine ⟨!noticed, rfl, .inr ⟨content, written, ?_, rfl, fun faultless => ?_⟩⟩
        · exact Option.bind_eq_some_iff.mpr ⟨_, resolved, stored⟩
        · rw [faultless _] at failing
          cases failing
      · rename_i noFile noFailedFile
        refine ⟨false, rfl, .inl ⟨fun content file => ?_, rfl, rfl⟩⟩
        obtain ⟨_, again, stored⟩ := Option.bind_eq_some_iff.mp file
        rw [resolved] at again
        cases again
        cases outcome : host.fault machine.calls with
        | none => exact noFile content stored outcome
        | fails written noticed => exact noFailedFile content written noticed stored outcome

/-- A rename moves one file to its target; one that throws changes nothing. -/
theorem rename_ends (source target : Bytes) :
    Ends (rename host source target) machine fun result final =>
      match result with
      | .ok _ => ∃ content, machine.disk.look source = some (.file content) ∧
          machine.disk.resolve target = some (location machine.disk.cwd target) ∧
          machine.disk.node (location machine.disk.cwd target) ≠ some .dir ∧
          final.disk = (machine.disk.erase (location machine.disk.cwd source)).put
            (location machine.disk.cwd target) (.file content)
      | .error _ => final.disk = machine.disk := by
  unfold rename
  apply ends_begin
  cases host.fault machine.calls with
  | fails written noticed => exact rfl
  | none =>
      apply ends_disk
      simp only [begun]
      split
      · rename_i origin place resolvedSource resolvedTarget
        split
        · rename_i content stored
          refine Ends.ite (fun _ => rfl) fun free => ?_
          have here := Disk.location_of_resolve resolvedSource
          have there := Disk.location_of_resolve resolvedTarget
          subst here there
          exact ⟨content, Option.bind_eq_some_iff.mpr ⟨_, resolvedSource, stored⟩,
            resolvedTarget, free, rfl⟩
        · exact rfl
      · exact rfl

/-- Removing takes the entry away if the path resolves. A directory may stay: one that is not
empty, or that its path does not name; and a path through a file is refused. -/
theorem remove_ends (path : Bytes) :
    Ends (remove host path) machine fun result final =>
      match result with
      | .ok _ => (machine.disk.resolve path = none ∧ final.disk = machine.disk) ∨
          machine.disk.resolve path = some (location machine.disk.cwd path) ∧
          final.disk = machine.disk.erase (location machine.disk.cwd path)
      | .error _ => final.disk = machine.disk ∧
          (host.removeFault machine.calls = false →
            machine.disk.resolve path = none ∨ machine.disk.look path = some .dir) := by
  unfold remove
  apply ends_ask
  apply ends_begin
  refine Ends.ite (fun failing => ⟨rfl, fun sound => ?_⟩) fun _ => ?_
  · rw [sound] at failing
    cases failing
  · apply ends_disk
    simp only [begun]
    cases resolved : machine.disk.resolve path with
    | none => exact Ends.ite (fun _ => ⟨rfl, fun _ => .inl rfl⟩) fun _ => .inl ⟨rfl, rfl⟩
    | some place =>
        have here := Disk.location_of_resolve resolved
        subst here
        refine Ends.ite (fun full => ⟨rfl, fun _ => .inr ?_⟩) fun _ => .inr ⟨rfl, rfl⟩
        exact Option.bind_eq_some_iff.mpr ⟨_, resolved, full.1⟩

/-- Listing a directory gives the names of its entries. -/
theorem list_ends (path : Bytes) :
    Ends (list host path) machine fun result final => final.disk = machine.disk ∧
      ((∃ names, result = .ok names ∧ machine.disk.look path = some .dir ∧
          names.Perm (machine.disk.names (location machine.disk.cwd path))) ∨
        (∃ thrown, result = .error thrown) ∧
          (host.Faultless → machine.disk.look path ≠ some .dir)) := by
  unfold list
  apply ends_ask
  apply ends_begin
  cases failing : host.fault machine.calls with
  | fails written noticed =>
      refine ⟨rfl, .inr ⟨⟨_, rfl⟩, fun faultless => ?_⟩⟩
      rw [faultless _] at failing
      cases failing
  | none =>
      apply ends_disk
      simp only [begun]
      cases resolved : machine.disk.resolve path with
      | none =>
          refine ⟨rfl, .inr ⟨⟨_, rfl⟩, fun _ directory => ?_⟩⟩
          rw [Disk.look, resolved] at directory
          cases directory
      | some place =>
          have here := Disk.location_of_resolve resolved
          subst here
          refine Ends.ite (fun directory => ?_) fun other => ?_
          · refine ⟨rfl, .inl ⟨_, rfl, ?_, host.order_perm ..⟩⟩
            exact Option.bind_eq_some_iff.mpr ⟨_, resolved, directory⟩
          · refine ⟨rfl, .inr ⟨⟨_, rfl⟩, fun _ directory => other ?_⟩⟩
            rw [Disk.look, resolved] at directory
            exact directory

end Fs

end Basis
