import Cdfs.Basis.Effect
import Cdfs.Basis.FsPath
import Cdfs.Basis.OrderedMap

/-! # A file system

A tree of directories and regular files, addressed by locations, and the calls of
`std::filesystem` and the file streams on it. A call resolves its path through existing
directories, notes the path in the log of accesses, and may fail for reasons of its
own: `Basis.Host` says for every call in turn whether it fails, and supplies random
numbers and the order in which directories are read.
-/

namespace Basis

/-- An entry of the tree. -/
inductive Node where
  | dir
  | file (content : Bytes)
  deriving DecidableEq, Repr

/-- The tree and the working directory. -/
structure Disk where
  cwd : List Bytes
  tree : OrderedMap (List Bytes) Node

/-- How a call ends: as the tree has it, or with a failure, whatever the reason: a device
that is full, a missing permission, a name longer than the system takes. A failing write has
written some bytes and may be noticed only when the file is closed. -/
inductive Fault where
  | none
  | fails (written : Nat) (noticed : Bool)
  deriving DecidableEq, Repr

/-- What the calls depend on besides the tree, by the number of the call. The tree itself sets
no limit to the length of a name: a call whose path is too long is one that fails. -/
structure Host where
  fault : Nat → Fault
  /-- The call that removes fails. -/
  removeFault : Nat → Bool
  /-- What a failing recursive removal has removed below the directory. -/
  removedFirst : Nat → List Bytes → Bool
  /-- A random number below 900000. -/
  random : Nat → Fin 900000
  /-- The order in which the entries of a directory are read. -/
  order : Nat → List Bytes → List Bytes
  order_perm : ∀ call names, (order call names).Perm names

/-- No call fails, so no path is too long either. -/
structure Host.Reliable (host : Host) : Prop where
  fault : ∀ call, host.fault call = .none
  removeFault : ∀ call, host.removeFault call = false

/-- No call fails, removals apart. -/
def Host.Faultless (host : Host) : Prop := ∀ call, host.fault call = .none

/-- An exception: of the file system library with its paths, or another one with its
message. -/
inductive Exn where
  | filesystem (paths : List Bytes)
  | other (what : Bytes)
  deriving DecidableEq, Repr

/-- The message of an exception; that of the file system library ends in its paths. -/
def Exn.what : Exn → Bytes
  | .filesystem paths => bytes "filesystem error" ++ paths.flatMap fun path =>
      bytes " [" ++ (path ++ bytes "]")
  | .other what => what

/-- What opening for reading gives. -/
inductive Opened where
  | opened (entry : Node)
  | notFound
  | failed
  deriving DecidableEq, Repr

/-- The state the calls work on. -/
structure Machine where
  disk : Disk
  accesses : List Bytes := []
  calls : Nat := 0

/-- A computation that makes file system calls. -/
abbrev FsOp := EStateM Exn Machine

namespace Disk

open FsPath

/-- The entry at a location. -/
def node (disk : Disk) (place : List Bytes) : Option Node := disk.tree.get place

/-- Follow components; every location gone through is a directory. -/
def walk (disk : Disk) : List Bytes → List Bytes → Option (List Bytes)
  | place, [] => some place
  | place, name :: rest =>
      if disk.node place = some .dir then disk.walk (enter place name) rest else none

/-- The location a path leads to; the last component need not exist. -/
def resolve (disk : Disk) (path : Bytes) : Option (List Bytes) :=
  if cString path = [] then none
  else disk.walk (if isAbsolute (cString path) then [] else disk.cwd) (components (cString path))

/-- The entry a path leads to. -/
def look (disk : Disk) (path : Bytes) : Option Node := (disk.resolve path).bind disk.node

/-- Following the components fails at a file that is used as a directory. -/
def stuck (disk : Disk) : List Bytes → List Bytes → Bool
  | _, [] => false
  | place, name :: rest =>
      match disk.node place with
      | some .dir => disk.stuck (enter place name) rest
      | some (.file _) => true
      | none => false

/-- The path uses a file as a directory. -/
def blocked (disk : Disk) (path : Bytes) : Bool :=
  disk.stuck (if isAbsolute (cString path) then [] else disk.cwd) (components (cString path))

/-- Change an entry. -/
def put (disk : Disk) (place : List Bytes) (entry : Node) : Disk :=
  { disk with tree := disk.tree.put place entry }

/-- Remove an entry. -/
def erase (disk : Disk) (place : List Bytes) : Disk :=
  { disk with tree := disk.tree.erase place }

/-- Remove what is below a place. -/
def emptied (disk : Disk) (place : List Bytes) : Disk :=
  { disk with tree := disk.tree.filterKeys fun other => !(place.isPrefixOf other && other != place) }

/-- The names of the entries of a directory. -/
def names (disk : Disk) (place : List Bytes) : List Bytes :=
  disk.tree.entries.filterMap fun entry =>
    if entry.1.dropLast = place ∧ entry.1 ≠ [] then entry.1.getLast? else none

end Disk

namespace Fs

open FsPath

variable (host : Host)

/-- Start a call: note the paths and see whether it fails. -/
def begin (paths : List Bytes) : FsOp Fault := fun machine =>
  .ok (host.fault machine.calls)
    { machine with accesses := machine.accesses ++ paths, calls := machine.calls + 1 }

/-- What the host has for this call. -/
def ask {α : Type} (answer : Nat → α) : FsOp α := fun machine => .ok (answer machine.calls) machine

/-- The tree as it is now. -/
def disk : FsOp Disk := fun machine => .ok machine.disk machine

/-- Replace the tree. -/
def setDisk (disk : Disk) : FsOp PUnit := fun machine => .ok ⟨⟩ { machine with disk }

/-- `status`: the entry, if there is one. -/
def status (path : Bytes) : FsOp (Option Node) := do
  match ← begin host [path] with
  | .none => return (← disk).look path
  | .fails _ _ => throw (.filesystem [path])

/-- `exists`. -/
def exists_ (path : Bytes) : FsOp Bool := return (← status host path).isSome

/-- `is_directory`. -/
def isDirectory (path : Bytes) : FsOp Bool := return (← status host path) = some .dir

/-- `is_regular_file`. -/
def isRegularFile (path : Bytes) : FsOp Bool := do
  match ← status host path with
  | some (.file _) => return true
  | _ => return false

/-- `file_size`; it throws unless there is a regular file. -/
def fileSize (path : Bytes) : FsOp Nat := do
  match ← status host path with
  | some (.file content) => return content.length
  | _ => throw (.filesystem [path])

/-- `create_directory`: false on an error; an existing directory is none. -/
def createDirectory (path : Bytes) : FsOp Bool := do
  match ← begin host [path] with
  | .fails _ _ => return false
  | .none =>
      let now ← disk
      match now.resolve path with
      | none => return false
      | some place =>
          match now.node place with
          | some .dir => return true
          | some (.file _) => return false
          | none => do
              setDisk (now.put place .dir)
              return true

/-- The directories to create for a path given by its components in reverse, outermost
first; none on an error. Climbs to the first directory that exists. -/
def climb : List Bytes → List (List Bytes) → FsOp (Option (List (List Bytes)))
  | [], missing => return some missing
  | [] :: above, missing => do
      if above = [] then
        match ← begin host [[47]] with
        | .none => return some missing
        | .fails _ _ => return none
      else climb above missing
  | name :: above, missing => do
      match ← begin host [render (name :: above).reverse] with
      | .fails _ _ => return none
      | .none =>
          match (← disk).look (render (name :: above).reverse) with
          | some .dir => return some missing
          | some (.file _) => return none
          | none =>
              if name = [46] ∨ name = [46, 46] then climb above missing
              else climb above ((name :: above).reverse :: missing)

/-- Create the directories in turn. -/
def createAll : List (List Bytes) → FsOp Bool
  | [] => return true
  | names :: rest => do
      if ← createDirectory host (render names) then createAll rest else return false

/-- `create_directories`: false on an error. -/
def createDirectories (path : Bytes) : FsOp Bool := do
  if cString path = [] then return false
  else
    match ← climb host (components (cString path)).reverse [] with
    | none => return false
    | some missing => createAll host missing

/-- Open a file for writing, emptying it; false when it is not opened. -/
def openTruncate (path : Bytes) : FsOp Bool := do
  match ← begin host [path] with
  | .fails _ _ => return false
  | .none =>
      let now ← disk
      match now.resolve path with
      | none => return false
      | some place =>
          if now.node place = some .dir then return false
          else do
            setDisk (now.put place (.file []))
            return true

/-- Append to an opened file; false when a failure is noticed. -/
def append (path data : Bytes) : FsOp Bool := do
  let outcome ← begin host [path]
  let now ← disk
  match now.resolve path with
  | none => return false
  | some place =>
      match now.node place, outcome with
      | some (.file content), .none => do
          setDisk (now.put place (.file (content ++ data)))
          return true
      | some (.file content), .fails written noticed => do
          setDisk (now.put place (.file (content ++ data.take written)))
          return !noticed
      | _, _ => return false

/-- Open an entry for reading. A directory opens too, though nothing can be read from it. -/
def openRead (path : Bytes) : FsOp Opened := do
  match ← begin host [path] with
  | .fails _ _ => return .failed
  | .none =>
      let now ← disk
      match now.look path with
      | some entry => return .opened entry
      | none => return if now.blocked path then .failed else .notFound

/-- `rename` of a file; a file at the target is replaced. -/
def rename (source target : Bytes) : FsOp PUnit := do
  match ← begin host [source, target] with
  | .fails _ _ => throw (.filesystem [source, target])
  | .none =>
      let now ← disk
      match now.resolve source, now.resolve target with
      | some origin, some place =>
          match now.node origin with
          | some (.file content) =>
              if now.node place = some .dir then throw (.filesystem [source, target])
              else setDisk ((now.erase origin).put place (.file content))
          | _ => throw (.filesystem [source, target])
      | _, _ => throw (.filesystem [source, target])

/-- `remove`: a file or an empty directory; nothing there is no error. -/
def remove (path : Bytes) : FsOp PUnit := do
  let failing ← ask host.removeFault
  let _ ← begin host [path]
  if failing then throw (.filesystem [path])
  else
    let now ← disk
    match now.resolve path with
    | none => if now.blocked path then throw (.filesystem [path]) else return ⟨⟩
    | some place =>
        if now.node place = some .dir ∧ (now.names place ≠ [] ∨ removable path = false) then
          throw (.filesystem [path])
        else setDisk (now.erase place)

/-- `remove_all`: what is below the directory, then the directory as in `remove`. A path that
leads through what has been removed is not found then, which is no error. -/
def removeAll (path : Bytes) : FsOp PUnit := do
  let failing ← ask host.removeFault
  let first ← ask host.removedFirst
  let _ ← begin host [path]
  let now ← disk
  match now.resolve path with
  | none => if now.blocked path then throw (.filesystem [path]) else return ⟨⟩
  | some place =>
      if failing then do
        setDisk { now with tree := now.tree.filterKeys fun other =>
          !(place.isPrefixOf other && other != place && first other) }
        throw (.filesystem [path])
      else do
        let left := now.emptied place
        setDisk left
        match left.resolve path with
        | none => return ⟨⟩
        | some place =>
            if removable path then setDisk (left.erase place) else throw (.filesystem [path])

/-- `directory_iterator`: the names of the entries in some order. -/
def list (path : Bytes) : FsOp (List Bytes) := do
  let order ← ask host.order
  match ← begin host [path] with
  | .fails _ _ => throw (.filesystem [path])
  | .none =>
      let now ← disk
      match now.resolve path with
      | none => throw (.filesystem [path])
      | some place =>
          if now.node place = some .dir then return order (now.names place)
          else throw (.filesystem [path])

/-- A random number between 100000 and 999999. -/
def randomNumber : FsOp Nat := do
  let number ← ask host.random
  let _ ← begin host []
  return 100000 + number.val

end Fs

end Basis
