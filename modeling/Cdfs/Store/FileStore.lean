import Cdfs.Store.CryptoUtils

/-! # The file store

`file/filestore.cpp`. A file is written under a temporary name and renamed into place
(`Cdfs.FileStore.writeDisk`); an upload goes to a path made of the scene and the MD5 of
its content (`Cdfs.FileStore.saveFile`), a chunk to a path the client chooses
(`Cdfs.FileStore.saveFileAt`).
-/

namespace Cdfs

open Basis FsPath

/-- The settings of the store. Its constructor creates the root directory, so the path
is not empty; the temporary directory stands directly below it. -/
structure StoreConfig where
  rootDir : Bytes := bytes "./data/store"
  tempDir : Bytes := bytes "_tmp"
  allowExtensions : List Bytes :=
    [bytes ".jpg", bytes ".png", bytes ".txt", bytes ".pdf", bytes ".zip", bytes ".file"]
  rootDir_ne_nil : rootDir ≠ [] := by decide
  zero_not_mem_rootDir : (0 : UInt8) ∉ rootDir := by decide
  isName_tempDir : IsName tempDir := by decide

namespace FileStore

variable (host : Host) (digest : Bytes → Digest) (config : StoreConfig)

/-- `generate_temp_suffix`, appended to the path with its marker. -/
def tempPath (fullPath : Bytes) (number : Nat) : Bytes :=
  fullPath ++ (bytes ".tmp." ++ decimal number)

/-- The quick check of `write_disk`: the file is there with the right size. -/
def alreadyWritten (fullPath : Bytes) (size : Nat) : FsOp Bool := do
  if ← Fs.exists_ host fullPath then return (← Fs.fileSize host fullPath) = size
  else return false

/-- Remove a file of the wrong size; its size is then asked for once more, for the log. -/
def discard (fullPath : Bytes) : FsOp Bool := do
  Fs.remove host fullPath
  let _ ← Fs.fileSize host fullPath
  return false

/-- The check after renaming. -/
def verifyWritten (fullPath : Bytes) (size : Nat) : FsOp Bool := do
  let entry ← Fs.status host fullPath
  if entry.isSome then
    let written ← Fs.fileSize host fullPath
    if written = size then return true else discard host fullPath
  else discard host fullPath

/-- Write the temporary file and rename it. -/
def publish (temporary fullPath data : Bytes) : FsOp Bool := do
  if ← Fs.openTruncate host temporary then
    if ← Fs.append host temporary data then
      Fs.rename host temporary fullPath
      verifyWritten host fullPath data.length
    else
      Fs.remove host temporary
      return false
  else return false

/-- `write_disk`. -/
def writeDisk (fullPath data : Bytes) : FsOp Bool := do
  if ← alreadyWritten host fullPath data.length then return true
  else
    let _ ← Fs.createDirectories host (parentPath fullPath)
    let number ← Fs.randomNumber host
    tryCatch (publish host (tempPath fullPath number) fullPath data) fun _ => do
      Fs.remove host fullPath
      return false

/-- `save_file` of the data of a chunk at a path below the root directory. -/
def saveFileAt (data relPath : Bytes) : FsOp Bool := do
  if (find relPath (bytes "..") 0).isSome then return false
  else
    let fullPath := join config.rootDir relPath
    if ← Fs.createDirectories host (parentPath fullPath) then
      if ← writeDisk host fullPath data then return true
      else
        tryCatch (Fs.remove host fullPath) fun _ => return ⟨⟩
        return false
    else return false

/-- The path of a file relative to the directory of its scene. -/
def relPath (filename fileMd5 : Bytes) : Except Exn Bytes :=
  (md5ToRelPath fileMd5).map (· ++ extension filename)

/-- `save_file` of an upload: the path relative to the root directory, none when the
file could not be written. -/
def saveFile (filename data scene md5 : Bytes) : FsOp (Option Bytes) := do
  let fileMd5 := if md5.isEmpty then md5Hex digest data else md5
  match relPath filename fileMd5 with
  | .error thrown => throw thrown
  | .ok relPath =>
      let absFilePath := join (join config.rootDir scene) relPath
      if ← Fs.exists_ host absFilePath then return some (join scene relPath)
      else if ← Fs.createDirectories host (parentPath absFilePath) then
        if ← writeDisk host absFilePath data then return some (join scene relPath)
        else return none
      else return none

/-- A query of the library with an error code: none when it fails. -/
def quiet {α : Type} (query : FsOp α) : FsOp (Option α) :=
  tryCatch (return some (← query)) fun _ => return none

/-- `read_disk`: as many bytes as the file had when its size was asked for. -/
def readDisk (realPath : Bytes) : FsOp (Option Bytes) := do
  if (← quiet (Fs.exists_ host realPath)) ≠ some true then return none
  else if (← quiet (Fs.isRegularFile host realPath)) ≠ some true then return none
  else
    match ← quiet (Fs.fileSize host realPath) with
    | none => return none
    | some 0 => return some []
    | some size =>
        match ← Fs.openRead host realPath with
        | .opened (.file content) =>
            return if size ≤ content.length then some (content.take size) else none
        | _ => return none

/-- `get_file`. -/
def getFile (path : Bytes) : FsOp (Option Bytes) := do
  let fullPath := join config.rootDir path
  if ← Fs.exists_ host fullPath then
    if ← Fs.isRegularFile host fullPath then readDisk host fullPath else return none
  else return none

/-- The indices among the entries of a directory: the regular files whose names start
with a number. -/
def numberedFiles (directory : Bytes) : List Bytes → FsOp (List Int)
  | [] => return []
  | name :: rest => do
      let regular ← Fs.isRegularFile host (join directory name)
      let later ← numberedFiles directory rest
      match if regular then stoi name else none with
      | some index => return index :: later
      | none => return later

/-- `get_shard_index`. -/
def getShardIndex (fileDir : Bytes) : FsOp (List Int) := do
  if ← Fs.exists_ host fileDir then
    if ← Fs.isDirectory host fileDir then
      numberedFiles host fileDir (← Fs.list host fileDir)
    else return []
  else return []

end FileStore

end Cdfs
