import Mathlib.Data.PNat.Basic
import Ice.IcePatch2.Disk
import Ice.Lib.Transition

/-!
# Patching

A patch session of the client: `prepare` compares the saved list with the one of the server,
`patch` removes and updates what is below a directory, and `finish` saves the list. The files that
are received are decompressed before `updateFiles` returns.
-/

namespace Ice.IcePatch2

/-- The data directory of a server, with the listed files only -/
structure ServerTree where
  disk : Disk
  nodup : (disk.map Prod.fst).Nodup
  formed : Formed disk

/-- What a patcher works with -/
structure Session where
  server : ServerTree
  remove : Int
  localFiles : List LargeFileInfo
  removeFiles : List LargeFileInfo
  updateFiles : List LargeFileInfo
  updateFlags : List LargeFileInfo

/-- The data directory, the list that is saved in it, and the session -/
structure World where
  disk : Disk
  saved : List LargeFileInfo
  session : Option Session := none

section

variable (sha1 : List Byte → List Byte) (sizeBZ2 : List Byte → ℕ+)

/-- The record of a file or directory, with the size of the compressed file -/
def fileInfo (path : Path) : Item → LargeFileInfo
  | .directory => { path, checksum := digest sha1 path, size := -1, executable := false }
  | .regular content executable =>
    { path
      checksum := digest sha1 (path ++ content)
      size := if content = [] then 0 else (sizeBZ2 content : Nat)
      executable }

/-- The list of the server -/
def fileList (tree : ServerTree) : List LargeFileInfo :=
  Lib.unique LargeFileInfo.fileInfoEqual
    (Lib.sort LargeFileInfo.fileInfoLess (tree.disk.map fun e => fileInfo sha1 sizeBZ2 e.1 e.2))

/-- What `getLargeFileInfoSeq` returns, sorted -/
def serverFiles (tree : ServerTree) (node : Byte) : List LargeFileInfo :=
  Lib.unique LargeFileInfo.fileInfoEqual
    (Lib.sort LargeFileInfo.fileInfoLess
      ((getFileTree0 sha1 (fileList sha1 sizeBZ2 tree)).nodes node).files)

/-- The nodes for which the files of the server are compared with the local ones -/
def differing (localFiles : List LargeFileInfo) (server : ServerTree) : List Byte :=
  let tree0 := getFileTree0 sha1 localFiles
  let serverTree := getFileTree0 sha1 (fileList sha1 sizeBZ2 server)
  if tree0.checksum = serverTree.checksum then []
  else (List.finRange 256).filter fun i => (tree0.nodes i).checksum ≠ (serverTree.nodes i).checksum

/-- The loop over the nodes, followed by `sort` -/
def collectDifferences (localFiles : List LargeFileInfo) (server : ServerTree)
    (differences : List LargeFileInfo → List LargeFileInfo → List LargeFileInfo) :
    List LargeFileInfo :=
  Lib.sort LargeFileInfo.fileInfoLess
    ((differing sha1 sizeBZ2 localFiles server).flatMap fun i =>
      differences ((getFileTree0 sha1 localFiles).nodes i).files
        (serverFiles sha1 sizeBZ2 server i))

open LargeFileInfo Lib in
/-- `PatcherI::prepare` of a new patcher, with the list that was saved -/
def prepare (localFiles : List LargeFileInfo) (server : ServerTree) (remove : Int) : Session :=
  let collectAll := collectDifferences sha1 sizeBZ2 localFiles server
  { server
    remove
    localFiles
    removeFiles := collectAll fun mine files => setDifference fileInfoWithoutFlagsLess mine files
    updateFiles := collectAll fun mine files => setDifference fileInfoWithoutFlagsLess files mine
    updateFlags := collectAll fun mine files =>
      setDifference fileInfoLess (setDifference fileInfoLess files mine)
        (setDifference fileInfoWithoutFlagsLess files mine) }

end

section

open LargeFileInfo Lib

variable (s : Session)

/-- The loop of `removeFiles`, from the end of the list -/
def removeAll (files : List LargeFileInfo) (disk : Disk) : Option Disk :=
  files.reverse.foldlM (fun disk p =>
    match disk.remove p.path with
    | some disk => some disk
    | none => if s.remove < 2 then none else some disk) disk

/-- `PatcherI::removeFiles` -/
def removeFiles (files : List LargeFileInfo) (disk : Disk) : Option (Session × Disk) :=
  if s.remove < 1 then some (s, disk)
  else do
    let disk ← removeAll s files disk
    some ({ s with
      localFiles := setDifference fileInfoLess s.localFiles files
      removeFiles := setDifference fileInfoLess s.removeFiles files }, disk)

/-- The loop of `updateFilesInternal`, for one record -/
def updateFile (server : ServerTree) (disk : Disk) (p : LargeFileInfo) : Option Disk :=
  if p.size < 0 then disk.createDirectoryRecursive p.path
  else if p.size = 0 then disk.openFile p.path
  else
    match server.disk.get p.path with
    | some (.regular content _) => disk.decompress p.path content p.executable
    | _ => none

/-- `PatcherI::updateFiles` -/
def updateFiles (files : List LargeFileInfo) (disk : Disk) : Option (Session × Disk) := do
  let disk ← files.foldlM (updateFile s.server) disk
  some ({ s with
    localFiles := setUnion fileInfoLess s.localFiles files
    updateFiles := setDifference fileInfoLess s.updateFiles files }, disk)

/-- `PatcherI::updateFlags` -/
def updateFlags (files : List LargeFileInfo) (disk : Disk) : Option (Session × Disk) := do
  let disk ← files.foldlM
    (fun disk p => if 0 ≤ p.size then disk.setFileFlags p.path p.executable else some disk) disk
  some ({ s with
    localFiles := setUnion fileInfoLess
      (setDifference fileInfoWithoutFlagsLess s.localFiles files) files
    updateFlags := setDifference fileInfoLess s.updateFlags files }, disk)

/-- What `patch` is about: everything, or what its comparisons find -/
def picks (d : Path) (path : Path) : Bool :=
  let dir := simplify d
  let dirWithSlash := simplify (dir ++ [slash])
  dir = [] ∨ dir = [dot] ∨ path = dir ∨ dirWithSlash <+: path

/-- `PatcherI::patch` -/
def patch (d : Path) (disk : Disk) : Option (Session × Disk) := do
  let remove := s.removeFiles.filter fun p => picks d p.path
  let update := s.updateFiles.filter fun p => picks d p.path
  let updateFlag := s.updateFlags.filter fun p => picks d p.path
  let (s, disk) ← if remove = [] then some (s, disk) else removeFiles s remove disk
  let (s, disk) ← if update = [] then some (s, disk) else updateFiles s update disk
  if updateFlag = [] then some (s, disk) else updateFlags s updateFlag disk

end

/-- What the client does -/
inductive PatchAction
  | prepare (server : ServerTree) (remove : Int)
  | patch (d : Path)
  | finish

/-- What throws an exception is no step. -/
def patchStep (sha1 : List Byte → List Byte) (sizeBZ2 : List Byte → ℕ+) (w : World) :
    PatchAction → Option World
  | .prepare server remove =>
    match w.session with
    | none => some { w with session := some (prepare sha1 sizeBZ2 w.saved server remove) }
    | some _ => none
  | .patch d =>
    match w.session with
    | none => none
    | some s => (patch s d w.disk).map fun (s, disk) => { w with disk, session := some s }
  | .finish =>
    match w.session with
    | none => none
    | some s => some { w with saved := s.localFiles, session := none }

end Ice.IcePatch2
