import TieredVolume.Namespace.Walk

/-!
Opening, creating and removing by path. Every path starts at the directory `cwd` or at the root. A
refused creation gives back what it had allocated for the new file.
-/
namespace TieredVolume
namespace Namespace

open Volume Attempt

variable {n : Nat}

/-- Opens a file. -/
def openFile (path : String) (cwd : Sector) : Attempt n Sector := do
  match ← always (resolve cwd path) with
  | none => refuse .notFound
  | some (s, true) =>
    always (Inode.close s)
    refuse .isADirectory
  | some (s, false) => return s

/-- Opens a directory. -/
def openDirectory (path : String) (cwd : Sector) : Attempt n Sector := do
  match ← always (resolve cwd path) with
  | none => refuse .notFound
  | some (s, false) =>
    always (Inode.close s)
    refuse .notADirectory
  | some (s, true) => return s

/-- Opens the directory in front of a last name, which is `cwd` if nothing is there. -/
def openParent (dir : String) (cwd : Sector) : Attempt n Sector := do
  if dir = "" then
    always (Inode.open cwd)
    return cwd
  else openDirectory dir cwd

/-- What is to be created. -/
inductive NewNode where
  | file (size : Nat)
  | directory
  deriving DecidableEq, Repr

/-- Makes the inode of a new node, with its header at `s`. -/
def NewNode.make (s parent : Sector) : NewNode → Attempt n Unit
  | .file size => Inode.create s size parent
  | .directory => Directory.create s directorySlots parent

/-- Frees a new inode that found no place in its directory. -/
def discard (s : Sector) : VolumeM n Unit := do
  Inode.open s
  Inode.markRemoved s
  Inode.close s

/-- Creates a node and puts its name into a directory. -/
def createIn (dir : Sector) (name : String) (new : NewNode) : Attempt n Unit := do
  let s ← allocate 1
  onRefusal (new.make s dir) (release s 1)
  onRefusal (Directory.add dir name s (new = .directory)) (discard s)

/-- Creates a node at a path. -/
def createNode (path : String) (cwd : Sector) (new : NewNode) : Attempt n Unit := do
  match Path.parentFile path with
  | none => refuse .invalidName
  | some (dir, name) =>
    if !isValidName name || name = "." || name = ".." then refuse .invalidName
    let dir ← openParent dir cwd
    thenAlways (createIn dir name new) (Inode.close dir)

/-- Creates a file of `size` zeros. -/
def create (path : String) (size : Nat) (cwd : Sector) : Attempt n Unit :=
  createNode path cwd (.file size)

/-- Creates an empty directory. -/
def createDirectory (path : String) (cwd : Sector) : Attempt n Unit :=
  createNode path cwd .directory

/-- A directory that is open as a descriptor or is a working directory must stay. -/
def refuseInUse (entry : Entry) (node : Node) : Except Refusal Unit :=
  if entry.isDir && (0 < node.descriptors || 0 < node.cwdUsers) then .error .busy else .ok ()

/-- Removes a file or an empty directory. -/
def remove (path : String) (cwd : Sector) : Attempt n Unit := do
  match Path.parentFile path with
  | none => refuse (if Path.isAbsolute path then .busy else .notFound)
  | some (dir, name) =>
    let dir ← openParent dir cwd
    thenAlways (Directory.removeIf dir name refuseInUse) (Inode.close dir)

end Namespace
end TieredVolume
