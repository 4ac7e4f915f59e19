import TieredVolume.Proofs.Mount
import TieredVolume.Proofs.Namespace.Operations

/-!
Clients of a volume. A client holds handles of files and directories and calls the volume with them;
it never looks below. `Reached` are the clients that come of a freshly formatted volume by calls
that are allowed: with handles of the right kind, with no file larger than an index can be, and with
every directory counted as in use that is held while something is removed. `Comes` are those that
come of it by calls of any other kind, such as all that are possible or all that are careful.
-/
namespace TieredVolume

/-- What a client holds of an open inode. -/
structure Handle where
  sector : Sector
  isDir : Bool
  /-- How far the names of a directory are read. -/
  cursor : Nat := 0
  deriving DecidableEq

structure Client where
  volume : Volume cacheCapacity
  handles : List Handle := []

variable {n : Nat}

/-- The inodes that a volume has between two calls, as everyone sees them: those that have a place
below the root, and those that were removed while someone had them open. -/
def Volume.shelf (v : Volume n) : Shelf where
  live := {s | (∃ p b, treeOf v.view.file p = some (s, b)) ∨
    ∃ nd, v.view.node s = some nd ∧ nd.removed = true ∧ 0 < nd.openers}
  spare := ∅
  file := v.view.file
  node := v.view.node

/-- What is counted on an open inode. -/
inductive Mark where
  | denyWrite
  | allowWrite
  | attach
  | detach
  | enterCwd
  | leaveCwd
  deriving DecidableEq

namespace Mark

def run : Mark → Sector → VolumeM n Unit
  | denyWrite => Inode.denyWrite
  | allowWrite => Inode.allowWrite
  | attach => Inode.attach
  | detach => Inode.detach
  | enterCwd => Inode.enterCwd
  | leaveCwd => Inode.leaveCwd

/-- The node after the count. -/
def apply : Mark → Node → Node
  | denyWrite, nd => { nd with denials := nd.denials + 1 }
  | allowWrite, nd => { nd with denials := nd.denials - 1 }
  | attach, nd => { nd with descriptors := nd.descriptors + 1 }
  | detach, nd => { nd with descriptors := nd.descriptors - 1 }
  | enterCwd, nd => { nd with cwdUsers := nd.cwdUsers + 1 }
  | leaveCwd, nd => { nd with cwdUsers := nd.cwdUsers - 1 }

/-- What is taken back was done before. -/
def Matched : Mark → Node → Prop
  | allowWrite, nd => 0 < nd.denials
  | detach, nd => 0 < nd.descriptors
  | leaveCwd, nd => 0 < nd.cwdUsers
  | _, _ => True

/-- Only files are denied writing. -/
def Suits : Mark → Handle → Prop
  | denyWrite, h | allowWrite, h => h.isDir = false
  | _, _ => True

end Mark

/-- What a client can ask of a volume. -/
inductive Call where
  | root
  | create (path : String) (size : Nat) (cwd : Handle)
  | createDirectory (path : String) (cwd : Handle)
  | openFile (path : String) (cwd : Handle)
  | openDirectory (path : String) (cwd : Handle)
  | resolve (path : String) (cwd : Handle)
  | remove (path : String) (cwd : Handle)
  | readNext (dir : Handle)
  | readAt (file : Handle) (offset count : Nat)
  | writeAt (file : Handle) (offset : Nat) (bytes : Bytes)
  | grow (file : Handle) (size offset : Nat)
  | allocateAt (file : Handle) (offset : Nat)
  | length (file : Handle)
  | mark (mark : Mark) (handle : Handle)
  | clone (handle : Handle)
  | close (handle : Handle)
  | shutdown
  | flush
  | readAhead

inductive Answer where
  | done
  /-- A path that leads nowhere. -/
  | nothing
  | opened (handle : Handle)
  | name (name : Option String) (cursor : Nat)
  | bytes (bytes : Bytes)
  | count (count : Nat)
  | sector (sector : Sector)

namespace Call

open Attempt

/-- The operations behind the calls. The last two go on in the background. -/
def attempt : Call → Attempt n Answer
  | root => do
    always (Inode.open rootSector)
    return .opened ⟨rootSector, true, 0⟩
  | create path size cwd => do
    Namespace.create path size cwd.sector
    return .done
  | createDirectory path cwd => do
    Namespace.createDirectory path cwd.sector
    return .done
  | openFile path cwd => do
    let s ← Namespace.openFile path cwd.sector
    return .opened ⟨s, false, 0⟩
  | openDirectory path cwd => do
    let s ← Namespace.openDirectory path cwd.sector
    return .opened ⟨s, true, 0⟩
  | resolve path cwd => do
    match ← always (Namespace.resolve cwd.sector path) with
    | none => return .nothing
    | some (s, isDir) => return .opened ⟨s, isDir, 0⟩
  | remove path cwd => do
    Namespace.remove path cwd.sector
    return .done
  | readNext dir => do
    let (name, cursor) ← always (Directory.next dir.sector dir.cursor)
    return .name name cursor
  | readAt file offset count => do
    return .bytes (← always (Inode.readAt file.sector offset count))
  | writeAt file offset bytes => do
    return .count (← Inode.writeAt file.sector offset bytes)
  | grow file size offset => do
    Inode.grow file.sector size offset
    return .done
  | allocateAt file offset => do
    return .sector (← Inode.allocateAt file.sector offset)
  | length file => do
    return .count (← always (Inode.length file.sector))
  | mark m handle => do
    always (m.run handle.sector)
    return .done
  | clone handle => do
    always (Inode.open handle.sector)
    return .opened { handle with cursor := 0 }
  | close handle => do
    always (Inode.close handle.sector)
    return .done
  | shutdown => do
    always Volume.shutdown
    return .done
  | flush => do
    always (Volume.onCache Cache.flushAll)
    return .done
  | readAhead => do
    always (Volume.onCache Cache.serveReadAhead)
    return .done

/-- The handles that the client holds after the call. -/
def handles (held : List Handle) : Call → Except Refusal Answer → List Handle
  | close handle, .ok _ => held.erase handle
  | readNext dir, .ok (.name _ cursor) => { dir with cursor } :: held.erase dir
  | _, .ok (.opened handle) => handle :: held
  | _, _ => held

/-- The handle that a call is made with. -/
def handle? : Call → Option Handle
  | root | shutdown | flush | readAhead => none
  | create _ _ handle | createDirectory _ handle | openFile _ handle | openDirectory _ handle |
    resolve _ handle | remove _ handle | readNext handle | readAt handle _ _ | writeAt handle _ _ |
    grow handle _ _ | allocateAt handle _ | length handle | mark _ handle | clone handle |
    close handle => some handle

/-- What a client may ask for. A size or the end of a write never lies behind the last byte that an
index can reach, and while something is removed no directory is held that does not say so. -/
def Allowed (S : Shelf) (held : List Handle) : Call → Prop
  | root | shutdown | flush | readAhead => True
  | create _ size cwd => cwd ∈ held ∧ cwd.isDir = true ∧ size ≤ maxSectors * sectorSize
  | createDirectory _ cwd | openFile _ cwd | openDirectory _ cwd | resolve _ cwd | readNext cwd =>
    cwd ∈ held ∧ cwd.isDir = true
  | remove _ cwd => cwd ∈ held ∧ cwd.isDir = true ∧
    ∀ h ∈ held, h.isDir = true → h.sector ≠ rootSector → S.InUse h.sector
  | readAt file _ _ | length file => file ∈ held ∧ file.isDir = false
  | writeAt file offset bytes =>
    file ∈ held ∧ file.isDir = false ∧ offset + bytes.length ≤ maxSectors * sectorSize
  | grow file size offset =>
    file ∈ held ∧ file.isDir = false ∧ offset + size ≤ maxSectors * sectorSize
  | allocateAt file offset =>
    file ∈ held ∧ file.isDir = false ∧ offset ≤ maxSectors * sectorSize
  | mark m handle => handle ∈ held ∧ m.Suits handle
  | clone handle | close handle => handle ∈ held

/-- What makes a call one that a client can make at all: it holds the handles, they are of the kind
that the call is for, and bytes are written, and writing denied, only to files. -/
def Possible (held : List Handle) : Call → Prop
  | root | shutdown | flush | readAhead => True
  | create _ _ cwd | createDirectory _ cwd | openFile _ cwd | openDirectory _ cwd | resolve _ cwd |
    remove _ cwd | readNext cwd => cwd ∈ held ∧ cwd.isDir = true
  | writeAt file _ _ | grow file _ _ => file ∈ held ∧ file.isDir = false
  | mark m handle => handle ∈ held ∧ m.Suits handle
  | readAt handle _ _ | length handle | allocateAt handle _ | clone handle | close handle =>
    handle ∈ held

/-- No size and no end of a write lies behind the last byte that an index can reach. -/
def Bounded : Call → Prop
  | create _ size _ => size ≤ maxSectors * sectorSize
  | writeAt _ offset bytes => offset + bytes.length ≤ maxSectors * sectorSize
  | grow _ size offset => offset + size ≤ maxSectors * sectorSize
  | _ => True

/-- What is removed is no directory that is held without saying so. -/
def Counts (S : Shelf) (held : List Handle) (call : Call) : Prop :=
  ∀ path cwd, call = remove path cwd → ∀ c p, S.tree c = some (cwd.sector, true) →
    S.tree.placeOf c path = .ok p → ∀ h ∈ held, S.tree p = some (h.sector, true) → S.InUse h.sector

/-- A call of a careful client, which says which directories it holds. -/
def Careful (S : Shelf) (held : List Handle) (call : Call) : Prop :=
  call.Possible held ∧ call.Counts S held

/-- A call of a client that says which directories it holds, but takes no care otherwise: it may
write bytes, and deny writing, to directories as well as to files. -/
def Heedless (S : Shelf) (held : List Handle) (call : Call) : Prop :=
  (∀ h, call.handle? = some h → h ∈ held) ∧ call.Counts S held

/-- A call by which inodes are named, opened, closed and counted as in use. Nothing asks the client
to count what it holds. -/
def Naming (held : List Handle) : Call → Prop
  | root | shutdown | flush | readAhead => True
  | create _ _ cwd | createDirectory _ cwd | openFile _ cwd | openDirectory _ cwd | resolve _ cwd |
    remove _ cwd => cwd ∈ held ∧ cwd.isDir = true
  | mark m handle => handle ∈ held ∧ m ≠ .denyWrite ∧ m ≠ .allowWrite
  | clone handle | close handle => handle ∈ held
  | readNext _ | readAt .. | writeAt .. | grow .. | allocateAt .. | length _ => False

/-- A new name finds a slot in the directory that it is for. -/
def NameFits (S : Shelf) (path : String) (cwd : Handle) : Prop :=
  ∀ c name q d, S.tree c = some (cwd.sector, true) → S.tree.placeFor c path = .ok (name :: q) →
    S.tree q = some (d, true) → S.tree (name :: q) = none → HasRoom (S.bytes d)

/-- When a call surely does not end in a fault: a directory is not made longer than an index can
reach, and what is taken back was done before. -/
def Fits (S : Shelf) : Call → Prop
  | create path _ cwd | createDirectory path cwd => NameFits S path cwd
  | allocateAt _ offset => offset < maxSectors * sectorSize
  | mark m handle => ∀ nd, S.node handle.sector = some nd → m.Matched nd
  | _ => True

end Call

namespace Client

def shelf (c : Client) : Shelf := c.volume.shelf

/-- The clients that come of a fresh volume by calls that are allowed. -/
inductive Reached : Client → Prop where
  | mount {device : Device} {options : MountOptions} {volume : Volume cacheCapacity} :
    device.Sound → device.blockCount < sectorLimit → options.format = true →
    Volume.mount device options = .ok (.ok volume) → Reached { volume }
  | call {c : Client} {call : Call} {answer : Except Refusal Answer}
    {volume : Volume cacheCapacity} :
    Reached c → call.Allowed c.shelf c.handles → call.attempt.run c.volume = .ok answer volume →
    Reached { volume, handles := call.handles c.handles answer }

/-- The clients that come of a fresh volume by calls of some kind, as long as none ends in a
fault. -/
inductive Comes (kind : Shelf → List Handle → Call → Prop) : Client → Prop where
  | mount {device : Device} {options : MountOptions} {volume : Volume cacheCapacity} :
    device.Sound → device.blockCount < sectorLimit → options.format = true →
    Volume.mount device options = .ok (.ok volume) → Comes kind { volume }
  | call {c : Client} {call : Call} {answer : Except Refusal Answer}
    {volume : Volume cacheCapacity} :
    Comes kind c → kind c.shelf c.handles call → call.attempt.run c.volume = .ok answer volume →
    Comes kind { volume, handles := call.handles c.handles answer }

end Client
end TieredVolume
