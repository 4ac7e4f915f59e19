import TieredVolume.Volume

/-!
Open inodes and their records. An open inode goes by the sector of its header. The first load reads
the record from the cache, the last to end writes it back, and in between all who have the inode
open see the same record.
-/
namespace TieredVolume
namespace Inode

open Volume

variable {n : Nat} {α : Type}

/-- What is known of an open inode. -/
def node (s : Sector) : VolumeM n Node := do
  match (← get).table.find? s with
  | some node => return node
  | none => throw .notOpen

def setNode (s : Sector) (node : Node) : VolumeM n Unit := modify fun v =>
  { v with table := v.table.insert s node }

def updateNode (s : Sector) (f : Node → Node) : VolumeM n Unit := do
  setNode s (f (← node s))

/-- Opens an inode once more. The sector is not read. -/
def «open» (s : Sector) : VolumeM n Unit := do
  let node := ((← get).table.find? s).getD {}
  setNode s { node with openers := node.openers + 1 }

def isOpen (s : Sector) : VolumeM n Bool := do
  return ((← get).table.find? s).isSome

def load (s : Sector) : VolumeM n Unit := do
  let node ← node s
  match node.loaded with
  | some l => setNode s { node with loaded := some { l with nested := l.nested + 1 } }
  | none =>
    let record ← onCache (fetch s)
    setNode s { node with loaded := some { record } }

/-- Ends a load. -/
def unload (s : Sector) : VolumeM n Unit := do
  let node ← node s
  match node.loaded with
  | none => throw .notLoaded
  | some { nested := 0, record } =>
    setNode s { node with loaded := none }
    onCache (store s record)
  | some { nested := k + 1, record } =>
    setNode s { node with loaded := some { nested := k, record } }

/-- The record of a loaded inode. -/
def record (s : Sector) : VolumeM n Record := do
  match (← node s).loaded with
  | some l => return l.record
  | none => throw .notLoaded

/-- Changes the record of a loaded inode. -/
def updateRecord (s : Sector) (f : Record → Except Fault Record) : VolumeM n Unit := do
  let node ← node s
  match node.loaded with
  | some l =>
    let record ← ofExcept (f l.record)
    setNode s { node with loaded := some { l with record } }
  | none => throw .notLoaded

/-- Runs `body` while the inode is loaded. -/
def withLoaded (s : Sector) (body : VolumeM n α) : VolumeM n α := do
  load s
  let a ← body
  unload s
  return a

/-- The length of a file in bytes. -/
def length (s : Sector) : VolumeM n Nat := withLoaded s do
  return (← record s).length.toNat

/-- The sector of the directory that holds the inode. -/
def parent (s : Sector) : VolumeM n Sector := withLoaded s do
  return ⟨(← record s).parent⟩

/-- Marks an inode as removed, so that the last one to close it frees its sectors. -/
def markRemoved (s : Sector) : VolumeM n Unit := updateNode s ({ · with removed := true })

/-- Forbids writing until it is allowed again as often. -/
def denyWrite (s : Sector) : VolumeM n Unit := updateNode s fun node =>
  { node with denials := node.denials + 1 }

def allowWrite (s : Sector) : VolumeM n Unit := do
  let node ← node s
  if node.denials = 0 then throw .unmatchedAllow
  setNode s { node with denials := node.denials - 1 }

/-- Counts a file descriptor on the inode. -/
def attach (s : Sector) : VolumeM n Unit := updateNode s fun node =>
  { node with descriptors := node.descriptors + 1 }

def detach (s : Sector) : VolumeM n Unit := do
  let node ← node s
  if node.descriptors = 0 then throw .notHeld
  setNode s { node with descriptors := node.descriptors - 1 }

/-- Counts a process whose working directory the inode is. -/
def enterCwd (s : Sector) : VolumeM n Unit := updateNode s fun node =>
  { node with cwdUsers := node.cwdUsers + 1 }

def leaveCwd (s : Sector) : VolumeM n Unit := do
  let node ← node s
  if node.cwdUsers = 0 then throw .notHeld
  setNode s { node with cwdUsers := node.cwdUsers - 1 }

end Inode
end TieredVolume
