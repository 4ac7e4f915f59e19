import TieredVolume.Inode.Content

/-!
The making and the end of inodes. A new file has one data sector from the start. The sectors of a
removed file are given back when the last one who has it open closes it: first the data sectors and
index blocks, each block after what hangs on it, then the header.
-/
namespace TieredVolume
namespace Inode

open Volume Attempt

variable {n : Nat}

/-- Gives back a sector and, through `depth` levels of index blocks, all that hangs on it. -/
def releaseTree : (depth : Nat) → Sector → VolumeM n Unit
  | 0, s => release s 1
  | depth + 1, s => do
    let node ← onCache (fetch s)
    let links ← ofExcept (node.links .indexBlock)
    (links.filterMap Sector.decode).forM (releaseTree depth)
    release s 1

/-- Gives back what hangs on the links of a file header, from link `slot` on. -/
def releaseLinks (slot : Nat) : List UInt32 → VolumeM n Unit
  | [] => return ()
  | raw :: rest => do
    match Sector.decode raw with
    | some s => releaseTree (IndexPath.depthOf slot) s
    | none => pure ()
    releaseLinks (slot + 1) rest

/-- Gives back all that hangs on a file header, and cuts its links. -/
def releaseContents (s : Sector) : VolumeM n Unit := withLoaded s do
  releaseLinks 0 (← ofExcept ((← record s).links .data))
  updateRecord s Record.cutLinks

/-- Closes an inode once. The last one to close it ends its node and, if it was removed, frees it. -/
def close (s : Sector) : VolumeM n Unit := do
  let node ← node s
  if 1 < node.openers then setNode s { node with openers := node.openers - 1 }
  else
    if node.removed then releaseContents s
    modify fun v => { v with table := v.table.erase s }
    if node.removed then release s 1

/-- Makes a file of `length` zeros with its header at `s`. A refusal leaves nothing allocated but
the header, which is still the caller's. -/
def create (s : Sector) (length : Nat) (parent : Sector) : Attempt n Unit := do
  let start ← allocate 1
  always (onCache do
    Cache.zero start
    store s (Record.data start parent (min length sectorSize)))
  if sectorSize < length then
    always («open» s)
    thenAlways (onRefusal (grow s length 0) (releaseContents s)) (close s)

/-- Makes an index block without children. -/
def createIndexBlock (s : Sector) : VolumeM n Unit := onCache (store s Record.indexBlock)

end Inode
end TieredVolume
