import TieredVolume.Inode.Load
import TieredVolume.Disk.IndexPath

/-!
From logical sectors of a loaded file to sectors of the device. Looking one up changes no link and
finds nothing where a link is missing. Binding one fills in what is missing on its way: index blocks
without children, and at the end a data sector of zeros.
-/
namespace TieredVolume
namespace Inode

open Volume Attempt

variable {n : Nat}

/-- The sector that a way through index blocks leads to, from the block `s` on. -/
def follow : List (Fin 64) → (s : Sector) → CacheM n (Option Sector)
  | [], s => return some s
  | child :: steps, s => do
    let node ← fetch s
    match Sector.decode (← ofExcept (node.link .indexBlock child)) with
    | some next => follow steps next
    | none => return none

/-- The sector bound to a logical sector of a loaded file. -/
def find? (s : Sector) (logical : Nat) : VolumeM n (Option Sector) := do
  let path ← ofExcept (IndexPath.locate logical)
  match Sector.decode (← ofExcept ((← record s).link .data path.slot)) with
  | some next => onCache (follow path.steps next)
  | none => return none

/-- A fresh sector, as a data sector or as an index block. -/
def allocateFor (data : Bool) : Attempt n Sector := do
  let fresh ← allocate 1
  always (onCache (if data then Cache.zero fresh else store fresh Record.indexBlock))
  return fresh

/-- Binds the end of a way through index blocks, from the block `s` on. -/
def bindBelow : List (Fin 64) → (s : Sector) → Attempt n Sector
  | [], s => return s
  | child :: steps, s => do
    let node ← always (onCache (fetch s))
    match Sector.decode (← always (ofExcept (node.link .indexBlock child))) with
    | some next => bindBelow steps next
    | none =>
      let fresh ← allocateFor steps.isEmpty
      always do
        onCache (store s (← ofExcept (node.setLink .indexBlock child fresh.raw)))
      bindBelow steps fresh

/-- Binds a logical sector of a loaded file. -/
def bind (s : Sector) (logical : Nat) : Attempt n Sector := do
  let path ← always (ofExcept (IndexPath.locate logical))
  match Sector.decode (← always do ofExcept ((← record s).link .data path.slot)) with
  | some next => bindBelow path.steps next
  | none =>
    let fresh ← allocateFor path.steps.isEmpty
    always (updateRecord s (·.setLink .data path.slot fresh.raw))
    bindBelow path.steps fresh

/-- Binds `count` logical sectors of a loaded file, from `first` on. -/
def bindRange (s : Sector) (first : Nat) : (count : Nat) → Attempt n Unit
  | 0 => return ()
  | count + 1 => do
    let _ ← bind s first
    bindRange s (first + 1) count

/-- Binds what lies between the length of a loaded file and the byte `stop`. -/
def bindThrough (s : Sector) (stop : Nat) : Attempt n Unit := do
  let record ← always (record s)
  let first := Record.dataSectors record.length.toNat
  bindRange s first (Record.dataSectors stop - first)

end Inode
end TieredVolume
