import TieredVolume.Fault
import TieredVolume.Bytes

/-!
A disk in memory: blocks under consecutive numbers, with a count of the transfers that succeeded.
-/
namespace TieredVolume

structure MemoryDisk where
  blocks : Array Block
  reads : Nat := 0
  writes : Nat := 0

namespace MemoryDisk

/-- A disk of zeroed blocks. -/
def blank (count : Nat) : MemoryDisk := { blocks := Array.replicate count Block.zero }

def readBlock (block : Nat) : EStateM Fault MemoryDisk Block := fun d =>
  if h : block < d.blocks.size then
    .ok d.blocks[block] { d with reads := d.reads + 1 }
  else .error .noSuchBlock d

def writeBlock (block : Nat) (contents : Block) : EStateM Fault MemoryDisk Unit := fun d =>
  if h : block < d.blocks.size then
    .ok () { d with blocks := d.blocks.set block contents, writes := d.writes + 1 }
  else .error .noSuchBlock d

/-- A read into a buffer of `count` bytes, which has to be one block. -/
def read (block count : Nat) : EStateM Fault MemoryDisk Bytes := do
  if count = sectorSize then return (← readBlock block).toList
  else throw .incompleteBlock

/-- A write from a buffer, which has to be one block. -/
def write (block : Nat) (bytes : Bytes) : EStateM Fault MemoryDisk Unit := do
  match Block.ofBytes? bytes with
  | some contents => writeBlock block contents
  | none => throw .incompleteBlock

end MemoryDisk

end TieredVolume
