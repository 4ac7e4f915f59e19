import TieredVolume.Device.Memory
import TieredVolume.Device.Image

/-!
The device under a volume, which is a disk in memory or an image. Both move whole blocks.
-/
namespace TieredVolume

inductive Device where
  | memory (disk : MemoryDisk)
  | image (file : ImageFile)

namespace Device

def readBlock (block : Nat) : EStateM Fault Device Block := fun d =>
  match d with
  | .memory disk =>
    match disk.readBlock block with
    | .ok b disk => .ok b (.memory disk)
    | .error e disk => .error e (.memory disk)
  | .image file =>
    match file.readBlock block with
    | .ok b file => .ok b (.image file)
    | .error e file => .error e (.image file)

def writeBlock (block : Nat) (contents : Block) : EStateM Fault Device Unit := fun d =>
  match d with
  | .memory disk =>
    match disk.writeBlock block contents with
    | .ok u disk => .ok u (.memory disk)
    | .error e disk => .error e (.memory disk)
  | .image file =>
    match file.writeBlock block contents with
    | .ok u file => .ok u (.image file)
    | .error e file => .error e (.image file)

/-- A write from a buffer that need not be one block. -/
def write (block : Nat) (bytes : Bytes) : EStateM Fault Device Unit := fun d =>
  match d with
  | .memory disk =>
    match disk.write block bytes with
    | .ok u disk => .ok u (.memory disk)
    | .error e disk => .error e (.memory disk)
  | .image file =>
    match file.write block bytes with
    | .ok u file => .ok u (.image file)
    | .error e file => .error e (.image file)

def blockCount : Device → Nat
  | .memory disk => disk.blocks.size
  | .image file => file.blocks

/-- The contents of a block, looked at without a transfer. -/
def block? (d : Device) (block : Nat) : Option Block :=
  match d with
  | .memory disk => disk.blocks[block]?
  | .image file =>
    if block < file.blocks then Block.ofBytes? (file.part block sectorSize).toList else none

/-- All bytes of a device in order. -/
def bytes : Device → Array UInt8
  | .memory disk => disk.blocks.flatMap (·.toArray)
  | .image file => file.bytes

/-- Transfers that succeeded, reads and writes. An image does not count its own. -/
def counts : Device → Nat × Nat
  | .memory disk => (disk.reads, disk.writes)
  | .image _ => (0, 0)

end Device

end TieredVolume
