import TieredVolume.Fault
import TieredVolume.Bytes

/-!
A disk kept in an image, which is a byte array of the host. The number of blocks is fixed when the
image is opened. Transfers start at a block but may have any length: reads have to find all their
bytes, writes extend the image where they run past its end.
-/
namespace TieredVolume

/-- An image that is not a whole number of blocks long. -/
structure RaggedImage where
  size : Nat

def RaggedImage.message (e : RaggedImage) : String :=
  s!"image of {e.size} bytes is not a whole number of {sectorSize}-byte blocks"

structure ImageFile where
  bytes : Array UInt8
  blocks : Nat

/-- The array with `bytes` laid over it from `offset` on; what sticks out is appended. -/
def writeOver (image : Array UInt8) (offset : Nat) : Bytes → Array UInt8
  | [] => image
  | x :: xs =>
    if h : offset < image.size then writeOver (image.set offset x) (offset + 1) xs
    else writeOver (image.push x) (offset + 1) xs

namespace ImageFile

/-- An image of zeros. -/
def blank (size : Nat) : Array UInt8 := Array.replicate size 0

def open? (bytes : Array UInt8) : Except RaggedImage ImageFile :=
  if bytes.size % sectorSize = 0 then .ok ⟨bytes, bytes.size / sectorSize⟩
  else .error ⟨bytes.size⟩

/-- An image of zeroed blocks. -/
def ofBlocks (blocks : Nat) : ImageFile := ⟨blank (blocks * sectorSize), blocks⟩

theorem open?_blank (blocks : Nat) : open? (blank (blocks * sectorSize)) = .ok (ofBlocks blocks) := by
  simp [open?, ofBlocks, blank]

/-- The part of the image that a transfer of `count` bytes from `block` on finds. -/
def part (d : ImageFile) (block count : Nat) : Array UInt8 :=
  d.bytes.extract (block * sectorSize) (block * sectorSize + count)

def read (block count : Nat) : EStateM Fault ImageFile Bytes := fun d =>
  if block < d.blocks then
    if (d.part block count).size = count then .ok (d.part block count).toList d
    else .error .incompleteBlock d
  else .error (.outOfImage block) d

def write (block : Nat) (bytes : Bytes) : EStateM Fault ImageFile Unit := fun d =>
  if block < d.blocks then
    .ok () { d with bytes := writeOver d.bytes (block * sectorSize) bytes }
  else .error (.outOfImage block) d

def readBlock (block : Nat) : EStateM Fault ImageFile Block := fun d =>
  if block < d.blocks then
    if h : (d.part block sectorSize).size = 512 then .ok ⟨d.part block sectorSize, h⟩ d
    else .error .incompleteBlock d
  else .error (.outOfImage block) d

def writeBlock (block : Nat) (contents : Block) : EStateM Fault ImageFile Unit :=
  write block contents.toList

end ImageFile

end TieredVolume
