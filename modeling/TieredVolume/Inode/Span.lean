import TieredVolume.Bytes

/-!
A range of bytes cut at the borders of sectors.
-/
namespace TieredVolume

/-- The part of a byte range that lies in one sector. -/
structure Span where
  /-- Which sector of the file it lies in. -/
  logical : Nat
  /-- Where in that sector it starts. -/
  start : Nat
  size : Nat
  deriving DecidableEq, Repr

/-- The spans of `count` bytes from `offset` on. -/
def spans (offset count : Nat) : List Span :=
  if count = 0 then []
  else
    let size := min count (sectorSize - offset % sectorSize)
    { logical := offset / sectorSize, start := offset % sectorSize, size } ::
      spans (offset + size) (count - size)
termination_by count
decreasing_by
  have : 0 < sectorSize - offset % sectorSize := by
    have := Nat.mod_lt offset (show 0 < sectorSize by decide)
    omega
  omega

end TieredVolume
