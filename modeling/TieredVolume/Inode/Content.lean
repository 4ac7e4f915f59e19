import TieredVolume.Cache.ReadAhead
import TieredVolume.Inode.Index
import TieredVolume.Inode.Span

/-!
The bytes of a file. Reading stops at the length of the file; writing past it binds the sectors in
between first, then writes, and only then lets the new length be seen. The length never shrinks.
-/
namespace TieredVolume
namespace Inode

open Volume Attempt

variable {n : Nat}

/-- Asks for the sector after `logical` to be brought in, if the file goes on there. -/
def announceNext (s : Sector) (length logical : Nat) : VolumeM n Unit := do
  if (logical + 1) * sectorSize < length then
    match ← find? s (logical + 1) with
    | some next => onCache (Cache.requestReadAhead next)
    | none => pure ()

/-- Reads spans of a loaded file up to the first without a sector. The pieces read come out behind
those read before, newest first. -/
def readSpans (s : Sector) (length : Nat) : List Span → List Bytes → VolumeM n (List Bytes)
  | [], pieces => return pieces
  | span :: rest, pieces => do
    match ← find? s span.logical with
    | none => return pieces
    | some sector =>
      let piece ← onCache (Cache.read sector span.start span.size)
      announceNext s length span.logical
      readSpans s length rest (piece :: pieces)

/-- Up to `count` bytes of a file from `offset` on. -/
def readAt (s : Sector) (offset count : Nat) : VolumeM n Bytes := withLoaded s do
  let length := (← record s).length.toNat
  let pieces ← readSpans s length (spans offset (min count (length - offset))) []
  return pieces.reverse.flatten

/-- Writes bytes over spans of a loaded file, up to the first without a sector, and tells how many
bytes were written so far. -/
def writeSpans (s : Sector) : List Span → Bytes → (written : Nat) → VolumeM n Nat
  | [], _, written => return written
  | span :: rest, bytes, written => do
    match ← find? s span.logical with
    | none => return written
    | some sector =>
      onCache (Cache.write sector span.start (bytes.take span.size))
      writeSpans s rest (bytes.drop span.size) (written + span.size)

/-- Lets a loaded file reach up to the byte `stop`, if it does not yet. -/
def publish (s : Sector) (stop : Nat) : VolumeM n Unit :=
  updateRecord s fun r => .ok (r.withLength (max r.length.toNat stop))

/-- Writes bytes to a file from `offset` on and tells how many were written. Nothing is written
while writing is denied. -/
def writeAt (s : Sector) (offset : Nat) (bytes : Bytes) : Attempt n Nat := do
  if bytes.isEmpty then return 0
  if 0 < (← always (node s)).denials then return 0
  let stop ← always (ofExcept (addOffset offset bytes.length))
  let write := writeSpans s (spans offset bytes.length) bytes 0
  always (load s)
  thenAlways (do
    if stop ≤ (← always (record s)).length.toNat then always write
    else
      bindThrough s stop
      let written ← always write
      always (publish s (offset + written))
      return written) (unload s)

/-- Makes a file reach up to `offset + size` with bound sectors. -/
def grow (s : Sector) (size offset : Nat) : Attempt n Unit := do
  always (load s)
  thenAlways (do
    let stop ← always (ofExcept (addOffset offset size))
    bindThrough s stop
    always (publish s stop)) (unload s)

/-- The sector that holds the byte at `offset`. -/
def sectorAt (s : Sector) (offset : Nat) : VolumeM n (Option Sector) := withLoaded s do
  find? s (offset / sectorSize)

/-- The sector that holds the byte at `offset`, bound if it was not. -/
def allocateAt (s : Sector) (offset : Nat) : Attempt n Sector := do
  always (load s)
  thenAlways (bind s (offset / sectorSize)) (unload s)

end Inode
end TieredVolume
