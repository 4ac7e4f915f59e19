import TieredVolume.Cache.Clock

/-!
Reading and writing sectors through the cache. A sector that is not cached takes a slot from the
clock, whose old contents go to the device first if they are dirty, and is then read from the
device, unless all of it is about to be overwritten. Writes change only the cached copy.
-/
namespace TieredVolume
namespace Cache

variable {n : Nat}

/-- A range inside a sector: it must not run past the end. -/
def checkRange (offset count : Nat) : Except Fault Unit := do
  if (← addOffset offset count) ≤ sectorSize then .ok () else .error .pastSectorEnd

/-- Writes a dirty slot to the device. -/
def flushSlot (i : Fin n) : CacheM n Unit := do
  let slot := (← get).slot i
  match slot.sector with
  | some sector =>
    if slot.dirty then
      onDevice (Device.writeBlock sector.block slot.data)
      modify (updateSlot i ({ · with dirty := false }))
  | none => pure ()

/-- Frees a slot. -/
def evict : CacheM n (Fin n) := do
  match ← modifyGet findVictim with
  | some i => flushSlot i; return i
  | none => throw .allSlotsBusy

/-- The slot of a sector, and whether it was bound just now and has no contents yet. -/
def acquire (sector : Sector) : CacheM n (Fin n × Bool) := do
  match (← get).find? sector with
  | some i => return (i, false)
  | none =>
    let i ← evict
    modify (bindSlot i sector)
    return (i, true)

/-- Brings the contents of a sector from the device into its slot. -/
def fill (i : Fin n) (sector : Sector) : CacheM n Unit := do
  let contents ← onDevice (Device.readBlock sector.block)
  modify (updateSlot i ({ · with data := contents }))

/-- Brings a sector in without handing out its contents. -/
def prefetch (sector : Sector) : CacheM n (Fin n) := do
  let (i, missed) ← acquire sector
  if missed then fill i sector
  modify (updateSlot i Slot.touch)
  return i

/-- The contents of a sector. -/
def readSector (sector : Sector) : CacheM n Block := do
  let i ← prefetch sector
  return ((← get).slot i).data

/-- `count` bytes of a sector from `offset` on. -/
def read (sector : Sector) (offset count : Nat) : CacheM n Bytes := do
  ofExcept (checkRange offset count)
  return Block.slice (← readSector sector) offset count

/-- Lays bytes over a sector from `offset` on. -/
def write (sector : Sector) (offset : Nat) (bytes : Bytes) : CacheM n Unit := do
  ofExcept (checkRange offset bytes.length)
  let (i, missed) ← acquire sector
  if missed && (0 < offset || bytes.length < sectorSize) then fill i sector
  modify (updateSlot i (·.store offset bytes))

/-- Overwrites a sector. -/
def writeSector (sector : Sector) (contents : Block) : CacheM n Unit :=
  write sector 0 contents.toList

/-- Overwrites a sector with zeros. -/
def zero (sector : Sector) : CacheM n Unit := writeSector sector Block.zero

/-- Writes every dirty slot to the device, in slot order. -/
def flushAll : CacheM n Unit := (List.finRange n).forM flushSlot

/-- Forgets a cached sector without writing it, which is right only for one nobody reads again. -/
def invalidate (sector : Sector) : CacheM n Unit := modify fun c =>
  match c.find? sector with
  | some i => clearSlot i c
  | none => c

/-- The first half of a read that has to wait for the device: the slot is bound and locked. -/
def startRead (sector : Sector) : CacheM n (Fin n) := do
  let (i, _) ← acquire sector
  modify (updateSlot i ({ · with locked := true }))
  return i

/-- The second half of such a read. -/
def finishRead (i : Fin n) (sector : Sector) (offset count : Nat) : CacheM n Bytes := do
  fill i sector
  modify (updateSlot i fun s => { s.touch with locked := false })
  return Block.slice ((← get).slot i).data offset count

end Cache
end TieredVolume
