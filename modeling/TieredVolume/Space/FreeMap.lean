import TieredVolume.Cache.Access

/-!
The free map: one bit for every sector of the device, set while the sector is in use. On the disk it
follows the root header and is written word by word through the cache; in memory the bits are kept
as they are, filled up to whole sectors with bits that no sector belongs to and that stay clear.
-/
namespace TieredVolume

/-- Bits in a sector. -/
abbrev sectorBits : Nat := 4096

/-- Words of the free map that a sector holds. -/
abbrev wordsPerSector : Nat := 64

/-- The first sector of the free map. -/
def freeMapStart : Nat := 1

/-- Sectors that the bits of `total` sectors fill. -/
def mapSectors (total : Nat) : Nat := (total + (sectorBits - 1)) / sectorBits

/-- Bits of the map of `total` sectors, those that belong to no sector included. -/
@[irreducible] def mapBits (total : Nat) : Nat := mapSectors total * sectorBits

theorem le_mapBits (total : Nat) : total ≤ mapBits total := by
  rw [mapBits, mapSectors, sectorBits]
  omega

structure FreeMap where
  /-- Sectors of the device. -/
  total : Nat
  /-- Which sectors are in use. -/
  used : Vector Bool (mapBits total)

namespace FreeMap

/-- Whether a sector is in use, if the map has a bit for it. -/
def isUsed? (m : FreeMap) (index : Nat) : Option Bool := m.used[index]?

/-- Whether a sector is in use; one without a bit is never free. -/
def isUsed (m : FreeMap) (index : Nat) : Bool :=
  if h : index < mapBits m.total then m.used[index] else true

/-- The map with one bit set or cleared. -/
def setUsed (m : FreeMap) (index : Nat) (value : Bool) : FreeMap :=
  { m with used := m.used.setIfInBounds index value }

/-- The map with `count` bits set, from `start` on. -/
def take (start : Nat) : (count : Nat) → FreeMap → FreeMap
  | 0, m => m
  | count + 1, m => take (start + 1) count (m.setUsed start true)

/-- Clears `count` bits from `start` on. A bit that is clear already is a fault. -/
def giveBack (start : Nat) : (count : Nat) → EStateM Fault FreeMap Unit
  | 0 => pure ()
  | count + 1 => fun m =>
    match m.isUsed? start with
    | none => .error .noSuchBit m
    | some false => .error (.doubleRelease start) m
    | some true => giveBack (start + 1) count (m.setUsed start false)

/-- Looks for `count` free sectors in a row among the `left` sectors from `index` on, of which
`run` free ones lie just before. -/
def findRun (m : FreeMap) (count : Nat) : (left index run : Nat) → Option Nat
  | 0, _, _ => none
  | left + 1, index, run =>
    if m.isUsed index then findRun m count left (index + 1) 0
    else if run + 1 = count then some (index + 1 - count)
    else findRun m count left (index + 1) (run + 1)

/-- The first run of `count` free sectors. -/
def firstFit (m : FreeMap) (count : Nat) : Option Nat := m.findRun count m.total 0 0

/-- Free sectors among the `left` from `index` on. -/
def countFree (m : FreeMap) : (left index : Nat) → (sum : Nat) → Nat
  | 0, _, sum => sum
  | left + 1, index, sum => countFree m left (index + 1) (if m.isUsed index then sum else sum + 1)

/-- How many sectors are free. -/
def freeCount (m : FreeMap) : Nat := m.countFree m.total 0 0

/-- The sectors in use, in ascending order. -/
def usedSectors (m : FreeMap) : List Nat := (List.range m.total).filter m.isUsed

/-- Byte `k` of the map, whose lowest bit comes first. -/
def byte (m : FreeMap) (k : Nat) : UInt8 :=
  let bit (j weight : Nat) : Nat := if m.used.toArray.getD (8 * k + j) false then weight else 0
  UInt8.ofNat (bit 0 1 + bit 1 2 + bit 2 4 + bit 3 8 + bit 4 16 + bit 5 32 + bit 6 64 + bit 7 128)

/-- The eight bytes of word `k` of the map. -/
def wordBytes (m : FreeMap) (k : Nat) : Bytes := (List.range 8).map fun j => m.byte (8 * k + j)

/-- The map of `total` sectors that a byte string spells. -/
def ofBytes (total : Nat) (bytes : Array UInt8) : FreeMap where
  total := total
  used := Vector.ofFn fun i => (bytes.getD (i.val / 8) 0).toNat.testBit (i.val % 8)

/-- A map in which the first `reserved` sectors are in use. -/
def ofReserved (total reserved : Nat) : FreeMap where
  total := total
  used := Vector.ofFn fun i => decide (i.val < reserved)

variable {n : Nat}

/-- The sector that holds word `k` of the map. -/
def wordSector (k : Nat) : Sector := Sector.ofNat (freeMapStart + k / wordsPerSector)

/-- Where in its sector word `k` of the map lies. -/
def wordOffset (k : Nat) : Nat := k % wordsPerSector * 8

/-- Writes `count` words of the map, from word `k` on. -/
def persist (m : FreeMap) (k : Nat) : (count : Nat) → CacheM n Unit
  | 0 => pure ()
  | count + 1 => do
    Cache.write (wordSector k) (wordOffset k) (m.wordBytes k)
    m.persist (k + 1) count

/-- Writes the words of the map that hold the bits of `count` sectors from `start` on. -/
def persistRun (m : FreeMap) (start count : Nat) : CacheM n Unit :=
  m.persist (start / 64) ((start + count - 1) / 64 + 1 - start / 64)

/-- Reads `count` words of a map, from word `k` on, behind those that were read before. -/
def loadWords (k : Nat) : (count : Nat) → Array UInt8 → CacheM n (Array UInt8)
  | 0, bytes => return bytes
  | count + 1, bytes => do
    let word ← Cache.read (wordSector k) (wordOffset k) 8
    loadWords (k + 1) count (bytes ++ word)

/-- Sectors that hold the root header and the map itself. -/
def reserved (total : Nat) : Nat := freeMapStart + mapSectors total

/-- Sets up the map of a fresh volume. -/
def format (total : Nat) : CacheM n FreeMap := do
  if reserved total < total then
    let m := ofReserved total (reserved total)
    m.persist 0 (mapSectors total * wordsPerSector)
    return m
  else throw (.deviceTooSmall total)

/-- Reads the map of a volume. -/
def load (total : Nat) : CacheM n FreeMap := do
  let bytes ← loadWords 0 (mapSectors total * wordsPerSector) #[]
  return ofBytes total bytes

end FreeMap

end TieredVolume
