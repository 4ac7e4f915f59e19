import TieredVolume.Fault
import TieredVolume.Bytes

/-!
Sector numbers. They are words of 32 bits; the largest word is kept free on the disk to mean that
there is no sector, so `decode` is the only way from a stored word to a sector.
-/
namespace TieredVolume

/-- The end of the numbers that a sector can have. -/
abbrev sectorLimit : Nat := 4294967296

/-- The number of a sector on the device. -/
structure Sector where
  raw : UInt32
  deriving DecidableEq, Repr

namespace Sector

/-- The stored word that stands for no sector. -/
def noneRaw : UInt32 := 4294967295

/-- The sector of a number, of which the low 32 bits count. -/
def ofNat (n : Nat) : Sector := ⟨UInt32.ofNat n⟩

/-- The block of the device that the sector is. -/
def block (s : Sector) : Nat := s.raw.toNat

/-- The sector that a stored word links to. -/
def decode (raw : UInt32) : Option Sector := if raw = noneRaw then none else some ⟨raw⟩

/-- The sector `count` further on, if its number still fits. -/
def advance (s : Sector) (count : UInt32) : Except Fault Sector :=
  if s.raw.toNat + count.toNat < sectorLimit then .ok ⟨s.raw + count⟩ else .error .overflow

theorem block_ofNat {n : Nat} (h : n < sectorLimit) : (ofNat n).block = n := by
  rw [ofNat, block, UInt32.toNat_ofNat', Nat.mod_eq_of_lt]
  exact h

@[simp] theorem ofNat_block (s : Sector) : ofNat s.block = s := by
  simp [ofNat, block]

theorem block_injective {s t : Sector} (h : s.block = t.block) : s = t := by
  rw [← ofNat_block s, ← ofNat_block t, h]

theorem decode_eq_some_iff {raw : UInt32} {s : Sector} :
    decode raw = some s ↔ raw = s.raw ∧ raw ≠ noneRaw := by
  cases s
  unfold decode
  split <;> simp_all

end Sector

/-- The sector of the root directory's inode. -/
def rootSector : Sector := ⟨0⟩

/-- Slots of the root directory of a fresh volume. -/
def rootSlots : Nat := 16

/-- Slots of a directory made later. -/
def directorySlots : Nat := 10

/-- Slots of the cache of a mounted volume. -/
def cacheCapacity : Nat := 64

end TieredVolume
