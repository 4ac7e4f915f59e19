import TieredVolume.Sector

/-!
One slot of the sector cache, and how the clock treats it. A slot that is locked or has readers is
passed by. Of the others, an empty slot or one with its second chance set is taken; else the slot is
given its second chance, which a dirty slot gets only after the first sweep.
-/
namespace TieredVolume

structure Slot where
  /-- The sector whose contents the slot holds; without one the slot is empty. -/
  sector : Option Sector := none
  /-- Whether the contents have still to be written to the device. -/
  dirty : Bool := false
  secondChance : Bool := false
  readers : Nat := 0
  /-- Whether an unfinished transfer holds the slot. -/
  locked : Bool := false
  data : Block := Block.zero

namespace Slot

/-- A slot without lock and readers can be given to another sector. -/
def evictable (s : Slot) : Bool := !s.locked && s.readers == 0

/-- What the clock leaves of a slot that it passes by; nothing if it takes the slot. -/
def passedBy (firstSweep : Bool) (s : Slot) : Option Slot :=
  if !s.evictable then some s
  else if s.sector.isNone || s.secondChance then none
  else if s.dirty && firstSweep then some s
  else some { s with secondChance := true }

/-- The slot given to a sector, whose contents are still to come: the old bytes stay in it. -/
def bind (s : Slot) (sector : Sector) : Slot := { sector := some sector, data := s.data }

/-- The slot emptied without a write. -/
def clear (s : Slot) : Slot :=
  { sector := none, readers := s.readers, locked := s.locked, data := s.data }

/-- The slot after a use that did not change it. -/
def touch (s : Slot) : Slot := { s with secondChance := false }

/-- The slot after a write. -/
def store (s : Slot) (offset : Nat) (bytes : Bytes) : Slot :=
  { s with data := Block.overlay s.data offset bytes, secondChance := false, dirty := true }

theorem passedBy_eq_none_iff {first : Bool} {s : Slot} : s.passedBy first = none ↔
    s.evictable = true ∧ (s.sector = none ∨ s.secondChance = true) := by
  unfold passedBy
  cases s.evictable <;> cases s.sector <;> cases s.secondChance <;> simp
  all_goals split <;> simp

end Slot

end TieredVolume
