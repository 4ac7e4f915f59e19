import TieredVolume.Cache.Slot
import TieredVolume.Device

/-!
The state of a sector cache of `n` slots over a device. The tags repeat which sector each slot is
bound to, in slot order; the hand is where the clock goes on. Every operation either answers or
ends in a fault, and in both cases the cache is left in the state it had reached.
-/
namespace TieredVolume

/-- Sectors that wait to be brought in, oldest first. -/
structure ReadAhead where
  pending : List Sector := []
  /-- Whether requests are taken at all. -/
  active : Bool := false

structure Cache (n : Nat) where
  device : Device
  tags : Vector (Option Sector) n
  slots : Vector Slot n
  hand : Fin n
  readAhead : ReadAhead := {}

/-- Operations on a cache; a fault keeps what was done before it. -/
abbrev CacheM (n : Nat) := EStateM Fault (Cache n)

/-- The next position on a ring. -/
def nextOnRing {n : Nat} (i : Fin n) : Fin n :=
  ⟨(i.val + 1) % n, Nat.mod_lt _ (Nat.lt_of_le_of_lt (Nat.zero_le _) i.isLt)⟩

namespace Cache

variable {n : Nat}

/-- An empty cache; one without slots is a fault. -/
def fresh (n : Nat) (device : Device) : Except Fault (Cache n) :=
  if h : 0 < n then
    .ok { device, tags := Vector.replicate n none, slots := Vector.replicate n {}, hand := ⟨0, h⟩ }
  else .error .noSlots

/-- The slot that holds a sector, as the tags tell. -/
def find? (c : Cache n) (sector : Sector) : Option (Fin n) := c.tags.finIdxOf? (some sector)

def contains (c : Cache n) (sector : Sector) : Bool := (c.find? sector).isSome

/-- The cached sectors in slot order. -/
def sectors (c : Cache n) : List Sector := c.tags.toList.filterMap id

/-- Slot `i` of the cache. -/
def slot (c : Cache n) (i : Fin n) : Slot := c.slots.get i

/-- The contents of a sector as every reader sees them: those of its slot, else the device's. -/
def current (c : Cache n) (sector : Sector) : Option Block :=
  match c.find? sector with
  | some i => some (c.slot i).data
  | none => c.device.block? sector.block

/-- The cache with one slot changed. -/
def updateSlot (i : Fin n) (f : Slot → Slot) (c : Cache n) : Cache n :=
  { c with slots := ⟨c.slots.toArray.modify i f, by simp⟩ }

/-- The cache with a slot given to a sector. -/
def bindSlot (i : Fin n) (sector : Sector) (c : Cache n) : Cache n :=
  updateSlot i (·.bind sector) { c with tags := c.tags.set i (some sector) }

/-- The cache with a slot emptied. -/
def clearSlot (i : Fin n) (c : Cache n) : Cache n :=
  updateSlot i Slot.clear { c with tags := c.tags.set i none }

@[simp] theorem slot_updateSlot (c : Cache n) (i j : Fin n) (f : Slot → Slot) :
    (updateSlot i f c).slot j = if i = j then f (c.slot j) else c.slot j := by
  simp only [updateSlot, slot, Vector.get, Array.getElem_modify, Fin.ext_iff, Fin.val_cast]
  rfl

/-- An operation on the device below the cache. -/
def onDevice {α : Type} (x : EStateM Fault Device α) : CacheM n α := fun c =>
  match c with
  | ⟨device, tags, slots, hand, readAhead⟩ =>
    match x device with
    | .ok a device => .ok a ⟨device, tags, slots, hand, readAhead⟩
    | .error e device => .error e ⟨device, tags, slots, hand, readAhead⟩

end Cache

end TieredVolume
