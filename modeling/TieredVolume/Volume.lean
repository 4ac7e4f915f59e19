import TieredVolume.Space.FreeMap
import TieredVolume.Inode.OpenTable

/-!
A volume in use: the cache over its device, its free map, and the table of its open inodes. An
operation on it either answers or ends in a fault; an attempt may also be refused, after which the
volume goes on from the state that the attempt left.
-/
namespace TieredVolume

structure Volume (n : Nat) where
  cache : Cache n
  map : FreeMap
  table : OpenTable := []

/-- Operations on a volume. -/
abbrev VolumeM (n : Nat) := EStateM Fault (Volume n)

/-- Operations on a volume that may be refused. What was done before a refusal stays done. -/
structure Attempt (n : Nat) (α : Type) where
  run : VolumeM n (Except Refusal α)

namespace Attempt

variable {n : Nat} {α β : Type}

@[always_inline] instance : Monad (Attempt n) where
  pure a := ⟨pure (.ok a)⟩
  bind x f := ⟨do
    match ← x.run with
    | .ok a => (f a).run
    | .error r => return .error r⟩

theorem run_pure (a : α) : (pure a : Attempt n α).run = pure (.ok a) := rfl

theorem run_bind (x : Attempt n α) (f : α → Attempt n β) : (x >>= f).run = (do
    match ← x.run with
    | .ok a => (f a).run
    | .error r => return .error r) := rfl

/-- An attempt that is never refused. -/
def always (x : VolumeM n α) : Attempt n α := ⟨do return .ok (← x)⟩

/-- An attempt that is refused. -/
def refuse (r : Refusal) : Attempt n α := ⟨return .error r⟩

/-- An attempt whose answer is known. -/
def ofAnswer (answer : Except Refusal α) : Attempt n α := ⟨return answer⟩

/-- An attempt after which `cleanup` is run, whether it was refused or not. -/
def thenAlways (x : Attempt n α) (cleanup : VolumeM n Unit) : Attempt n α := ⟨do
  let answer ← x.run
  cleanup
  return answer⟩

/-- An attempt after which `cleanup` is run if it was refused. -/
def onRefusal (x : Attempt n α) (cleanup : VolumeM n Unit) : Attempt n α := ⟨do
  match ← x.run with
  | .ok a => return .ok a
  | .error r => cleanup; return .error r⟩

end Attempt

namespace Volume

variable {n : Nat} {α : Type}

/-- An operation on the cache of a volume. -/
def onCache (x : CacheM n α) : VolumeM n α := fun v =>
  match v with
  | ⟨cache, map, table⟩ =>
    match x cache with
    | .ok a cache => .ok a ⟨cache, map, table⟩
    | .error e cache => .error e ⟨cache, map, table⟩

/-- An operation on the free map of a volume, in memory. -/
def onMap (x : EStateM Fault FreeMap α) : VolumeM n α := fun v =>
  match v with
  | ⟨cache, map, table⟩ =>
    match x map with
    | .ok a map => .ok a ⟨cache, map, table⟩
    | .error e map => .error e ⟨cache, map, table⟩

/-- Writes the part of the free map that tells of `count` sectors from number `start` on. -/
def persistRun (start count : Nat) : VolumeM n Unit := do
  onCache ((← get).map.persistRun start count)

/-- Sets aside the first run of `count` free sectors. -/
def allocate (count : Nat) : Attempt n Sector := ⟨do
  if count = 0 then throw .emptyRun
  match (← get).map.firstFit count with
  | none => return .error .noSpace
  | some start =>
    onMap (modify (FreeMap.take start count))
    persistRun start count
    return .ok (Sector.ofNat start)⟩

/-- Forgets what is cached of `count` sectors from number `start` on. -/
def invalidateRun (start : Nat) : (count : Nat) → CacheM n Unit
  | 0 => pure ()
  | count + 1 => do
    Cache.invalidate (Sector.ofNat start)
    invalidateRun (start + 1) count

/-- Gives back `count` sectors from `sector` on, and forgets what is cached of them. -/
def release (sector : Sector) (count : Nat) : VolumeM n Unit := do
  let start := sector.block
  let _ ← ofExcept (addOffset start count)
  onMap (FreeMap.giveBack start count)
  if 0 < count then persistRun start count
  onCache (invalidateRun start count)

/-- Whether a sector is in use; one without a bit is a fault. -/
def isAllocated (sector : Sector) : VolumeM n Bool := do
  match (← get).map.isUsed? sector.block with
  | some used => return used
  | none => throw .noSuchBit

/-- The record that a sector holds; one that holds none is a fault. -/
def fetch (sector : Sector) : CacheM n Record := do
  ofExcept ((Record.ofBlock (← Cache.readSector sector)).validate sector)

/-- Writes a record to a sector. -/
def store (sector : Sector) (record : Record) : CacheM n Unit :=
  Cache.writeSector sector record.toBlock

end Volume

end TieredVolume
