import TieredVolume.Namespace.Operations

/-!
Bringing a volume into use. Sector 0 is the header of the root directory and the free map follows
it; everything else hangs on inodes. Formatting makes an empty root; mounting without it takes the
volume as it stands on the device.
-/
namespace TieredVolume

structure MountOptions where
  /-- Whether the volume is made anew. -/
  format : Bool := false
  /-- Whether dirty sectors are written and requested ones brought in while nobody waits. -/
  background : Bool := true
  /-- Milliseconds between two such writes. -/
  flushMillis : Nat := 1000

namespace Volume

open Attempt

/-- A volume over a device, with the free map that `getMap` makes or finds. -/
def assemble (n : Nat) (device : Device) (getMap : CacheM n FreeMap) : Except Fault (Volume n) := do
  match getMap (← Cache.fresh n device) with
  | .ok map cache => return { cache, map }
  | .error e _ => .error e

/-- Makes the root directory of a fresh volume and writes everything to the device. -/
def makeRoot {n : Nat} : Attempt n Unit := do
  Directory.create rootSector rootSlots rootSector
  always (onCache Cache.flushAll)

/-- A fresh volume on a device. -/
def format (device : Device) : Except Fault (Except Refusal (Volume cacheCapacity)) := do
  match makeRoot.run (← assemble cacheCapacity device (FreeMap.format device.blockCount)) with
  | .ok (.ok ()) v => return .ok v
  | .ok (.error r) _ => return .error r
  | .error e _ => .error e

/-- The volume that a device holds. -/
def «open» (device : Device) : Except Fault (Volume cacheCapacity) :=
  assemble cacheCapacity device do
    let _ ← fetch rootSector
    FreeMap.load device.blockCount

/-- Brings the volume on a device into use. -/
def mount (device : Device) (options : MountOptions) :
    Except Fault (Except Refusal (Volume cacheCapacity)) := do
  let answer ← if options.format then format device else Except.ok <$> Volume.open device
  let background (v : Volume cacheCapacity) : Volume cacheCapacity :=
    if options.background then { v with cache.readAhead.active := true } else v
  return answer.map background

variable {n : Nat}

/-- Stops what goes on in the background and writes everything to the device. -/
def shutdown : VolumeM n Unit := onCache do
  Cache.stopReadAhead
  Cache.flushAll

end Volume

end TieredVolume
