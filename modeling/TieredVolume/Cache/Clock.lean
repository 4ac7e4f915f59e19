import TieredVolume.Cache.Basic

/-!
The choice of the slot to give up. The hand goes round the slots and stops past the first that it
takes. A sweep in which nothing is taken sets second chances, so with one evictable slot at all the
third sweep ends; the sweeps are bounded, and a cache whose slots stay busy through all of them has
none to give.
-/
namespace TieredVolume

/-- Sweeps in which a busy slot is skipped rather than waited for. -/
def maxSkipSweeps : Nat := 5

namespace Cache

variable {n : Nat}

/-- Moves the hand over `count` slots, or up to the first that is taken. -/
def sweep (firstSweep : Bool) : (count : Nat) → Cache n → Option (Fin n) × Cache n
  | 0, c => (none, c)
  | count + 1, c =>
    let i := c.hand
    match (c.slot i).passedBy firstSweep with
    | none => (some i, { c with hand := nextOnRing i })
    | some slot => sweep firstSweep count { c with hand := nextOnRing i, slots := c.slots.set i slot }

/-- Up to `count` sweeps, of which the first treats dirty slots as `firstSweep` says. -/
def sweeps (firstSweep : Bool) : (count : Nat) → Cache n → Option (Fin n) × Cache n
  | 0, c => (none, c)
  | count + 1, c =>
    match sweep firstSweep n c with
    | (some i, c) => (some i, c)
    | (none, c) => sweeps false count c

/-- The slot to give up, with the marks that the search leaves on the others. -/
def findVictim (c : Cache n) : Option (Fin n) × Cache n := sweeps true (maxSkipSweeps + 1) c

end Cache

end TieredVolume
