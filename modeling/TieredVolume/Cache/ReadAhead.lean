import TieredVolume.Cache.Access

/-!
Reading ahead. While it is active, requests queue up, each sector once and at most ten at a time;
serving the queue brings its sectors in one after the other, oldest first. Requests made while it is
not active are dropped.
-/
namespace TieredVolume

/-- Requests that can wait at a time. -/
def readAheadCapacity : Nat := 10

/-- The queue after a request. -/
def ReadAhead.request (q : ReadAhead) (sector : Sector) : ReadAhead :=
  if !q.active || q.pending.contains sector then q
  else if q.pending.length = readAheadCapacity then q
  else { q with pending := q.pending ++ [sector] }

namespace Cache

variable {n : Nat}

def requestReadAhead (sector : Sector) : CacheM n Unit := modify fun c =>
  { c with readAhead := c.readAhead.request sector }

/-- Brings a queued sector in and takes it off the queue. -/
def serveRequest (sector : Sector) : CacheM n Unit := do
  let _ ← prefetch sector
  modify fun c => { c with readAhead :=
    { c.readAhead with pending := c.readAhead.pending.filter (· ≠ sector) } }

/-- Brings in every sector that waits. -/
def serveReadAhead : CacheM n Unit := do
  (← get).readAhead.pending.forM serveRequest

def startReadAhead : CacheM n Unit := modify fun c =>
  { c with readAhead := { c.readAhead with active := true } }

/-- Stops taking requests and drops those that wait. -/
def stopReadAhead : CacheM n Unit := modify fun c => { c with readAhead := {} }

end Cache
end TieredVolume
