import TieredVolume.Inode.Lifetime
import TieredVolume.Disk.Entry

/-!
Directories. A directory is a file whose bytes are entries, one slot after the other. A name is put
into the first free slot, or behind the last; taking it out frees its slot and marks its inode as
removed, which a directory must be empty for.
-/
namespace TieredVolume
namespace Directory

open Volume Attempt

variable {n : Nat}

/-- Slots that fit the length of a file. -/
def maxSlots : Nat := 134217728

theorem maxSlots_eq : maxSlots * entrySize = 4294967296 := rfl

/-- Makes an empty directory with room for `slots` entries. -/
def create (s : Sector) (slots : Nat) (parent : Sector) : Attempt n Unit := do
  let length ← always (ofExcept (checkOffset (slots * entrySize)))
  Inode.create s length parent

/-- The entry at a byte offset of a directory, if a whole one lies there. -/
def entryAt (dir : Sector) (offset : Nat) : VolumeM n (Option Entry) := do
  return Entry.ofBytes? (← Inode.readAt dir offset entrySize)

/-- The first entry with a property among the next `slots` from `offset` on, and its offset. -/
def findFrom (dir : Sector) (p : Entry → Bool) :
    (slots : Nat) → (offset : Nat) → VolumeM n (Option (Entry × Nat))
  | 0, _ => return none
  | slots + 1, offset => do
    match ← entryAt dir offset with
    | none => return none
    | some entry =>
      if p entry then return some (entry, offset)
      else findFrom dir p slots (offset + entrySize)

/-- The first entry of a directory with a property, and its offset. -/
def findEntry (dir : Sector) (p : Entry → Bool) : VolumeM n (Option (Entry × Nat)) :=
  findFrom dir p maxSlots 0

/-- The entry of a name, and its offset. -/
def lookup (dir : Sector) (name : String) : VolumeM n (Option (Entry × Nat)) :=
  findEntry dir fun entry => entry.isInUse && entry.name == name

def isEmpty (dir : Sector) : VolumeM n Bool := do
  return (← findEntry dir Entry.isInUse).isNone

/-- Where the next name goes: the first free slot, else the end. -/
def freeOffset (dir : Sector) : VolumeM n Nat := do
  match ← findEntry dir (!·.isInUse) with
  | some (_, offset) => return offset
  | none => Inode.length dir

/-- Puts a name into a directory. -/
def add (dir : Sector) (name : String) (target : Sector) (isDir : Bool) : Attempt n Unit := do
  if !isValidName name then refuse .invalidName
  if (← always (lookup dir name)).isSome then refuse .alreadyExists
  let offset ← always (freeOffset dir)
  let entry ← always (ofExcept (Entry.make name target isDir))
  let written ← Inode.writeAt dir offset entry.toBytes
  if written ≠ entrySize then refuse .noSpace

/-- Refuses to go on if a directory has an entry in use. -/
def refuseUnlessEmpty (dir : Sector) : Attempt n Unit := do
  always (Inode.open dir)
  let empty ← always (isEmpty dir)
  always (Inode.close dir)
  if !empty then refuse .directoryNotEmpty

/-- Takes an entry out of a directory, if `check` agrees after a look at the entry and its inode. -/
def removeEntry (dir : Sector) (entry : Entry) (offset : Nat)
    (check : Entry → Node → Except Refusal Unit) : Attempt n Unit := do
  let target := entry.sector
  always (Inode.open target)
  thenAlways (do
    ofAnswer (check entry (← always (Inode.node target)))
    if entry.isDir then refuseUnlessEmpty target
    let _ ← Inode.writeAt dir offset entry.tombstone.toBytes
    always (Inode.markRemoved target)) (Inode.close target)

/-- Takes a name out of a directory, if `check` agrees. -/
def removeIf (dir : Sector) (name : String) (check : Entry → Node → Except Refusal Unit) :
    Attempt n Unit := do
  match ← always (lookup dir name) with
  | some (entry, offset) => removeEntry dir entry offset check
  | none => refuse .notFound

/-- Takes a name out of a directory. -/
def remove (dir : Sector) (name : String) : Attempt n Unit :=
  removeIf dir name fun _ _ => .ok ()

/-- The name of the first entry in use among the next `slots` from `offset` on, and the offset
behind the entries that were looked at. -/
def nextFrom (dir : Sector) : (slots : Nat) → (offset : Nat) → VolumeM n (Option String × Nat)
  | 0, offset => return (none, offset)
  | slots + 1, offset => do
    match ← entryAt dir offset with
    | none => return (none, offset)
    | some entry =>
      if entry.isInUse then return (some entry.name, offset + entrySize)
      else nextFrom dir slots (offset + entrySize)

/-- The next name of a directory that is read up to `offset`, and how far it is read then. -/
def next (dir : Sector) (offset : Nat) : VolumeM n (Option String × Nat) :=
  nextFrom dir maxSlots offset

/-- The next `slots` names from `offset` on, behind those read before, newest first. -/
def namesFrom (dir : Sector) :
    (slots : Nat) → (offset : Nat) → List String → VolumeM n (List String)
  | 0, _, names => return names
  | slots + 1, offset, names => do
    match ← next dir offset with
    | (some name, offset) => namesFrom dir slots offset (name :: names)
    | (none, _) => return names

/-- All names of a directory in the order of their slots. -/
def names (dir : Sector) : VolumeM n (List String) := do
  return (← namesFrom dir maxSlots 0 []).reverse

end Directory
end TieredVolume
