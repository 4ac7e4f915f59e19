import TieredVolume.Sector

/-!
Directory entries. An entry is 32 bytes: a name of up to 26 bytes of UTF-8 in a field of 27 that a
zero byte ends, a byte of flags, and the sector of the inode that the name stands for. An entry
without the in-use flag is a free slot; removing a name leaves all else as it was.
-/
namespace TieredVolume

/-- Bytes in the longest name. -/
abbrev nameMax : Nat := 26

/-- Bytes in an entry. -/
abbrev entrySize : Nat := 32

/-- Whether an entry can carry the name: not empty, not too long, no separator and no zero byte. -/
def isValidName (name : String) : Bool :=
  name ≠ "" && name.utf8ByteSize ≤ nameMax && name.toList.all fun c => c ≠ '/' && c ≠ '\x00'

/-- One slot of a directory. -/
structure Entry where
  field : Vector UInt8 27
  flagBits : UInt8
  sector : Sector
  deriving DecidableEq

namespace Entry

/-- The bytes of a name, filled up with zeros. -/
def nameField (name : String) : Vector UInt8 27 :=
  Vector.ofFn fun i => name.toUTF8.data.getD i.val 0

/-- The slot of zeros. -/
def empty : Entry := ⟨Vector.replicate 27 0, 0, ⟨0⟩⟩

/-- An entry in use. -/
def make (name : String) (sector : Sector) (isDir : Bool) : Except Fault Entry :=
  if isValidName name then .ok ⟨nameField name, if isDir then 3 else 1, sector⟩
  else .error .unfitName

/-- The name: the bytes before the first zero, or nothing if they are no UTF-8. -/
def name (e : Entry) : String :=
  (String.fromUTF8? (e.field.toList.takeWhile (· ≠ 0)).toByteArray).getD ""

/-- The flags that mean something. -/
def flags (e : Entry) : UInt8 := e.flagBits &&& 3

def isInUse (e : Entry) : Bool := e.flags &&& 1 ≠ 0

def isDir (e : Entry) : Bool := e.flags &&& 2 ≠ 0

/-- The entry as a free slot. -/
def tombstone (e : Entry) : Entry := { e with flagBits := e.flags &&& 2 }

/-- The 32 bytes of an entry. -/
def toBytes (e : Entry) : Bytes := e.field.toList ++ e.flagBits :: wordBytes e.sector.raw

/-- The entry that 32 bytes spell. -/
def ofBytes (bytes : Vector UInt8 32) : Entry where
  field := Vector.ofFn fun i => bytes[i.val]
  flagBits := bytes[27]
  sector := ⟨wordOf bytes[28] bytes[29] bytes[30] bytes[31]⟩

/-- The entry that a byte string spells, if it is one entry long. -/
def ofBytes? (bytes : Bytes) : Option Entry :=
  if h : bytes.length = 32 then some (ofBytes ⟨bytes.toArray, by simpa using h⟩) else none

@[simp] theorem length_toBytes (e : Entry) : e.toBytes.length = entrySize := by
  simp [toBytes, wordBytes]

@[simp] theorem ofBytes?_toBytes (e : Entry) : ofBytes? e.toBytes = some e := by
  have h : e.toBytes.length = 32 := length_toBytes e
  rw [ofBytes?, dif_pos h]
  cases e with
  | mk field flagBits sector =>
    simp only [ofBytes, Option.some.injEq, Entry.mk.injEq]
    refine ⟨?_, ?_, ?_⟩
    · ext i hi
      simp [toBytes]
    · simp [toBytes]
    · simp [toBytes, wordBytes]

end Entry

end TieredVolume
