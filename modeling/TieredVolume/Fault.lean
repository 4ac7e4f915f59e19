/-!
The two ways in which an operation can fail. A `Fault` is final: a caller broke a rule of a lower
layer, or the volume contradicts itself, and nothing can be said about it afterwards. A `Refusal`
is an ordinary answer, after which the volume goes on. Each kind has one wording.
-/
namespace TieredVolume

/-- What stops the volume for good. -/
inductive Fault where
  /-- A cache was asked for without a single slot. -/
  | noSlots
  /-- A transfer inside a sector runs past its end. -/
  | pastSectorEnd
  /-- A run of no sectors was asked for. -/
  | emptyRun
  /-- A descriptor or a working directory was given up that nobody holds. -/
  | notHeld
  /-- A directory entry was made of a name that no entry can carry. -/
  | unfitName
  /-- A block number lies past the end of the device. -/
  | noSuchBlock
  /-- A sector number has no bit in the free map. -/
  | noSuchBit
  /-- A link number lies past the index region. -/
  | noSuchLink
  /-- A byte range lies outside the record it is cut from. -/
  | badRange
  /-- A sum of offsets and lengths does not fit the word it is kept in. -/
  | overflow
  /-- A transfer did not move exactly one block. -/
  | incompleteBlock
  /-- A block number lies past the image it was opened with. -/
  | outOfImage (block : Nat)
  /-- A sector that is already free was released. -/
  | doubleRelease (index : Nat)
  /-- The index region was read as links of the other kind of record. -/
  | wrongVariant
  /-- A sector that should hold an inode record does not. -/
  | corruptedInode (sector : Nat)
  /-- The kind word of a record names no kind. -/
  | corruptedKind (raw : Nat)
  /-- A logical sector lies past the last one an index can reach. -/
  | pastIndex (limit : Nat)
  /-- A device has no room for anything but the free map. -/
  | deviceTooSmall (total : Nat)
  /-- Writing was allowed again more often than it was denied. -/
  | unmatchedAllow
  /-- An inode was used that nobody has open. -/
  | notOpen
  /-- A record was used while no load holds it. -/
  | notLoaded
  /-- Every slot of the cache is in use, so none can be given up. -/
  | allSlotsBusy
  deriving DecidableEq, Repr

/-- A number in hexadecimal, with its mark. -/
def hexNumber (n : Nat) : String := "0x" ++ String.ofList (Nat.toDigits 16 n)

/-- The wording of a fault. -/
def Fault.message : Fault → String
  | .noSlots | .pastSectorEnd | .emptyRun | .notHeld | .unfitName => "assertion failed"
  | .noSuchBlock | .noSuchBit | .noSuchLink => "index out of bounds"
  | .badRange => "slice out of range"
  | .overflow => "arithmetic overflow"
  | .incompleteBlock => "not a complete block!"
  | .outOfImage block => s!"block {block} is out of the image"
  | .doubleRelease index => s!"double release of sector {index}"
  | .wrongVariant => "index region accessed as the wrong variant"
  | .corruptedInode sector => s!"corrupted inode at sector {sector}"
  | .corruptedKind raw => s!"corrupted inode kind {hexNumber raw}"
  | .pastIndex limit => s!"file cannot grow past {limit} sectors"
  | .deviceTooSmall total => s!"device with {total} sectors is too small to hold a file system"
  | .unmatchedAllow => "allow_write without a matching deny_write"
  | .notOpen => "inode is not open"
  | .notLoaded => "inode record accessed while unloaded"
  | .allSlotsBusy => "every cache slot is busy"

/-- The ordinary ways in which a volume says no. -/
inductive Refusal where
  | noSpace
  | notFound
  | alreadyExists
  | invalidName
  | notADirectory
  | isADirectory
  | directoryNotEmpty
  | busy
  deriving DecidableEq, Repr

/-- The wording of a refusal. -/
def Refusal.message : Refusal → String
  | .noSpace => "no free sector left on device"
  | .notFound => "no such file or directory"
  | .alreadyExists => "entry already exists"
  | .invalidName => "invalid entry name"
  | .notADirectory => "not a directory"
  | .isADirectory => "is a directory"
  | .directoryNotEmpty => "directory not empty"
  | .busy => "directory is in use"

/-- The end of the words of 64 bits, in which offsets and lengths are kept. -/
abbrev offsetLimit : Nat := 18446744073709551616

/-- An offset or a length; one that does not fit its word is a fault. -/
def checkOffset (n : Nat) : Except Fault Nat :=
  if n < offsetLimit then .ok n else .error .overflow

/-- The sum of an offset and a length. -/
def addOffset (a b : Nat) : Except Fault Nat := checkOffset (a + b)

theorem addOffset_eq_ok_iff {a b c : Nat} :
    addOffset a b = .ok c ↔ c = a + b ∧ a + b < offsetLimit := by
  unfold addOffset checkOffset
  split
  · simp_all [eq_comm]
  · simp_all

end TieredVolume
