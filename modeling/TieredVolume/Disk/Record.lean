import TieredVolume.Sector

/-!
Inode records. A record fills one sector: its 128 words are three header words, an index region of
79 links, the word that names the kind, the magic word, and 44 reserved words. The header of a file
is a record of kind `data`, whose links are the three tiers of its index; a record of kind
`indexBlock` lists child sectors in the first 64 links. `ofBlock` and `toBlock` are inverse to each
other, so storing a record again never alters a word that was not set.
-/
namespace TieredVolume

/-- Links of a file header that lead straight to a data sector. -/
abbrev directLinks : Nat := 11

/-- Links of a file header that lead to an index block of data sectors. -/
abbrev indirectLinks : Nat := 65

/-- Links of a file header that lead to an index block of index blocks. -/
abbrev doublyLinks : Nat := 3

/-- Links of a file header. -/
abbrev mainLinks : Nat := 79

theorem mainLinks_eq : mainLinks = directLinks + indirectLinks + doublyLinks := rfl

/-- Links of an index block. -/
abbrev blockLinks : Nat := 64

/-- The word that marks a sector as a record. -/
def magicWord : UInt32 := 0x494e4f44

/-- How the index region of a record is to be read. -/
inductive Kind where
  | data
  | indexBlock
  deriving DecidableEq, Repr

namespace Kind

def raw : Kind → UInt32
  | .data => 0
  | .indexBlock => 1

def ofRaw? (raw : UInt32) : Option Kind :=
  if raw = 0 then some .data else if raw = 1 then some .indexBlock else none

@[simp] theorem ofRaw?_raw (k : Kind) : ofRaw? k.raw = some k := by cases k <;> rfl

end Kind

/-- A record as it stands on the disk, valid or not. -/
structure Record where
  /-- The first data sector, the same as link 0. -/
  start : UInt32
  /-- The sector of the directory that holds the file. -/
  parent : UInt32
  /-- The length in bytes. -/
  length : UInt32
  index : Vector UInt32 79
  kindRaw : UInt32
  magic : UInt32
  reserved : Vector UInt32 44
  deriving DecidableEq

namespace Record

/-- A record of the given kind without any link. -/
def blank (kind : Kind) : Record where
  start := Sector.noneRaw
  parent := Sector.noneRaw
  length := 0
  index := Vector.replicate 79 Sector.noneRaw
  kindRaw := kind.raw
  magic := magicWord
  reserved := Vector.replicate 44 0

/-- The header of a file whose first data sector is `start`. Of the length the low 32 bits are kept. -/
def data (start parent : Sector) (length : Nat) : Record :=
  { blank .data with
    start := start.raw
    parent := parent.raw
    length := UInt32.ofNat length
    index := (Vector.replicate 79 Sector.noneRaw).set 0 start.raw }

/-- An index block without children. -/
def indexBlock : Record := blank .indexBlock

/-- The words of a record in the order in which they are stored. -/
def words (r : Record) : Vector UInt32 128 := Vector.ofFn fun k =>
  if k.val = 0 then r.start
  else if k.val = 1 then r.parent
  else if k.val = 2 then r.length
  else if h : k.val < 82 then r.index[k.val - 3]
  else if k.val = 82 then r.kindRaw
  else if k.val = 83 then r.magic
  else r.reserved[k.val - 84]

/-- The sector that stores a record. -/
def toBlock (r : Record) : Block := Block.ofWords r.words

/-- The record that a sector holds. -/
def ofBlock (b : Block) : Record where
  start := b.word 0
  parent := b.word 1
  length := b.word 2
  index := Vector.ofFn fun i => b.word (3 + i.val)
  kindRaw := b.word 82
  magic := b.word 83
  reserved := Vector.ofFn fun i => b.word (84 + i.val)

@[simp] theorem ofBlock_toBlock (r : Record) : ofBlock (toBlock r) = r := by
  cases r with
  | mk start parent length index kindRaw magic reserved =>
    simp only [ofBlock, toBlock, Block.word_ofWords, words, Vector.getElem_ofFn, Record.mk.injEq]
    refine ⟨by simp, by simp, by simp, ?_, by simp, by simp, ?_⟩
    · ext i hi
      rw [Vector.getElem_ofFn, if_neg (by omega), if_neg (by omega), if_neg (by omega),
        dif_pos (by omega)]
      simp
    · ext i hi
      rw [Vector.getElem_ofFn, if_neg (by omega), if_neg (by omega), if_neg (by omega),
        dif_neg (by omega), if_neg (by omega), if_neg (by omega)]
      simp

theorem words_ofBlock (b : Block) :
    (ofBlock b).words = Vector.ofFn fun k : Fin 128 => b.word k.val k.isLt := by
  ext k hk
  simp only [words, ofBlock, Vector.getElem_ofFn]
  split
  · simp_all
  split
  · simp_all
  split
  · simp_all
  split
  · simp [show 3 + (k - 3) = k by omega]
  split
  · simp_all
  split
  · simp_all
  · simp [show 84 + (k - 84) = k by omega]

@[simp] theorem toBlock_ofBlock (b : Block) : toBlock (ofBlock b) = b := by
  rw [toBlock, words_ofBlock, Block.ofWords_word]

/-- Whether the sector was written as a record. -/
def isValid (r : Record) : Bool := r.magic == magicWord && (Kind.ofRaw? r.kindRaw).isSome

/-- The record, once it is known to be one; `sector` is where it was found. -/
def validate (r : Record) (sector : Sector) : Except Fault Record :=
  if r.isValid then .ok r else .error (.corruptedInode sector.block)

def kind (r : Record) : Except Fault Kind :=
  match Kind.ofRaw? r.kindRaw with
  | some k => .ok k
  | none => .error (.corruptedKind r.kindRaw.toNat)

/-- Refuses to read the index region as anything but what it is. -/
def expect (r : Record) (kind : Kind) : Except Fault Unit := do
  if (← r.kind) = kind then .ok () else .error .wrongVariant

/-- How many links the index region has when it is read as `kind`. -/
def linkCount : Kind → Nat
  | .data => mainLinks
  | .indexBlock => blockLinks

theorem linkCount_le (k : Kind) : linkCount k ≤ 79 := by cases k <;> decide

/-- All links of a record of the given kind. -/
def links (r : Record) (kind : Kind) : Except Fault (List UInt32) := do
  r.expect kind
  return r.index.toList.take (linkCount kind)

/-- Link `i` of a record of the given kind. -/
def link (r : Record) (kind : Kind) (i : Nat) : Except Fault UInt32 := do
  r.expect kind
  if h : i < linkCount kind then
    have := linkCount_le kind
    return r.index[i]
  else .error .noSuchLink

/-- The record with link `i` replaced. -/
def setLink (r : Record) (kind : Kind) (i : Nat) (raw : UInt32) : Except Fault Record := do
  r.expect kind
  if h : i < linkCount kind then
    have := linkCount_le kind
    return { r with index := r.index.set i raw }
  else .error .noSuchLink

/-- The record with every link of a file header cut. -/
def cutLinks (r : Record) : Except Fault Record := do
  r.expect .data
  return { r with index := Vector.replicate 79 Sector.noneRaw }

/-- The record with another length, of which the low 32 bits are kept. -/
def withLength (r : Record) (length : Nat) : Record :=
  { r with length := UInt32.ofNat length }

/-- The range of `count` bytes of a record from `offset` on, which must lie inside it. -/
def checkPart (offset count : Nat) : Except Fault Unit := do
  if (← addOffset offset count) ≤ sectorSize then .ok () else .error .badRange

/-- `count` stored bytes of a record from `offset` on. -/
def part (r : Record) (offset count : Nat) : Except Fault Bytes := do
  checkPart offset count
  return Block.slice r.toBlock offset count

/-- The record that is stored when some bytes of `r` are replaced. -/
def patch (r : Record) (offset : Nat) (bytes : Bytes) : Except Fault Record := do
  checkPart offset bytes.length
  return ofBlock (Block.overlay r.toBlock offset bytes)

/-- How many sectors hold `length` bytes. -/
def dataSectors (length : Nat) : Nat := (length + (sectorSize - 1)) / sectorSize

end Record

end TieredVolume
