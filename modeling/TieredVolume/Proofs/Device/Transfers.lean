import TieredVolume.Proofs.Device

/-!
Transfers one after the other, on a disk in memory and on an image. Both kinds of device hold a list
of blocks, which their bytes are one behind the other, and a transfer does to that list the same on
both: as long as they hold the same blocks, nobody can tell them apart.
-/
namespace TieredVolume

/-- A read into a buffer of one block, or a write from one. -/
inductive Transfer where
  | read (block : Nat)
  | write (block : Nat) (contents : Block)

namespace Transfer

/-- Which block it asks for. -/
def block : Transfer → Nat
  | read k => k
  | write k _ => k

/-- What a device answers, or nothing if it refuses, and the device afterwards. -/
def serve (t : Transfer) (d : Device) : Option Bytes × Device :=
  match t with
  | read k =>
    match Device.readBlock k d with
    | .ok b d' => (some b.toList, d')
    | .error _ d' => (none, d')
  | write k contents =>
    match Device.writeBlock k contents d with
    | .ok _ d' => (some [], d')
    | .error _ d' => (none, d')

/-- Transfers one after the other, whether or not the device refuses some. -/
def serveAll : List Transfer → Device → List (Option Bytes) × Device
  | [], d => ([], d)
  | t :: ts, d => ((t.serve d).1 :: (serveAll ts (t.serve d).2).1, (serveAll ts (t.serve d).2).2)

/-- The bytes that are read from the blocks. -/
def answer (blocks : List Block) : (t : Transfer) → t.block < blocks.length → Bytes
  | read k, hk => (blocks.get ⟨k, hk⟩).toList
  | write _ _, _ => []

/-- The blocks after the transfer. -/
def after (blocks : List Block) : Transfer → List Block
  | read _ => blocks
  | write k contents => blocks.set k contents

@[simp] theorem length_after (blocks : List Block) (t : Transfer) :
    (t.after blocks).length = blocks.length := by
  cases t with
  | read k => rfl
  | write k contents => exact List.length_set

end Transfer

/-- Bytes that are a number of blocks long are the bytes of so many blocks. -/
theorem exists_blocks {count : Nat} {bytes : Bytes} (h : bytes.length = count * sectorSize) :
    ∃ blocks : List Block, blocks.length = count ∧ blocks.flatMap (·.toList) = bytes := by
  induction count generalizing bytes with
  | zero =>
    rw [Nat.zero_mul] at h
    exact ⟨[], rfl, (List.eq_nil_of_length_eq_zero h).symm⟩
  | succ count ih =>
    rw [Nat.succ_mul] at h
    have hfirst : (bytes.take sectorSize).length = 512 := by
      rw [List.length_take]
      simp only [sectorSize] at h ⊢
      omega
    obtain ⟨blocks, hlen, hblocks⟩ := @ih (bytes.drop sectorSize) (by rw [List.length_drop]; omega)
    refine ⟨⟨(bytes.take sectorSize).toArray, hfirst⟩ :: blocks, by rw [List.length_cons, hlen], ?_⟩
    rw [List.flatMap_cons, hblocks]
    exact List.take_append_drop ..

/-- The bytes tell the blocks. -/
theorem flatMap_blocks_injective {l l' : List Block}
    (h : l.flatMap (·.toList) = l'.flatMap (·.toList)) : l = l' := by
  have hlen : l.length = l'.length := by
    have hbytes := congrArg List.length h
    rw [length_flatMap_blocks, length_flatMap_blocks] at hbytes
    exact Nat.eq_of_mul_eq_mul_right (by decide) hbytes
  refine List.ext_getElem hlen fun k hk hk' => Vector.toList_inj.mp ?_
  rw [← slice_flatMap_blocks l hk, ← slice_flatMap_blocks l' hk', h]

/-! ### What a device holds -/

namespace Device

/-- The device is sound, and its bytes are those of the blocks, one behind the other. -/
structure Holds (blocks : List Block) (d : Device) : Prop where
  sound : d.Sound
  blockCount : d.blockCount = blocks.length
  bytes : d.bytes.toList = blocks.flatMap (·.toList)

variable {d : Device} {blocks : List Block} {t : Transfer}

theorem exists_holds (h : d.Sound) :
    ∃ blocks, Holds blocks d ∧ ∀ k, d.block? k = blocks[k]? := by
  cases d with
  | memory disk =>
    refine ⟨disk.blocks.toList, ⟨h, Array.length_toList.symm, ?_⟩, fun k =>
      Array.getElem?_toList.symm⟩
    rw [bytes, Array.toList_flatMap]
    rfl
  | image file =>
    have hsize : file.bytes.toList.length = file.blocks * sectorSize := by
      rw [Array.length_toList]
      exact h
    obtain ⟨blocks, hlen, hblocks⟩ := exists_blocks hsize
    refine ⟨blocks, ⟨h, hlen.symm, hblocks.symm⟩, fun k => ?_⟩
    by_cases hk : k < file.blocks
    · have hk' : k < blocks.length := hlen.symm ▸ hk
      have hpart := slice_flatMap_blocks blocks hk'
      rw [block?_image h hk, List.getElem?_eq_getElem hk']
      refine congrArg some (Vector.toList_inj.mp ?_)
      rw [← hpart, hblocks]
      simp [ImageFile.part]
    · have hk' : blocks.length ≤ k := hlen.symm ▸ Nat.not_lt.mp hk
      rw [block?_eq_none (d := .image file) (Nat.not_lt.mp hk), List.getElem?_eq_none hk']

namespace Holds

theorem block? (h : Holds blocks d) (k : Nat) : d.block? k = blocks[k]? := by
  obtain ⟨blocks', h', hblock⟩ := exists_holds h.sound
  rw [hblock k, flatMap_blocks_injective (h'.bytes.symm.trans h.bytes)]

/-- Sound devices with the same blocks have the same bytes. -/
theorem of_block? (hd : d.Sound) (hblock : ∀ k, d.block? k = blocks[k]?) : Holds blocks d := by
  obtain ⟨blocks', h', hblock'⟩ := exists_holds hd
  have heq : blocks' = blocks := List.ext_getElem? fun k => (hblock' k).symm.trans (hblock k)
  exact heq ▸ h'

theorem size_bytes (h : Holds blocks d) : d.bytes.size = blocks.length * sectorSize := by
  rw [← Array.length_toList, h.bytes, length_flatMap_blocks]

/-- A transfer of a block that is not there is refused and changes nothing. -/
theorem serve_refuses (h : Holds blocks d) (ht : blocks.length ≤ t.block) :
    t.serve d = (none, d) := by
  rw [← h.blockCount] at ht
  cases t with
  | read k =>
    obtain ⟨e, he⟩ : ∃ e, readBlock k d = .error e d := readBlock_error ht
    simp only [Transfer.serve, he]
  | write k contents =>
    obtain ⟨e, he⟩ : ∃ e, writeBlock k contents d = .error e d := writeBlock_error ht contents
    simp only [Transfer.serve, he]

/-- A transfer of a block that is there is served, and is done to the blocks that are held. -/
theorem serve_answers (h : Holds blocks d) (ht : t.block < blocks.length) :
    (t.serve d).1 = some (t.answer blocks ht) ∧ Holds (t.after blocks) (t.serve d).2 := by
  cases t with
  | read k =>
    have hin : k < d.blockCount := h.blockCount ▸ ht
    obtain ⟨b, d', hrun, hb, hsound, -, hblocks⟩ := (readBlock_yields h.sound hin).ok_of_never
    have hk : k < blocks.length := ht
    have heq : b = blocks[k] := by
      rw [h.block?, List.getElem?_eq_getElem hk] at hb
      exact (Option.some.inj hb).symm
    simp only [Transfer.serve, hrun]
    refine ⟨by rw [heq]; rfl, of_block? hsound fun j => ?_⟩
    rw [hblocks, h.block?, Transfer.after]
  | write k contents =>
    have hin : k < d.blockCount := h.blockCount ▸ ht
    obtain ⟨u, d', hrun, hsound, -, hblocks⟩ :=
      (writeBlock_yields h.sound hin contents).ok_of_never
    simp only [Transfer.serve, hrun]
    refine ⟨rfl, of_block? hsound fun j => ?_⟩
    rw [hblocks, h.block?, Transfer.after, List.getElem?_set]
    have hk : k < blocks.length := ht
    grind

end Holds

/-- Two devices that hold the same blocks answer all transfers alike, and hold the same blocks after
them. -/
theorem serveAll_alike {d' : Device} (h : Holds blocks d) (h' : Holds blocks d')
    (transfers : List Transfer) :
    (Transfer.serveAll transfers d).1 = (Transfer.serveAll transfers d').1 ∧
    ∃ blocks', blocks'.length = blocks.length ∧ Holds blocks' (Transfer.serveAll transfers d).2 ∧
      Holds blocks' (Transfer.serveAll transfers d').2 := by
  induction transfers generalizing d d' blocks with
  | nil => exact ⟨rfl, blocks, rfl, h, h'⟩
  | cons t transfers ih =>
    simp only [Transfer.serveAll]
    by_cases ht : t.block < blocks.length
    · obtain ⟨hanswer, hafter⟩ := h.serve_answers ht
      obtain ⟨hanswer', hafter'⟩ := h'.serve_answers ht
      obtain ⟨hrest, blocks', hlen, hheld, hheld'⟩ := ih hafter hafter'
      refine ⟨by rw [hanswer, hanswer', hrest], blocks', ?_, hheld, hheld'⟩
      rw [hlen, Transfer.length_after]
    · obtain ⟨hrest, hblocks⟩ := ih h h'
      have hout := Nat.not_lt.mp ht
      rw [h.serve_refuses hout, h'.serve_refuses hout]
      exact ⟨by rw [hrest], hblocks⟩

/-- A disk in memory and an image agree. Whatever bytes an image of so many blocks has, a disk can
have the same, and however they are used then, they answer alike and have the same bytes, which are
as many as before. After any use the next transfer is refused by both, and changes nothing, if its
block is not there; otherwise both read the block, or both have it written and no other. -/
theorem transfers_exact {count : Nat} {contents : Array UInt8}
    (hsize : contents.size = count * sectorSize) :
    ∃ file, ImageFile.open? contents = .ok file ∧ file.bytes = contents ∧
    (∃ disk : MemoryDisk, (Device.memory disk).bytes = contents) ∧
    ∀ disk : MemoryDisk, (Device.memory disk).bytes = contents → disk.blocks.size = count ∧
    ∀ transfers : List Transfer, ∃ answers blocks d d',
      Transfer.serveAll transfers (.memory disk) = (answers, d) ∧
      Transfer.serveAll transfers (.image file) = (answers, d') ∧
      Holds blocks d ∧ Holds blocks d' ∧ d.bytes = d'.bytes ∧ d.blockCount = count ∧
      d'.blockCount = count ∧ d'.bytes.size = count * sectorSize ∧
      ∀ t : Transfer,
        (count ≤ t.block → t.serve d = (none, d) ∧ t.serve d' = (none, d')) ∧
        (t.block < count → ∃ (ht : t.block < blocks.length) (e e' : Device),
          t.serve d = (some (t.answer blocks ht), e) ∧
          t.serve d' = (some (t.answer blocks ht), e') ∧
          Holds (t.after blocks) e ∧ Holds (t.after blocks) e') := by
  have hcontents : contents.toList.length = count * sectorSize := by rw [Array.length_toList, hsize]
  obtain ⟨blocks, hlen, hblocks⟩ := exists_blocks hcontents
  have hfile : Holds blocks (.image ⟨contents, count⟩) := ⟨hsize, hlen.symm, hblocks.symm⟩
  have hdisk : ∀ disk : MemoryDisk, (Device.memory disk).bytes = contents →
      Holds blocks (.memory disk) := by
    intro disk hbytes
    obtain ⟨blocks', h, -⟩ := exists_holds (d := .memory disk) trivial
    have heq : blocks' = blocks := by
      refine flatMap_blocks_injective ?_
      rw [hblocks, ← h.bytes, hbytes]
    exact heq ▸ h
  refine ⟨⟨contents, count⟩, ?_, rfl, ⟨{ blocks := blocks.toArray }, ?_⟩, fun disk hbytes =>
    ⟨(hdisk disk hbytes).blockCount.trans hlen, fun transfers => ?_⟩⟩
  · rw [ImageFile.open?, hsize, if_pos (Nat.mul_mod_left ..), Nat.mul_div_cancel _ (by decide)]
  · rw [← Array.toList_inj, ← hblocks, bytes, Array.toList_flatMap]
    rfl
  · obtain ⟨hanswers, blocks', hlen', h, h'⟩ := serveAll_alike (hdisk disk hbytes) hfile transfers
    have hcount : blocks'.length = count := hlen'.trans hlen
    refine ⟨_, blocks', _, (Transfer.serveAll transfers (.image ⟨contents, count⟩)).2, rfl,
      Prod.ext hanswers.symm rfl, h, h', ?_, ?_, ?_, ?_, fun t =>
      ⟨fun ht => ?_, fun ht => ?_⟩⟩
    · rw [← Array.toList_inj, h.bytes, h'.bytes]
    · rw [h.blockCount, hcount]
    · rw [h'.blockCount, hcount]
    · rw [h'.size_bytes, hcount]
    · have hout : blocks'.length ≤ t.block := hcount.symm ▸ ht
      exact ⟨h.serve_refuses hout, h'.serve_refuses hout⟩
    · have hin : t.block < blocks'.length := hcount.symm ▸ ht
      obtain ⟨hanswer, hafter⟩ := h.serve_answers hin
      obtain ⟨hanswer', hafter'⟩ := h'.serve_answers hin
      exact ⟨hin, _, _, Prod.ext hanswer rfl, Prod.ext hanswer' rfl, hafter, hafter'⟩

/-- A disk of two blocks and its image, after a write to the last block and one behind it. -/
theorem transfers_exact_last : ∃ file d d',
    ImageFile.open? (Device.memory (MemoryDisk.blank 2)).bytes = .ok file ∧
    Transfer.serveAll [.write 1 (Vector.replicate 512 7), .write 2 Block.zero]
      (.memory (MemoryDisk.blank 2)) = ([some [], none], d) ∧
    Transfer.serveAll [.write 1 (Vector.replicate 512 7), .write 2 Block.zero]
      (.image file) = ([some [], none], d') ∧
    d.bytes = d'.bytes ∧ d'.bytes.size = 1024 ∧
    ∃ b e e', (Transfer.read 1).serve d = (some b, e) ∧
      (Transfer.read 1).serve d' = (some b, e') := by
  have hsize : (Device.memory (MemoryDisk.blank 2)).bytes.size = 2 * sectorSize := by
    obtain ⟨blocks, h, -⟩ := exists_holds (d := .memory (MemoryDisk.blank 2)) trivial
    rw [h.size_bytes, ← h.blockCount]
    rfl
  obtain ⟨file, hopen, -, -, hruns⟩ := transfers_exact hsize
  obtain ⟨answers, blocks, d, d', hrun, hrun', -, -, hbytes, -, -, hlen, hnext⟩ :=
    (hruns (MemoryDisk.blank 2) rfl).2 [.write 1 (Vector.replicate 512 7), .write 2 Block.zero]
  have hanswers : answers = [some [], none] := (congrArg Prod.fst hrun).symm
  obtain ⟨ht, e, e', hread, hread', -⟩ := (hnext (.read 1)).2 (by decide)
  exact ⟨file, d, d', hopen, hanswers ▸ hrun, hanswers ▸ hrun', hbytes, hlen, _, e, e', hread,
    hread'⟩

end Device
end TieredVolume
