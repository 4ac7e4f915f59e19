import TieredVolume.Device
import TieredVolume.Proofs.Outcome

/-!
Devices as arrays of blocks. A sound device is one whose image is as long as its blocks; it has
contents under every block number below its count, and transfers act on them as on an array.
-/
namespace TieredVolume

theorem size_writeOver {image : Array UInt8} {offset : Nat} {bytes : Bytes}
    (h : offset + bytes.length ≤ image.size) :
    (writeOver image offset bytes).size = image.size := by
  induction bytes generalizing image offset with
  | nil => rfl
  | cons x xs ih =>
    simp only [List.length_cons] at h
    rw [writeOver, dif_pos (by omega), ih (by simp; omega), Array.size_set]

/-- Writing inside an image changes exactly the bytes written over. -/
theorem getElem_writeOver {image : Array UInt8} {offset : Nat} {bytes : Bytes} {i : Nat}
    (h : offset + bytes.length ≤ image.size) (hi : i < image.size)
    {hi' : i < (writeOver image offset bytes).size} :
    (writeOver image offset bytes)[i] =
      if hin : offset ≤ i ∧ i < offset + bytes.length then bytes[i - offset] else image[i] := by
  induction bytes generalizing image offset with
  | nil =>
    have hout : ¬ (offset ≤ i ∧ i < offset + ([] : Bytes).length) := by simp
    simp only [writeOver, dif_neg hout]
  | cons x xs ih =>
    simp only [List.length_cons] at h
    have hstep : writeOver image offset (x :: xs) =
        writeOver (image.set offset x (by omega)) (offset + 1) xs := by
      rw [writeOver, dif_pos]
    have hroom : offset + 1 + xs.length ≤ (image.set offset x (by omega)).size := by
      rw [Array.size_set]
      omega
    have hrest := @ih _ _ hroom (by rw [Array.size_set]; exact hi) (hstep ▸ hi')
    simp only [hstep, hrest, Array.getElem_set]
    by_cases heq : offset = i
    · subst heq
      rw [dif_neg (by omega), if_pos rfl, dif_pos ⟨by omega, by simp⟩]
      simp
    · by_cases hin : offset + 1 ≤ i ∧ i < offset + 1 + xs.length
      · rw [dif_pos hin, dif_pos ⟨by omega, by simp; omega⟩, List.getElem_cons, dif_neg (by omega)]
        congr 1
      · rw [dif_neg hin, if_neg heq, dif_neg (by simp; omega)]

/-- The bytes of blocks that lie one behind the other. -/
theorem length_flatMap_blocks (l : List Block) :
    (l.flatMap (·.toList)).length = l.length * sectorSize := by
  induction l with
  | nil => rfl
  | cons b l ih =>
    rw [List.flatMap_cons, List.length_append, ih, Vector.length_toList, List.length_cons,
      Nat.succ_mul, Nat.add_comm, sectorSize]

theorem slice_flatMap_blocks (l : List Block) {k : Nat} (hk : k < l.length) :
    ((l.flatMap (·.toList)).drop (k * sectorSize)).take sectorSize = l[k].toList := by
  induction l generalizing k with
  | nil => cases hk
  | cons b l ih =>
    have hlen : b.toList.length = sectorSize := Vector.length_toList
    rw [List.flatMap_cons]
    cases k with
    | zero =>
      rw [Nat.zero_mul, List.drop_zero, List.take_append_of_le_length (Nat.le_of_eq hlen.symm),
        List.take_of_length_le (Nat.le_of_eq hlen), List.getElem_cons_zero]
    | succ k =>
      rw [Nat.succ_mul, Nat.add_comm, ← List.drop_drop, ← hlen, List.drop_left, hlen,
        List.getElem_cons_succ]
      exact ih (Nat.lt_of_succ_lt_succ hk)

namespace Device

/-- An image is as long as its blocks; a disk in memory always is. -/
def Sound : Device → Prop
  | .memory _ => True
  | .image file => file.bytes.size = file.blocks * sectorSize

variable {d : Device} {block : Nat} {faults : Fault → Prop}

/-- The part of an image that holds one of its blocks is one block long. -/
theorem size_part {file : ImageFile} (h : Sound (.image file)) (hb : block < file.blocks) :
    (file.part block sectorSize).size = 512 := by
  simp only [Sound, sectorSize] at h
  simp only [ImageFile.part, Array.size_extract, h, sectorSize]
  omega

theorem block?_image {file : ImageFile} (h : Sound (.image file)) (hb : block < file.blocks) :
    (Device.image file).block? block = some ⟨file.part block sectorSize, size_part h hb⟩ := by
  have hlen : (file.part block sectorSize).toList.length = 512 := by simp [size_part h hb]
  simp only [block?, if_pos hb, Block.ofBytes?, dif_pos hlen]

theorem block?_isSome (h : d.Sound) (hb : block < d.blockCount) : ∃ b, d.block? block = some b := by
  cases d with
  | memory disk =>
    have hb' : block < disk.blocks.size := hb
    exact ⟨disk.blocks[block], Array.getElem?_eq_getElem hb'⟩
  | image file => exact ⟨_, block?_image h hb⟩

theorem block?_eq_none (hb : d.blockCount ≤ block) : d.block? block = none := by
  cases d with
  | memory disk => exact Array.getElem?_eq_none hb
  | image file => exact if_neg (Nat.not_lt.mpr hb)

/-- A read hands out the contents and leaves them as they are. -/
theorem readBlock_yields (h : d.Sound) (hb : block < d.blockCount) :
    Yields faults (readBlock block) d fun b d' => d.block? block = some b ∧ d'.Sound ∧
      d'.blockCount = d.blockCount ∧ ∀ k, d'.block? k = d.block? k := by
  cases d with
  | memory disk =>
    have hb' : block < disk.blocks.size := hb
    refine Yields.intro_ok (a := disk.blocks[block])
      (t := .memory { disk with reads := disk.reads + 1 }) ?_ ?_
    · simp only [readBlock, MemoryDisk.readBlock, dif_pos hb']
    · exact ⟨by simp [block?, hb'], trivial, rfl, fun k => rfl⟩
  | image file =>
    have hsize := size_part h hb
    refine Yields.intro_ok (a := ⟨file.part block sectorSize, hsize⟩) (t := .image file) ?_ ?_
    · simp only [readBlock, ImageFile.readBlock, if_pos (show block < file.blocks from hb),
        dif_pos hsize]
    · exact ⟨block?_image h hb, h, rfl, fun k => rfl⟩

/-- A device after a read, which a disk in memory counts. -/
def afterRead : Device → Device
  | .memory disk => .memory { disk with reads := disk.reads + 1 }
  | .image file => .image file

@[simp] theorem block?_afterRead (d : Device) (k : Nat) : d.afterRead.block? k = d.block? k := by
  cases d <;> rfl

theorem readBlock_leaves {d' : Device} {b : Block} (h : readBlock block d = .ok b d') :
    d' = d.afterRead := by
  cases d with
  | memory disk =>
    by_cases hb : block < disk.blocks.size
    · simp only [readBlock, MemoryDisk.readBlock, dif_pos hb, EStateM.Result.ok.injEq] at h
      exact h.2.symm
    · simp only [readBlock, MemoryDisk.readBlock, dif_neg hb] at h
      cases h
  | image file =>
    by_cases hb : block < file.blocks
    · by_cases hsize : (file.part block sectorSize).size = 512
      · simp only [readBlock, ImageFile.readBlock, if_pos hb, dif_pos hsize,
          EStateM.Result.ok.injEq] at h
        exact h.2.symm
      · simp only [readBlock, ImageFile.readBlock, if_pos hb, dif_neg hsize] at h
        cases h
    · simp only [readBlock, ImageFile.readBlock, if_neg hb] at h
      cases h

theorem readBlock_afterRead (block : Nat) (d : Device) :
    Yields anyFault (readBlock block) d fun _ d' => d' = d.afterRead := by
  unfold Yields
  cases hread : readBlock block d with
  | ok b d' => exact readBlock_leaves hread
  | error e d' => trivial

/-- Reading past the end is a fault. -/
theorem readBlock_error (hb : d.blockCount ≤ block) :
    ∃ e, readBlock block d = .error e d := by
  cases d with
  | memory disk =>
    have hb' : ¬ block < disk.blocks.size := Nat.not_lt.mpr hb
    exact ⟨.noSuchBlock, by simp only [readBlock, MemoryDisk.readBlock, dif_neg hb']⟩
  | image file =>
    have hb' : ¬ block < file.blocks := Nat.not_lt.mpr hb
    exact ⟨.outOfImage block, by simp only [readBlock, ImageFile.readBlock, if_neg hb']⟩

/-- Writing past the end is a fault. -/
theorem writeBlock_error (hb : d.blockCount ≤ block) (contents : Block) :
    ∃ e, writeBlock block contents d = .error e d := by
  cases d with
  | memory disk =>
    have hb' : ¬ block < disk.blocks.size := Nat.not_lt.mpr hb
    exact ⟨.noSuchBlock, by simp only [writeBlock, MemoryDisk.writeBlock, dif_neg hb']⟩
  | image file =>
    have hb' : ¬ block < file.blocks := Nat.not_lt.mpr hb
    exact ⟨.outOfImage block, by simp only [writeBlock, ImageFile.writeBlock, ImageFile.write,
      if_neg hb']⟩

/-- The blocks of an image after one of them is written over. -/
theorem block?_writeOver {file : ImageFile} (h : Sound (.image file)) (hb : block < file.blocks)
    (contents : Block) (k : Nat) :
    (Device.image { file with
      bytes := writeOver file.bytes (block * sectorSize) contents.toList }).block? k =
      if k = block then some contents else (Device.image file).block? k := by
  have hlen : contents.toList.length = 512 := by simp
  have hroom : block * sectorSize + contents.toList.length ≤ file.bytes.size := by
    simp only [Sound, sectorSize] at h ⊢
    omega
  have hsize := size_writeOver hroom
  by_cases hk : k < file.blocks
  · have hsound : Sound (.image { file with
        bytes := writeOver file.bytes (block * sectorSize) contents.toList }) := by
      simpa only [Sound, hsize] using h
    have hkey : ∀ i (hi : i < 512), k * 512 + i < file.bytes.size := by
      intro i hi
      simp only [Sound, sectorSize] at h
      omega
    rw [block?_image hsound hk]
    split
    · rename_i heq
      subst heq
      congr 1
      apply Vector.ext
      intro i hi
      have hin : k * sectorSize ≤ k * 512 + i ∧
          k * 512 + i < k * sectorSize + contents.toList.length := by
        simp only [sectorSize]
        omega
      simp only [ImageFile.part, Vector.getElem_mk, Array.getElem_extract]
      rw [getElem_writeOver hroom (hkey i hi), dif_pos hin]
      simp [sectorSize]
    · rename_i hne
      rw [block?_image h hk]
      congr 1
      apply Vector.ext
      intro i hi
      have hout : ¬ (block * sectorSize ≤ k * 512 + i ∧
          k * 512 + i < block * sectorSize + contents.toList.length) := by
        simp only [sectorSize]
        omega
      simp only [ImageFile.part, Vector.getElem_mk, Array.getElem_extract]
      rw [getElem_writeOver hroom (hkey i hi), dif_neg hout]
  · have hnone := Nat.not_lt.mp hk
    rw [if_neg (by omega), block?_eq_none (d := .image file) hnone]
    exact block?_eq_none (d := .image _) hnone

/-- A write changes exactly its own block. -/
theorem writeBlock_yields (h : d.Sound) (hb : block < d.blockCount) (contents : Block) :
    Yields faults (writeBlock block contents) d fun _ d' => d'.Sound ∧
      d'.blockCount = d.blockCount ∧
      ∀ k, d'.block? k = if k = block then some contents else d.block? k := by
  cases d with
  | memory disk =>
    have hb' : block < disk.blocks.size := hb
    refine Yields.intro_ok (a := ())
      (t := .memory { disk with blocks := disk.blocks.set block contents,
                                 writes := disk.writes + 1 }) ?_ ?_
    · simp only [writeBlock, MemoryDisk.writeBlock, dif_pos hb']
    · refine ⟨trivial, by simp [blockCount], fun k => ?_⟩
      simp only [block?, Array.getElem?_set]
      grind
  | image file =>
    have hb' : block < file.blocks := hb
    refine Yields.intro_ok (a := ())
      (t := .image { file with
        bytes := writeOver file.bytes (block * sectorSize) contents.toList }) ?_ ?_
    · simp only [writeBlock, ImageFile.writeBlock, ImageFile.write, if_pos hb']
    · refine ⟨?_, rfl, block?_writeOver h hb' contents⟩
      have hroom : block * sectorSize + contents.toList.length ≤ file.bytes.size := by
        simp only [Sound, sectorSize] at h
        simp only [Vector.length_toList, sectorSize]
        omega
      simpa only [Sound, size_writeOver hroom] using h

/-- From the first device to the second so many reads were made, if the device counts them. -/
def Reads (count : Nat) : Device → Device → Prop
  | .memory disk, .memory disk' => disk'.reads = disk.reads + count
  | .image _, .image _ => True
  | _, _ => False

section Reads

variable {d' d'' : Device} {k k' : Nat}

theorem Reads.refl (d : Device) : Reads 0 d d := by
  cases d with
  | memory disk => rfl
  | image file => trivial

theorem Reads.trans (h : Reads k d d') (h' : Reads k' d' d'') : Reads (k + k') d d'' := by
  cases d <;> cases d' <;> cases d'' <;> simp_all [Reads, Nat.add_assoc]

theorem Reads.counts (h : Reads 0 d d') : d'.counts.1 = d.counts.1 := by
  cases d <;> cases d' <;> simp_all [Reads, Device.counts]

theorem reads_afterRead (d : Device) : Reads 1 d d.afterRead := by
  cases d with
  | memory disk => rfl
  | image file => trivial

/-- A write counts as no read. -/
theorem writeBlock_reads (block : Nat) (contents : Block) (d : Device) :
    Yields anyFault (writeBlock block contents) d fun _ d' => Reads 0 d d' := by
  unfold Yields
  cases d with
  | memory disk =>
    by_cases hb : block < disk.blocks.size
    · simp [writeBlock, MemoryDisk.writeBlock, hb, Reads]
    · simp [writeBlock, MemoryDisk.writeBlock, hb, anyFault]
  | image file =>
    simp only [writeBlock]
    cases file.writeBlock block contents <;> trivial

end Reads

/-- The bytes of a device, written to a file of the host, are an image with the same blocks. -/
theorem exists_image (h : d.Sound) : ∃ file, ImageFile.open? d.bytes = .ok file ∧
    (Device.image file).Sound ∧ (Device.image file).blockCount = d.blockCount ∧
    ∀ k, (Device.image file).block? k = d.block? k := by
  cases d with
  | image file =>
    have hsize : file.bytes.size = file.blocks * sectorSize := h
    refine ⟨file, ?_, h, rfl, fun _ => rfl⟩
    rw [bytes, ImageFile.open?, hsize, if_pos (Nat.mul_mod_left ..),
      Nat.mul_div_cancel _ (by decide)]
  | memory disk =>
    have hlist : (Device.memory disk).bytes.toList = disk.blocks.toList.flatMap (·.toList) := by
      rw [bytes, Array.toList_flatMap]
      rfl
    have hsize : (Device.memory disk).bytes.size = disk.blocks.size * sectorSize := by
      rw [← Array.length_toList, hlist, length_flatMap_blocks, Array.length_toList]
    have hsound : (Device.image ⟨(Device.memory disk).bytes, disk.blocks.size⟩).Sound := hsize
    refine ⟨⟨_, disk.blocks.size⟩, ?_, hsound, rfl, fun k => ?_⟩
    · rw [ImageFile.open?, hsize, if_pos (Nat.mul_mod_left ..), Nat.mul_div_cancel _ (by decide)]
    · by_cases hk : k < disk.blocks.size
      · have hblock : (Device.memory disk).block? k = some disk.blocks[k] :=
          Array.getElem?_eq_getElem hk
        have hpart := slice_flatMap_blocks disk.blocks.toList hk
        rw [← hlist, Array.getElem_toList] at hpart
        rw [block?_image hsound hk, hblock]
        refine congrArg some (Vector.toList_inj.mp ?_)
        rw [← hpart]
        simp [ImageFile.part]
      · rw [block?_eq_none (d := .image _) (Nat.not_lt.mp hk),
          block?_eq_none (d := .memory _) (Nat.not_lt.mp hk)]

end Device

end TieredVolume
