import TieredVolume.Proofs.Cache.History
import TieredVolume.Proofs.Space.FreeMap

/-!
The free map on its own sectors. It is written there word by word, and every word that was written
reads back as it is in memory; from the words of a whole map the same map is made again.
-/
namespace TieredVolume

/-- A sector of the free map. -/
def IsMap (total : Nat) (s : Sector) : Prop :=
  freeMapStart ≤ s.block ∧ s.block < FreeMap.reserved total

namespace Block

theorem getElem?_slice (b : Block) (offset count i : Nat) :
    (slice b offset count)[i]? = if i < count then b.toList[offset + i]? else none := by
  rw [slice_eq, List.getElem?_take, List.getElem?_drop]

/-- What was laid over a block is read from where it was laid. -/
theorem slice_overlay {b : Block} {offset : Nat} {bytes : Bytes}
    (h : offset + bytes.length ≤ sectorSize) :
    slice (overlay b offset bytes) offset bytes.length = bytes := by
  refine List.ext_getElem? fun i => ?_
  rw [getElem?_slice]
  by_cases hi : i < bytes.length
  · have hlt : offset + i < 512 := by
      simp only [sectorSize] at h
      omega
    have hin : offset ≤ offset + i ∧ offset + i < offset + bytes.length := by omega
    rw [if_pos hi, List.getElem?_eq_getElem (by simp [hlt]), List.getElem?_eq_getElem hi]
    simp [getElem_overlay _ _ _ _ hlt, hi]
  · rw [if_neg hi, List.getElem?_eq_none (Nat.not_lt.mp hi)]

/-- What lies beside it is not touched. -/
theorem slice_overlay_of_disjoint {b : Block} {offset offset' count : Nat} {bytes : Bytes}
    (h : offset' + count ≤ offset ∨ offset + bytes.length ≤ offset') :
    slice (overlay b offset bytes) offset' count = slice b offset' count := by
  refine List.ext_getElem? fun i => ?_
  rw [getElem?_slice, getElem?_slice]
  by_cases hi : i < count
  · rw [if_pos hi, if_pos hi]
    by_cases hlt : offset' + i < 512
    · have hout : ¬ (offset ≤ offset' + i ∧ offset' + i < offset + bytes.length) := by omega
      rw [List.getElem?_eq_getElem (by simp [hlt]), List.getElem?_eq_getElem (by simp [hlt])]
      simp only [Vector.getElem_toList, getElem_overlay _ _ _ _ hlt, dif_neg hout]
    · rw [List.getElem?_eq_none (by simp; omega), List.getElem?_eq_none (by simp; omega)]
  · rw [if_neg hi, if_neg hi]

end Block

namespace FreeMap

variable {n total blocks k count : Nat} {m m' : FreeMap} {c c' : Cache n} {faults : Fault → Prop}

/-! ### Words in memory -/

theorem length_wordBytes (m : FreeMap) (k : Nat) : (m.wordBytes k).length = 8 := by
  simp [wordBytes]

theorem getD_used (m : FreeMap) (i : Nat) :
    m.used.toArray.getD i false = (decide (i < mapBits m.total) && m.isUsed i) := by
  by_cases hi : i < mapBits m.total
  · simp [isUsed, hi]
  · simp [hi]

theorem byte_congr (htotal : m'.total = m.total)
    (hbits : ∀ j < 8, m'.isUsed (8 * k + j) = m.isUsed (8 * k + j)) : m'.byte k = m.byte k := by
  simp only [byte, getD_used, htotal]
  rw [hbits 0, hbits 1, hbits 2, hbits 3, hbits 4, hbits 5, hbits 6, hbits 7] <;> decide

theorem wordBytes_congr (htotal : m'.total = m.total)
    (hbits : ∀ i, i / 64 = k → m'.isUsed i = m.isUsed i) : m'.wordBytes k = m.wordBytes k := by
  refine List.map_congr_left fun j hj => byte_congr htotal fun i hi => hbits _ ?_
  have hj' := List.mem_range.mp hj
  omega

/-! ### Words on the disk -/

/-- Word `k` of a map, as the cache has it. -/
def wordOn (c : Cache n) (k : Nat) : Option Bytes :=
  (c.current (wordSector k)).map (Block.slice · (wordOffset k) 8)

/-- Every word of the map is in its place on the disk. -/
def Written (m : FreeMap) (c : Cache n) : Prop :=
  ∀ k < mapSectors m.total * wordsPerSector, wordOn c k = some (m.wordBytes k)

/-- Where every sector has a number of its own, the sectors of the map have. -/
theorem reserved_le_limit (h : total < sectorLimit) : reserved total ≤ sectorLimit := by
  simp only [reserved, mapSectors, freeMapStart, sectorBits, sectorLimit] at *
  omega

section Room

variable (hlimit : reserved total ≤ sectorLimit) (hk : k < mapSectors total * wordsPerSector)

include hlimit hk

theorem block_wordSector : (wordSector k).block = freeMapStart + k / wordsPerSector := by
  refine Sector.block_ofNat ?_
  simp only [reserved, freeMapStart, wordsPerSector, sectorLimit] at *
  omega

theorem isMap_wordSector : IsMap total (wordSector k) := by
  rw [IsMap, block_wordSector hlimit hk, reserved]
  simp only [wordsPerSector] at *
  omega

theorem wordSector_lt (hroom : reserved total ≤ blocks) : (wordSector k).block < blocks :=
  Nat.lt_of_lt_of_le (isMap_wordSector hlimit hk).2 hroom

end Room

theorem wordOffset_le (k : Nat) : wordOffset k + 8 ≤ sectorSize := by
  simp only [wordOffset, wordsPerSector, sectorSize]
  omega

/-- The words of a map are where they were if none of its sectors changed. -/
theorem Written.congr (h : m.Written c) (hlimit : m.total < sectorLimit)
    (hcur : ∀ s, IsMap m.total s → c'.current s = c.current s) : m.Written c' := fun k hk => by
  rw [wordOn, hcur _ (isMap_wordSector (reserved_le_limit hlimit) hk)]
  exact h k hk

/-- A map that is written fills its sectors, so that these are the same wherever it is. -/
theorem Written.current_eq {j : Nat} {d : Cache j} (h : m.Written c) (h' : m.Written d)
    (hlimit : m.total < sectorLimit) {s : Sector} (hs : IsMap m.total s) : d.current s = c.current s := by
  have hword : ∀ i < sectorSize, ∃ k < mapSectors m.total * wordsPerSector,
      wordSector k = s ∧ wordOffset k = i / 8 * 8 := fun i hi => by
    have hblock := hs
    simp only [IsMap, reserved, freeMapStart] at hblock
    simp only [sectorSize] at hi
    have hk : (s.block - 1) * 64 + i / 8 < mapSectors m.total * wordsPerSector := by
      simp only [wordsPerSector]
      omega
    refine ⟨_, hk, Sector.block_injective ?_, ?_⟩
    · rw [block_wordSector (reserved_le_limit hlimit) hk]
      simp only [freeMapStart, wordsPerSector]
      omega
    · simp only [wordOffset, wordsPerSector]
      omega
  -- what both have of one byte is in the word around it
  have hbyte : ∀ i < sectorSize, ∃ b b' : Block, c.current s = some b ∧ d.current s = some b' ∧
      b'.toList[i]? = b.toList[i]? := fun i hi => by
    obtain ⟨k, hk, rfl, hoffset⟩ := hword i hi
    obtain ⟨b, hb, hslice⟩ := Option.map_eq_some_iff.mp (h k hk)
    obtain ⟨b', hb', hslice'⟩ := Option.map_eq_some_iff.mp (h' k hk)
    have hget := congrArg (·[i % 8]?) (hslice'.trans hslice.symm)
    simp only [Block.getElem?_slice, hoffset, if_pos (Nat.mod_lt i (show 0 < 8 by decide)),
      Nat.div_add_mod'] at hget
    exact ⟨b, b', hb, hb', hget⟩
  obtain ⟨b, b', hb, hb', -⟩ := hbyte 0 (by decide)
  rw [hb, hb', Option.some.injEq]
  refine Vector.toList_inj.mp (List.ext_getElem? fun i => ?_)
  by_cases hi : i < sectorSize
  · obtain ⟨b₁, b₁', hb₁, hb₁', hget⟩ := hbyte i hi
    rw [hb, Option.some.injEq] at hb₁
    rw [hb', Option.some.injEq] at hb₁'
    rw [hb₁, hb₁', hget]
  · rw [List.getElem?_eq_none (by simpa [sectorSize] using hi),
      List.getElem?_eq_none (by simpa [sectorSize] using hi)]

/-- Writing a run of words changes these and nothing else. The device may go on behind the sectors
that the map is for. -/
structure Persisted (m : FreeMap) (total blocks k count : Nat) (c c' : Cache n) : Prop where
  usable : Cache.Usable blocks c'
  current : ∀ s : Sector, s.block < blocks → ¬ IsMap total s → c'.current s = c.current s
  dirty : ∀ s, c'.Dirty s → c.Dirty s ∨ IsMap total s
  word : ∀ j < mapSectors total * wordsPerSector,
    wordOn c' j = if k ≤ j ∧ j < k + count then some (m.wordBytes j) else wordOn c j

/-- What writing one word does to the words. -/
theorem wordOn_of_changes {b : Block} (hb : c.current (wordSector k) = some b)
    (hlimit : reserved total ≤ sectorLimit) (hroom : reserved total ≤ blocks)
    (hk : k < mapSectors total * wordsPerSector)
    (hcur : ∀ s : Sector, s.block < blocks → c'.current s = if s = wordSector k then
      some (Block.overlay b (wordOffset k) (m.wordBytes k)) else c.current s)
    {j : Nat} (hj : j < mapSectors total * wordsPerSector) :
    wordOn c' j = if j = k then some (m.wordBytes j) else wordOn c j := by
  rw [wordOn, hcur _ (wordSector_lt hlimit hj hroom)]
  by_cases hjk : j = k
  · subst hjk
    rw [if_pos rfl, if_pos rfl, Option.map_some, ← length_wordBytes m j, Block.slice_overlay]
    rw [length_wordBytes]
    exact wordOffset_le j
  rw [if_neg hjk]
  by_cases hsector : wordSector j = wordSector k
  · have hblock := congrArg Sector.block hsector
    rw [block_wordSector hlimit hj, block_wordSector hlimit hk] at hblock
    have hapart : wordOffset j + 8 ≤ wordOffset k ∨
        wordOffset k + (m.wordBytes k).length ≤ wordOffset j := by
      rw [length_wordBytes]
      simp only [wordOffset, wordsPerSector, freeMapStart] at *
      omega
    rw [if_pos hsector, Option.map_some, Block.slice_overlay_of_disjoint hapart, wordOn, hsector,
      hb, Option.map_some]
  · rw [if_neg hsector, wordOn]

theorem persist_yields (hc : Cache.Usable blocks c) (hlimit : reserved total ≤ sectorLimit)
    (hroom : reserved total ≤ blocks)
    (hk : k + count ≤ mapSectors total * wordsPerSector) :
    Yields faults (m.persist k count) c fun _ c' => Persisted m total blocks k count c c' := by
  induction count generalizing k c with
  | zero => exact Yields.pure ⟨hc, fun _ _ _ => rfl, fun _ => .inl, fun j _ => by rw [if_neg (by omega)]⟩
  | succ count ih =>
    have hlt : k < mapSectors total * wordsPerSector := by omega
    obtain ⟨b, hb⟩ := hc.coherent.exists_current (s := wordSector k)
      (hc.blockCount ▸ wordSector_lt hlimit hlt hroom)
    have hrange : wordOffset k + (m.wordBytes k).length ≤ sectorSize := by
      rw [length_wordBytes]
      exact wordOffset_le k
    rw [persist]
    refine Yields.andThen (Cache.write_yields hc.coherent hc.ready (by simp) hb hrange) ?_
    rintro - c₁ ⟨hc₁, hch, -⟩
    have hcur : ∀ s : Sector, s.block < blocks → _ := fun s hs =>
      hch.current s (hc.blockCount.symm ▸ hs)
    refine (ih (hc.of_changes hc₁ hch) (by omega)).mono ?_
    rintro - c' ⟨husable, hother, hdirty, hword⟩
    refine ⟨husable, fun s hs hmap => ?_, fun s hs => ?_, fun j hj => ?_⟩
    · have hne : s ≠ wordSector k := fun heq => hmap (heq ▸ isMap_wordSector hlimit hlt)
      rw [hother s hs hmap, hcur s hs, if_neg hne]
    · rcases hdirty s hs with hs | hmap
      · refine (hch.dirty s hs).imp_right fun heq => ?_
        exact (Set.mem_singleton_iff.mp heq) ▸ isMap_wordSector hlimit hlt
      · exact .inr hmap
    · rw [hword j hj, wordOn_of_changes hb hlimit hroom hlt hcur hj]
      grind

/-- After a change of the map in memory, writing the words that differ brings the disk up to
date. -/
theorem Persisted.written (h : Persisted m' total blocks k count c c') (hm : m.Written c)
    (htotal : m.total = total) (htotal' : m'.total = total)
    (hsame : ∀ i, ¬ (k ≤ i / 64 ∧ i / 64 < k + count) → m'.isUsed i = m.isUsed i) :
    m'.Written c' := fun j hj => by
  rw [htotal'] at hj
  rw [h.word j hj]
  split
  · rfl
  · rename_i hout
    rw [hm j (htotal.symm ▸ hj), wordBytes_congr (htotal'.trans htotal.symm)]
    rintro i rfl
    exact hsame i hout

/-! ### Reading back -/

theorem loadWords_yields {bytes : Array UInt8} (hc : Cache.Usable blocks c)
    (hlimit : total < sectorLimit) (hroom : reserved total ≤ blocks)
    (hk : k + count ≤ mapSectors total * wordsPerSector)
    (hword : ∀ j, k ≤ j → j < k + count → wordOn c j = some (m.wordBytes j)) :
    Yields faults (loadWords k count bytes) c fun bytes' c' =>
      bytes' = bytes ++ (List.range' k count).flatMap m.wordBytes ∧
        Cache.Usable blocks c' ∧ Cache.Faithful c c' := by
  induction count generalizing k c bytes with
  | zero => exact Yields.pure ⟨by simp, hc, Cache.Faithful.refl c⟩
  | succ count ih =>
    have hlt : k < mapSectors total * wordsPerSector := by omega
    obtain ⟨b, hb, hslice⟩ := Option.map_eq_some_iff.mp (hword k (Nat.le_refl k) (by omega))
    rw [loadWords]
    refine Yields.andThen (Cache.read_yields hc.coherent hc.ready (by simp) hb (wordOffset_le k)) ?_
    rintro word c₁ ⟨rfl, hc₁, hf⟩
    have husable := hc.of_changes hc₁ hf.changes_current
    refine (ih husable (by omega) fun j hj hj' => ?_).mono ?_
    · have hsector := wordSector_lt (reserved_le_limit hlimit) (show j < _ by omega) hroom
      rw [wordOn, hf.current _ (hc.blockCount.symm ▸ hsector)]
      exact hword j (by omega) (by omega)
    · rintro bytes' c' ⟨rfl, hc', hf'⟩
      refine ⟨?_, hc', hf.trans hc.coherent husable.coherent hf'⟩
      rw [hslice, List.range'_succ, List.flatMap_cons]
      exact Array.ext' (by simp)

theorem flatMap_wordBytes (m : FreeMap) (count : Nat) :
    (List.range' 0 count).flatMap m.wordBytes = (List.range (8 * count)).map m.byte := by
  induction count with
  | zero => rfl
  | succ count ih =>
    rw [List.range'_concat, List.flatMap_append, ih, Nat.mul_succ, List.range_add, List.map_append]
    simp [wordBytes]

theorem testBit_ofBits : ∀ b₀ b₁ b₂ b₃ b₄ b₅ b₆ b₇ : Bool, ∀ j : Fin 8,
    (UInt8.ofNat ((if b₀ then 1 else 0) + (if b₁ then 2 else 0) + (if b₂ then 4 else 0) +
      (if b₃ then 8 else 0) + (if b₄ then 16 else 0) + (if b₅ then 32 else 0) +
      (if b₆ then 64 else 0) + (if b₇ then 128 else 0))).toNat.testBit j =
        #v[b₀, b₁, b₂, b₃, b₄, b₅, b₆, b₇][j] := by
  decide +kernel

theorem testBit_byte (m : FreeMap) (k : Nat) {j : Nat} (hj : j < 8) :
    (m.byte k).toNat.testBit j = m.used.toArray.getD (8 * k + j) false := by
  refine (testBit_ofBits _ _ _ _ _ _ _ _ ⟨j, hj⟩).trans ?_
  rcases j with _ | _ | _ | _ | _ | _ | _ | _ | j
  any_goals rfl
  omega

/-- The bytes of a map spell that map. -/
theorem ofBytes_bytes (m : FreeMap) :
    ofBytes m.total ((List.range (8 * (mapSectors m.total * wordsPerSector))).map m.byte).toArray =
      m := by
  cases m with
  | mk total used =>
  refine congrArg (FreeMap.mk total) (Vector.ext fun i hi => ?_)
  have hbyte : i / 8 < 8 * (mapSectors total * wordsPerSector) := by
    have hbits := hi
    rw [mapBits] at hbits
    simp only [wordsPerSector, sectorBits] at *
    omega
  rw [Vector.getElem_ofFn]
  have hget : ((List.range (8 * (mapSectors total * wordsPerSector))).map
      (byte ⟨total, used⟩)).toArray.getD (i / 8) 0 = byte ⟨total, used⟩ (i / 8) := by
    simp [hbyte]
  rw [hget, testBit_byte _ _ (Nat.mod_lt i (by decide)), Nat.div_add_mod i 8]
  simp [hi]

/-- A map that is written is read back as it is. -/
theorem load_yields (hc : Cache.Usable blocks c) (hlimit : m.total < sectorLimit)
    (hroom : reserved m.total ≤ blocks) (hm : m.Written c) :
    Yields faults (load m.total) c fun m' c' =>
      m' = m ∧ Cache.Usable blocks c' ∧ Cache.Faithful c c' := by
  unfold load
  refine Yields.andThen (loadWords_yields hc hlimit hroom (by omega) fun j _ hj =>
    hm j (by omega)) ?_
  rintro bytes c' ⟨rfl, hc', hf⟩
  refine Yields.pure ⟨?_, hc', hf⟩
  have hempty : ∀ l : Bytes, (#[] : Array UInt8) ++ l = l.toArray := fun l => Array.ext' (by simp)
  rw [flatMap_wordBytes, hempty]
  exact ofBytes_bytes m

end FreeMap
end TieredVolume
