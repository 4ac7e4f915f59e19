import TieredVolume.Proofs.View

/-!
Runs of sectors that change hands. A run is taken from the map or given back to it, the words that
hold its bits are written through the cache, and what is cached of a run given back is dropped, so
that the map stays on its own sectors and nothing is left to be written to a sector that is free.
The device may go on behind the sectors that the map is for.
-/
namespace TieredVolume

/-- The map that is to be `m` was written: its words are on its sectors, and all else is as
before. -/
structure Remapped {n : Nat} (blocks : Nat) (m : FreeMap) (c c' : Cache n) : Prop where
  usable : Cache.Usable blocks c'
  written : m.Written c'
  current : ∀ s : Sector, s.block < blocks → ¬ IsMap m.total s → c'.current s = c.current s
  dirty : ∀ s, c'.Dirty s → c.Dirty s ∨ IsMap m.total s

/-- A fresh map has the sectors before it and its own in use. -/
theorem FreeMap.format_yields {n blocks total : Nat} {c : Cache n} {faults : Fault → Prop}
    (hc : Cache.Usable blocks c) (hle : total ≤ blocks) (hlimit : reserved total ≤ sectorLimit)
    (hroom : reserved total < total) :
    Yields faults (format total) c fun m c' =>
      m = ofReserved total (reserved total) ∧ Remapped blocks m c c' := by
  unfold format
  rw [if_pos hroom]
  refine Yields.andThen (persist_yields hc hlimit ((Nat.le_of_lt hroom).trans hle)
    (Nat.le_of_eq (Nat.zero_add _))) ?_
  rintro - c' hp
  refine Yields.pure ⟨rfl, hp.usable, fun k hk => ?_, hp.current, hp.dirty⟩
  exact (hp.word k hk).trans (if_pos ⟨Nat.zero_le k, by rwa [Nat.zero_add]⟩)

namespace Volume

variable {n blocks start count : Nat} {v v' : Volume n} {s : Sector} {m : FreeMap} {c c' : Cache n}
  {faults : Fault → Prop}

/-- The map of a volume is on its own sectors of a device of `blocks` blocks. -/
structure Mapped (blocks : Nat) (v : Volume n) : Prop where
  usable : Cache.Usable blocks v.cache
  le : v.map.total ≤ blocks
  limit : v.map.total < sectorLimit
  room : FreeMap.reserved v.map.total ≤ v.map.total
  written : v.map.Written v.cache

theorem Shows.mapped {w : View} (h : Shows v w) : Mapped w.total v where
  usable := h.usable
  le := Nat.le_of_eq h.total
  limit := h.sound.limit
  room := h.sound.room
  written := h.written

/-- An allocation sets the bits of the first run of enough free sectors, whatever becomes of writing
the words that hold them; it is refused only if there is none. It answers the number of the first
sector of the run, of which 32 bits are kept. -/
theorem allocate_sets {post : Nat → Volume n → Prop} (hcount : 0 < count)
    (hpersist : ∀ start, v.map.FreeRun count start →
      Yields faults (persistRun start count) { v with map := FreeMap.take start count v.map }
        fun _ => post start) :
    Yields faults (allocate (n := n) count).run v fun answer v' =>
      match answer with
      | .ok s => ∃ start, s = Sector.ofNat start ∧ v.map.FreeRun count start ∧
          (∀ s' < start, ¬ v.map.FreeRun count s') ∧ post start v'
      | .error why => why = .noSpace ∧ (∀ s, ¬ v.map.FreeRun count s) ∧ v' = v := by
  have hfit := FreeMap.firstFit_spec (m := v.map) hcount
  unfold allocate
  simp only [if_neg (Nat.pos_iff_ne_zero.mp hcount)]
  refine Yields.bind (Yields.get ?_)
  cases hfirst : v.map.firstFit count with
  | none =>
    rw [hfirst] at hfit
    exact Yields.pure ⟨rfl, hfit, rfl⟩
  | some start =>
    rw [hfirst] at hfit
    refine Yields.bind (Yields.onMap (Yields.modify ((hpersist start hfit.1).andThen ?_)))
    exact fun _ v' hp => Yields.pure ⟨start, rfl, hfit.1, hfit.2, hp⟩

section Fits

variable (hc : Cache.Usable blocks v.cache) (hroom : FreeMap.reserved v.map.total ≤ blocks)
  (hcount : 0 < count)

include hc hroom hcount

/-- The words that hold the bits of a run are among those of the map. -/
theorem persistRun_persists (hlimit : FreeMap.reserved v.map.total ≤ sectorLimit)
    (hend : start + count ≤ v.map.total) :
    Yields faults (persistRun start count) v fun _ v' => v'.map = v.map ∧ v'.table = v.table ∧
      FreeMap.Persisted v.map v.map.total blocks (start / 64)
        ((start + count - 1) / 64 + 1 - start / 64) v.cache v'.cache := by
  refine Yields.bind (Yields.get (Yields.onCache ?_))
  refine (FreeMap.persist_yields hc hlimit hroom ?_).mono fun _ c hp => ⟨rfl, rfl, hp⟩
  simp only [mapSectors, sectorBits, wordsPerSector]
  omega

/-- Where the map has its sectors on the device, an allocation does not fail. -/
theorem allocate_takes (hlimit : FreeMap.reserved v.map.total ≤ sectorLimit) :
    Yields faults (allocate (n := n) count).run v fun answer v' =>
      match answer with
      | .ok s => ∃ start, s = Sector.ofNat start ∧ v.map.FreeRun count start ∧
          (∀ s' < start, ¬ v.map.FreeRun count s') ∧
          v'.map = FreeMap.take start count v.map ∧ v'.table = v.table ∧
          FreeMap.Persisted v'.map v.map.total blocks (start / 64)
            ((start + count - 1) / 64 + 1 - start / 64) v.cache v'.cache
      | .error why => why = .noSpace ∧ (∀ s, ¬ v.map.FreeRun count s) ∧ v' = v := by
  refine allocate_sets hcount fun start hrun => ?_
  have htotal : (FreeMap.take start count v.map).total = v.map.total := FreeMap.total_take
  refine (persistRun_persists (v := { v with map := FreeMap.take start count v.map }) hc
    (htotal ▸ hroom) hcount (htotal ▸ hlimit) (htotal ▸ hrun.1)).mono ?_
  rintro - v' ⟨hmap, htable, hp⟩
  rw [hmap, ← htotal]
  exact ⟨rfl, htable, hp⟩

end Fits

/-- On a device whose sectors all have numbers, the answer is the first sector of the run. -/
theorem allocate_fits (hc : Cache.Usable blocks v.cache) (hlimit : v.map.total < sectorLimit)
    (hroom : FreeMap.reserved v.map.total ≤ blocks) (hcount : 0 < count) :
    Yields faults (allocate (n := n) count).run v fun answer v' => v.map.Fits count answer ∧
      match answer with
      | .ok s => v'.map = FreeMap.take s.block count v.map ∧ v'.table = v.table ∧
          FreeMap.Persisted v'.map v.map.total blocks (s.block / 64)
            ((s.block + count - 1) / 64 + 1 - s.block / 64) v.cache v'.cache
      | .error _ => v' = v := by
  refine (allocate_takes hc hroom hcount (FreeMap.reserved_le_limit hlimit)).mono ?_
  rintro (why | s) v' hpost
  · exact ⟨⟨hpost.1, hpost.2.1⟩, hpost.2.2⟩
  · obtain ⟨start, rfl, hrun, hleast, htakes⟩ := hpost
    have hend := hrun.1
    have hstart : (Sector.ofNat start).block = start := Sector.block_ofNat (by omega)
    refine ⟨⟨hstart.symm ▸ hrun, hstart.symm ▸ hleast⟩, ?_⟩
    simp only [hstart]
    exact htakes

/-- Once the bits of a run have changed in memory, it is enough to write the words that hold them. -/
theorem Mapped.remapped (h : Mapped blocks v) (htotal : m.total = v.map.total)
    (hbits : ∀ i, ¬ (start ≤ i ∧ i < start + count) → m.isUsed i = v.map.isUsed i)
    (hp : FreeMap.Persisted m v.map.total blocks (start / 64)
      ((start + count - 1) / 64 + 1 - start / 64) v.cache c) : Remapped blocks m v.cache c := by
  refine ⟨hp.usable, hp.written h.written rfl htotal fun i hi => hbits i ?_, htotal ▸ hp.current,
    htotal ▸ hp.dirty⟩
  -- a bit of the run lies in one of the words that were written
  rintro ⟨hle, hlt⟩
  exact hi ⟨by omega, by omega⟩

theorem allocate_yields (h : Mapped blocks v) (hcount : 0 < count) :
    Yields faults (allocate (n := n) count).run v fun
      | .ok s, v' => v.map.FreeRun count s.block ∧ (∀ s' < s.block, ¬ v.map.FreeRun count s') ∧
          v'.map = FreeMap.take s.block count v.map ∧ v'.table = v.table ∧
          Remapped blocks v'.map v.cache v'.cache
      | .error r, v' => r = .noSpace ∧ v' = v ∧ ∀ s, ¬ v.map.FreeRun count s := by
  refine (allocate_fits h.usable h.limit (h.room.trans h.le) hcount).mono ?_
  rintro (why | s) v' ⟨hfits, hpost⟩
  · exact ⟨hfits.1, hpost, hfits.2⟩
  obtain ⟨hrun, hleast⟩ := hfits
  obtain ⟨hmap, htable, hp⟩ := hpost
  refine ⟨hrun, hleast, hmap, htable, h.remapped ?_ (fun i hi => ?_) hp⟩
  · rw [hmap, FreeMap.total_take]
  · rw [hmap, FreeMap.isUsed_take hrun.1, if_neg hi]

/-- A run was forgotten: its sectors have what the device holds, none of them dirty. -/
structure Dropped {n : Nat} (blocks start count : Nat) (c c' : Cache n) : Prop where
  usable : Cache.Usable blocks c'
  current : ∀ t : Sector, t.block < blocks → ¬ (start ≤ t.block ∧ t.block < start + count) →
    c'.current t = c.current t
  dirty : ∀ t, c'.Dirty t → c.Dirty t ∧ ¬ (start ≤ t.block ∧ t.block < start + count)

theorem invalidateRun_yields (hc : Cache.Usable blocks c) (hend : start + count ≤ sectorLimit) :
    Yields faults (invalidateRun start count) c fun _ c' => Dropped blocks start count c c' := by
  induction count generalizing start c with
  | zero => exact Yields.pure ⟨hc, fun _ _ _ => rfl, fun t ht => ⟨ht, by omega⟩⟩
  | succ count ih =>
    have hstart : (Sector.ofNat start).block = start := Sector.block_ofNat (by omega)
    refine Yields.andThen (Cache.invalidate_yields hc.coherent (Sector.ofNat start)) ?_
    rintro - c₁ ⟨hc₁, hclean, hch, -⟩
    refine (ih (hc.of_changes hc₁ hch) (by omega)).mono ?_
    rintro - c' ⟨husable, hcurrent, hdirty⟩
    refine ⟨husable, fun t ht hout => ?_, fun t ht => ?_⟩
    · have hne : t ≠ Sector.ofNat start := by
        rintro rfl
        omega
      rw [hcurrent t ht (by omega), hch.current t (hc.blockCount.symm ▸ ht), if_neg hne]
    · obtain ⟨hold, hout⟩ := hdirty t ht
      have hne : t.block ≠ start := fun heq => hclean <| by
        rwa [← Sector.block_injective (heq.trans hstart.symm)]
      exact ⟨(hch.dirty t hold).resolve_right (Set.notMem_empty t), by omega⟩

/-- Giving back a run of sectors in use clears their bits, in memory and in the words on the disk,
and forgets the run. -/
theorem release_fits (hc : Cache.Usable blocks v.cache) (hlimit : v.map.total < sectorLimit)
    (hroom : FreeMap.reserved v.map.total ≤ blocks) (hcount : 0 < count)
    (hend : s.block + count ≤ v.map.total)
    (hused : ∀ i, s.block ≤ i → i < s.block + count → v.map.isUsed i = true) :
    Yields faults (release s count) v fun _ v' =>
      v'.map.total = v.map.total ∧ v'.table = v.table ∧
      (∀ i, v'.map.isUsed i =
        if s.block ≤ i ∧ i < s.block + count then false else v.map.isUsed i) ∧
      ∃ c, FreeMap.Persisted v'.map v.map.total blocks (s.block / 64)
          ((s.block + count - 1) / 64 + 1 - s.block / 64) v.cache c ∧
        Dropped blocks s.block count c v'.cache := by
  have hsum : addOffset s.block count = .ok (s.block + count) :=
    addOffset_eq_ok_iff.mpr ⟨rfl, by simp only [sectorLimit, offsetLimit] at *; omega⟩
  unfold release
  refine Yields.bind (Yields.ofExcept hsum ?_)
  refine Yields.bind (Yields.onMap ((FreeMap.giveBack_yields hend hused).of_never.mono ?_))
  rintro - m ⟨htotal, hbits⟩
  rw [if_pos hcount]
  refine (persistRun_persists (v := { v with map := m }) hc (htotal ▸ hroom) hcount
    (htotal ▸ FreeMap.reserved_le_limit hlimit) (htotal ▸ hend)).andThen ?_
  rintro - v₁ ⟨rfl, htable, hp⟩
  refine Yields.onCache ((invalidateRun_yields hp.usable (by omega)).mono ?_)
  exact fun _ c hdropped => ⟨htotal, htable, hbits, v₁.cache, htotal ▸ hp, hdropped⟩

/-- Giving back a run of sectors in use, none of them the map's. -/
theorem release_yields (h : Mapped blocks v) (hcount : 0 < count)
    (hend : s.block + count ≤ v.map.total)
    (hused : ∀ i, s.block ≤ i → i < s.block + count → v.map.isUsed i = true)
    (hmap : ∀ t, IsMap v.map.total t → ¬ (s.block ≤ t.block ∧ t.block < s.block + count)) :
    Yields faults (release s count) v fun _ v' =>
      v'.map.total = v.map.total ∧ v'.table = v.table ∧
      (∀ i, v'.map.isUsed i =
        if s.block ≤ i ∧ i < s.block + count then false else v.map.isUsed i) ∧
      Cache.Usable blocks v'.cache ∧ v'.map.Written v'.cache ∧
      (∀ t : Sector, t.block < blocks → ¬ IsMap v.map.total t →
        ¬ (s.block ≤ t.block ∧ t.block < s.block + count) →
        v'.cache.current t = v.cache.current t) ∧
      ∀ t, v'.cache.Dirty t → (v.cache.Dirty t ∨ IsMap v.map.total t) ∧
        ¬ (s.block ≤ t.block ∧ t.block < s.block + count) := by
  refine (release_fits h.usable h.limit (h.room.trans h.le) hcount hend hused).mono ?_
  rintro - v' ⟨htotal, htable, hbits, c, hp, hdropped⟩
  have hre := h.remapped htotal (fun i hi => by rw [hbits, if_neg hi]) hp
  refine ⟨htotal, htable, hbits, hdropped.usable, ?_, fun t ht hnot hout => ?_, fun t ht => ?_⟩
  · refine hre.written.congr (htotal ▸ h.limit) fun t ht => ?_
    rw [htotal] at ht
    exact hdropped.current t (Nat.lt_of_lt_of_le ht.2 (h.room.trans h.le)) (hmap t ht)
  · rw [hdropped.current t ht hout, hp.current t ht hnot]
  · obtain ⟨hold, hout⟩ := hdropped.dirty t ht
    exact ⟨hp.dirty t hold, hout⟩

end Volume
end TieredVolume
