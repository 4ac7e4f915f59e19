import TieredVolume.Proofs.Cache.Overwrite

/-!
Sectors past the end of the device. Such a sector is given a slot before the device is asked for it,
and keeps the slot when the device refuses. So the failed use is the only one that notices: the slot
holds the bytes that were in it, and later uses of the sector find it. Overwriting asks the device
for nothing and succeeds; it is the flush that fails then, and what is behind the slot stays unwritten.
-/
namespace TieredVolume
namespace Cache

variable {n blocks : Nat} {c c' : Cache n} {s t : Sector} {i j : Fin n}

theorem onDevice_error {α : Type} {x : EStateM Fault Device α} {e : Fault} {d : Device}
    (hx : x c.device = .error e d) : onDevice x c = .error e { c with device := d } := by
  simp only [onDevice, hx]

theorem run_checkRange {offset count : Nat} (hrange : offset + count ≤ sectorSize) :
    (ofExcept (checkRange offset count) : CacheM n Unit) c = .ok () c := by
  rw [checkRange_eq_ok hrange]
  rfl

/-- Slot `i` is bound to `s`, which the device does not have. -/
structure Astray (i : Fin n) (s : Sector) (c : Cache n) : Prop where
  sound : c.device.Sound
  tags : ∀ j, c.tags.get j = (c.slot j).sector
  unique : ∀ j k t, (c.slot j).sector = some t → (c.slot k).sector = some t → j = k
  sector : (c.slot i).sector = some s
  pastEnd : c.device.blockCount ≤ s.block
  onDevice : ∀ j t, j ≠ i → (c.slot j).sector = some t → t.block < c.device.blockCount

namespace Astray

theorem find?_eq_some_iff (h : Astray i s c) : c.find? t = some j ↔ (c.slot j).sector = some t :=
  find?_eq_some_iff_of h.tags fun j k => h.unique j k t

theorem find? (h : Astray i s c) : c.find? s = some i := h.find?_eq_some_iff.mpr h.sector

/-- The slot may change but for its sector. -/
theorem updateSlot (h : Astray i s c) {f : Slot → Slot} (hf : ∀ slot, (f slot).sector = slot.sector) :
    Astray i s (updateSlot j f c) := by
  have hsector : ∀ k, ((Cache.updateSlot j f c).slot k).sector = (c.slot k).sector := by
    intro k
    rw [slot_updateSlot]
    split
    · exact hf _
    · rfl
  refine ⟨h.sound, fun k => ?_, fun k l t hk hl => ?_, ?_, h.pastEnd, fun k t hk ht => ?_⟩
  · rw [hsector]
    exact h.tags k
  · rw [hsector] at hk hl
    exact h.unique k l t hk hl
  · rw [hsector]
    exact h.sector
  · rw [hsector] at ht
    exact h.onDevice k t hk ht

/-- Only the contents of `s` depend on what is in the slot. -/
theorem current_updateSlot (h : Astray i s c) {f : Slot → Slot} (ht : t ≠ s) :
    (Cache.updateSlot i f c).current t = c.current t := by
  have hfind : (Cache.updateSlot i f c).find? t = c.find? t := rfl
  simp only [current, hfind]
  cases hj : c.find? t with
  | none => rfl
  | some j =>
    have hij : i ≠ j := by
      intro hij
      have hsector := h.find?_eq_some_iff.mp hj
      rw [← hij, h.sector] at hsector
      exact ht (Option.some.inj hsector).symm
    simp only [slot_updateSlot, if_neg hij]

variable (h : Astray i s c)

include h

theorem fill_error : ∃ e, fill i s c = .error e c := by
  obtain ⟨e, hread⟩ := Device.readBlock_error h.pastEnd
  exact ⟨e, by simp only [fill, bind, EStateM.bind, onDevice_error hread]⟩

/-- The other slots can be written back. -/
theorem flushSlot (hj : j ≠ i) : Yields never (flushSlot j) c fun _ c' =>
    Astray i s c' ∧ ∀ k, k ≠ j → c'.slot k = c.slot k := by
  refine Yields.bind (Yields.get ?_)
  dsimp only
  split
  · rename_i t ht
    split
    · refine Yields.bind (Yields.onDevice ((Device.writeBlock_yields h.sound (h.onDevice j t hj ht)
        (c.slot j).data).mono ?_))
      intro _ d hd
      have hdevice : Astray i s { c with device := d } :=
        ⟨hd.1, h.tags, h.unique, h.sector, by rw [hd.2.1]; exact h.pastEnd,
          fun k t hk ht => by rw [hd.2.1]; exact h.onDevice k t hk ht⟩
      refine Yields.modify ⟨hdevice.updateSlot fun _ => rfl, fun k hk => ?_⟩
      rw [slot_updateSlot, if_neg (Ne.symm hk)]
      rfl
    · exact Yields.pure ⟨h, fun _ _ => rfl⟩
  · exact Yields.pure ⟨h, fun _ _ => rfl⟩

theorem flushSlots (l : List (Fin n)) (hi : i ∉ l) : Yields never (l.forM Cache.flushSlot) c
    fun _ c' => Astray i s c' ∧ ∀ k, k ∉ l → c'.slot k = c.slot k := by
  induction l generalizing c with
  | nil => exact Yields.pure ⟨h, fun _ _ => rfl⟩
  | cons j l ih =>
    have hj : j ≠ i := fun hji => hi (hji ▸ List.mem_cons_self)
    refine Yields.andThen (h.flushSlot hj) fun _ c₁ h₁ => ?_
    refine (ih h₁.1 fun hl => hi (List.mem_cons_of_mem j hl)).mono fun _ c₂ h₂ => ⟨h₂.1, ?_⟩
    intro k hk
    rw [List.mem_cons, not_or] at hk
    rw [h₂.2 k hk.2, h₁.2 k hk.1]

/-- If the slot is dirty a flush stops at it, and does not come to those behind. -/
theorem flushAll_error (hdirty : (c.slot i).dirty = true) :
    ∃ e c', flushAll c = .error e c' ∧ ∀ j, i ≤ j → c'.slot j = c.slot j := by
  obtain ⟨l, rest, hl⟩ := List.append_of_mem (List.mem_finRange i)
  have hbefore : ∀ j ∈ l, j < i := by
    have hsorted : (List.finRange n).Pairwise (· < ·) := List.pairwise_lt_finRange n
    rw [hl] at hsorted
    exact fun j hj => (List.pairwise_append.mp hsorted).2.2 j hj i List.mem_cons_self
  have hi : i ∉ l := fun hi => Fin.lt_irrefl i (hbefore i hi)
  obtain ⟨_, c₁, hrun, h₁, hkept⟩ := (h.flushSlots l hi).ok_of_never
  obtain ⟨e, hwrite⟩ := Device.writeBlock_error h₁.pastEnd (c₁.slot i).data
  have hget : (get : CacheM n (Cache n)) c₁ = .ok c₁ c₁ := rfl
  have hstop : Cache.flushSlot i c₁ = .error e c₁ := by
    rw [← hkept i hi] at hdirty
    simp only [Cache.flushSlot, bind, EStateM.bind, hget, h₁.sector, if_pos hdirty,
      onDevice_error hwrite]
  refine ⟨e, c₁, ?_, fun j hj => hkept j fun hjl => Fin.not_lt.mpr hj (hbefore j hjl)⟩
  change (forM (List.finRange n) Cache.flushSlot : CacheM n PUnit) c = _
  rw [hl, List.forM_append, List.forM_cons]
  change (forM l Cache.flushSlot : CacheM n PUnit) c = _ at hrun
  simp only [bind, EStateM.bind, hrun, hstop]

end Astray

/-- A slot that is given to a sector past the end. -/
theorem Coherent.astray (h : Coherent ∅ c) (hs : c.device.blockCount ≤ s.block) :
    Astray i s (bindSlot i s c) := by
  have hun : ∀ j, (c.slot j).sector ≠ some s := fun j hj =>
    Nat.not_lt.mpr hs (h.onDevice j s hj)
  refine ⟨h.sound, h.tags_bindSlot, h.unique_bindSlot hun, ?_, hs, fun j t hj ht => ?_⟩
  · rw [slot_bindSlot, if_pos rfl]
    rfl
  · rw [slot_bindSlot, if_neg (Ne.symm hj)] at ht
    exact h.onDevice j t ht

/-- The other sectors lose nothing: the contents of the one that was in the slot are on the device. -/
theorem Coherent.current_bindSlot (h : Coherent ∅ c) (hs : c.device.blockCount ≤ s.block)
    (hclean : (c.slot i).sector ≠ none → (c.slot i).dirty = false) (ht : t ≠ s) :
    (bindSlot i s c).current t = c.current t := by
  have hbound : Astray i s (bindSlot i s c) := h.astray hs
  have hother : ∀ j, i ≠ j → (bindSlot i s c).slot j = c.slot j := fun j hij => by
    rw [slot_bindSlot, if_neg hij]
  have hnot : ((bindSlot i s c).slot i).sector ≠ some t := by
    rw [hbound.sector]
    exact fun hst => ht (Option.some.inj hst).symm
  by_cases hcached : ∃ j, i ≠ j ∧ (c.slot j).sector = some t
  · obtain ⟨j, hij, hj⟩ := hcached
    have hj' : ((bindSlot i s c).slot j).sector = some t := by rw [hother j hij, hj]
    rw [h.current_cached hj]
    simp only [current, hbound.find?_eq_some_iff.mpr hj', hother j hij]
  · have hnone : (bindSlot i s c).find? t = none := by
      refine Option.eq_none_iff_forall_ne_some.mpr fun j hj => ?_
      have hj' := hbound.find?_eq_some_iff.mp hj
      by_cases hij : i = j
      · exact hnot (hij ▸ hj')
      · exact hcached ⟨j, hij, hother j hij ▸ hj'⟩
    rw [current, hnone]
    by_cases hi : (c.slot i).sector = some t
    · rw [h.current_cached hi]
      exact h.clean i t (by simp) hi (hclean (by simp [hi]))
    · refine (h.current_uncached fun j hj => ?_).symm
      by_cases hij : i = j
      · exact hi (hij ▸ hj)
      · exact hcached ⟨j, hij, hj⟩

/-- Giving a slot up does not touch the bytes in it. -/
theorem evict_data (h : Coherent ∅ c) (hready : c.Ready) :
    Yields anyFault (evict (n := n)) c fun _ c' => ∀ j, (c'.slot j).data = (c.slot j).data := by
  obtain ⟨i, c₁, hfind, hm, -⟩ := findVictim_spec hready
  refine Yields.bind (Yields.modifyGet ?_)
  rw [hfind]
  refine Yields.andThen (flushSlot_yields (h.marked hm)) fun _ c₂ h₂ => Yields.pure fun j => ?_
  obtain ⟨mark, hmark⟩ := hm.slot j
  rw [h₂.2.2.data, hmark]

section PastEnd

variable (h : Usable blocks c) (hs : blocks ≤ s.block)

include h hs

/-- A sector past the end is missing, so it is given a slot, in which the old bytes stay. -/
theorem Usable.acquire_pastEnd : ∃ i c', acquire s c = .ok (i, true) c' ∧ Astray i s c' ∧
    c'.slot i = { sector := some s, data := (c.slot i).data } ∧
    ∀ t, t ≠ s → c'.current t = c.current t := by
  have hmissing : c.find? s = none := h.coherent.find?_eq_none_iff.mpr fun j hj =>
    Nat.not_lt.mpr hs (h.blockCount ▸ h.coherent.onDevice j s hj)
  have hacquires : Yields never (acquire s) c fun r c' => r.2 = true ∧ Astray r.1 s c' ∧
      c'.slot r.1 = { sector := some s, data := (c.slot r.1).data } ∧
      ∀ t, t ≠ s → c'.current t = c.current t := by
    refine Yields.bind (Yields.get ?_)
    rw [hmissing]
    refine Yields.andThen ((evict_yields h.coherent h.ready (by simp)).and
      (evict_data h.coherent h.ready)) ?_
    rintro i c₁ ⟨⟨h₁, hf, -, -, hclean, -⟩, hdata⟩
    have hs₁ : c₁.device.blockCount ≤ s.block := by rwa [hf.blockCount, h.blockCount]
    refine Yields.bind (Yields.modify (Yields.pure ⟨rfl, h₁.astray hs₁, ?_, fun t ht => ?_⟩))
    · rw [slot_bindSlot, if_pos rfl, Slot.bind, hdata]
    · rw [h₁.current_bindSlot hs₁ hclean ht]
      exact (hf.changes_current.stepped h₁ fun t ht => h.coherent.current_eq_none ht).current t
  obtain ⟨⟨i, _⟩, c', hrun, rfl, hastray, hslot, hcurrent⟩ := hacquires.ok_of_never
  exact ⟨i, c', hrun, hastray, hslot, hcurrent⟩

/-- A sector past the end cannot be brought in, nor written in part: the device refuses. But its
slot is bound by then, clean and with the bytes that were in it, and these are what a later read of
the sector hands out. Nothing else is changed. -/
theorem Usable.fails_pastEnd : ∃ e i c', prefetch s c = .error e c' ∧
    (∀ offset count, offset + count ≤ sectorSize → read s offset count c = .error e c') ∧
    (∀ offset bytes, offset + bytes.length ≤ sectorSize → 0 < offset ∨ bytes.length < sectorSize →
      write s offset bytes c = .error e c') ∧
    (∀ j, (c'.slot j).sector = some s ↔ j = i) ∧
    c'.slot i = { sector := some s, data := (c.slot i).data } ∧
    (∀ t, t ≠ s → c'.current t = c.current t) ∧
    ∀ offset count, offset + count ≤ sectorSize → ∃ c'',
      read s offset count c' = .ok (Block.slice (c.slot i).data offset count) c'' := by
  obtain ⟨i, c', hacquire, hastray, hslot, hcurrent⟩ := h.acquire_pastEnd hs
  obtain ⟨e, hfill⟩ := hastray.fill_error
  have hprefetch : prefetch s c = .error e c' := by
    simp only [prefetch, bind, EStateM.bind, hacquire, if_true, hfill]
  refine ⟨e, i, c', hprefetch, fun offset count hrange => ?_, fun offset bytes hrange hpart => ?_,
    fun j => ⟨fun hj => hastray.unique j i s hj hastray.sector, fun hj => hj ▸ hastray.sector⟩,
    hslot, hcurrent, fun offset count hrange => ?_⟩
  · simp only [read, readSector, bind, EStateM.bind, run_checkRange hrange, hprefetch]
  · have hpart' : (true && (decide (0 < offset) || decide (bytes.length < sectorSize))) = true := by
      simpa using hpart
    simp only [write, bind, EStateM.bind, run_checkRange hrange, hacquire, if_pos hpart', hfill]
  · have hread : Yields never (read s offset count) c' fun bytes _ =>
        bytes = Block.slice (c.slot i).data offset count := by
      refine Yields.bind (Yields.ofExcept (checkRange_eq_ok hrange) ?_)
      refine Yields.bind (Yields.bind (Yields.bind (Yields.bind (Yields.get ?_))))
      rw [hastray.find?]
      refine Yields.pure (Yields.bind (Yields.modify (Yields.pure ?_)))
      refine Yields.bind (Yields.get (Yields.pure (Yields.pure ?_)))
      rw [slot_updateSlot, if_pos rfl, hslot]
      rfl
    obtain ⟨_, c'', hrun, rfl⟩ := hread.ok_of_never
    exact ⟨c'', hrun⟩

/-- A sector past the end can be overwritten, while it cannot if it is brought in before. The flush
fails instead, and writes none of the slots behind. -/
theorem Usable.overwrites_pastEnd (contents : Block) : ∃ i c',
    writeSector s contents c = .ok () c' ∧ (∃ e d, overwriteFilled s contents c = .error e d) ∧
    (c'.slot i).sector = some s ∧ (c'.slot i).dirty = true ∧ (c'.slot i).data = contents ∧
    (∀ t, t ≠ s → c'.current t = c.current t) ∧
    ∃ e c'', flushAll c' = .error e c'' ∧ ∀ j, i ≤ j → c''.slot j = c'.slot j := by
  obtain ⟨i, c₁, hacquire, hastray, hslot, hcurrent⟩ := h.acquire_pastEnd hs
  obtain ⟨e, hfill⟩ := hastray.fill_error
  have hstored := hastray.updateSlot (j := i) (f := (·.store 0 contents.toList)) fun _ => rfl
  have hslot' : (updateSlot i (·.store 0 contents.toList) c₁).slot i =
      { sector := some s, dirty := true, data := contents } := by
    rw [slot_updateSlot, if_pos rfl, hslot, Slot.store, Block.overlay_toList]
  refine ⟨i, _, writeSector_eq contents hacquire, ⟨e, c₁, ?_⟩, by rw [hslot'], by rw [hslot'],
    by rw [hslot'], fun t ht => ?_, hstored.flushAll_error (by rw [hslot'])⟩
  · simp only [overwriteFilled, bind, EStateM.bind, hacquire, if_true, hfill]
  · rw [← hcurrent t ht]
    exact hastray.current_updateSlot ht

end PastEnd

end Cache
end TieredVolume
