import TieredVolume.Proofs.Cache.History

/-!
Slots that are left alone. The clock passes a slot by that is locked or has readers, writing slots
back does not touch a clean one, and no use for another sector comes to it.
-/
namespace TieredVolume
namespace Cache

variable {n : Nat} {c c' c'' : Cache n} {pending : Set (Fin n)} {g s : Sector} {i j : Fin n}
  {u : Use} {first : Bool} {count offset : Nat} {bytes : Bytes} {faults : Fault → Prop}

/-- Slot `i` is as it was, and the device holds of the sector `g` what it held. -/
structure Spared (i : Fin n) (g : Sector) (c c' : Cache n) : Prop where
  slot : c'.slot i = c.slot i
  block : c'.device.block? g.block = c.device.block? g.block

theorem Spared.refl (i : Fin n) (g : Sector) (c : Cache n) : Spared i g c c := ⟨rfl, rfl⟩

theorem Spared.trans (h : Spared i g c c') (h' : Spared i g c' c'') : Spared i g c c'' :=
  ⟨h'.slot.trans h.slot, h'.block.trans h.block⟩

theorem spared_updateSlot (hne : j ≠ i) (f : Slot → Slot) : Spared i g c (updateSlot j f c) :=
  ⟨by rw [slot_updateSlot, if_neg hne], rfl⟩

theorem passedBy_of_busy {slot slot' : Slot} (hbusy : slot.evictable = false)
    (h : slot.passedBy first = some slot') : slot' = slot := by
  rw [Slot.passedBy, if_pos (by simp [hbusy])] at h
  exact (Option.some.inj h).symm

/-- The hand leaves a slot that is not evictable as it is. -/
theorem slot_sweep (hbusy : (c.slot i).evictable = false) :
    (sweep first count c).2.slot i = c.slot i := by
  induction count generalizing c with
  | zero => rfl
  | succ count ih =>
    cases hs : (c.slot c.hand).passedBy first with
    | none =>
      simp only [sweep, hs]
      rfl
    | some slot =>
      have hslot : ({ c with hand := nextOnRing c.hand, slots := c.slots.set c.hand slot } :
          Cache n).slot i = c.slot i := by
        rw [slot_set]
        by_cases heq : c.hand = i
        · rw [if_pos heq]
          rw [heq] at hs
          exact passedBy_of_busy hbusy hs
        · rw [if_neg heq]
      simp only [sweep, hs]
      rw [ih (by rw [hslot]; exact hbusy), hslot]

theorem slot_sweeps (hbusy : (c.slot i).evictable = false) :
    (sweeps first count c).2.slot i = c.slot i := by
  induction count generalizing c first with
  | zero => rfl
  | succ count ih =>
    have hslot : (sweep first n c).2.slot i = c.slot i := slot_sweep hbusy
    unfold sweeps
    cases hs : sweep first n c with
    | mk victim c₁ =>
      rw [hs] at hslot
      cases victim with
      | some j => exact hslot
      | none => exact (ih (by rw [hslot]; exact hbusy)).trans hslot

section Spares

variable (h : Coherent pending c) (hg : (c.slot i).sector = some g)
  (hclean : (c.slot i).dirty = false)

include h hg hclean in
/-- Writing slots back does not touch a slot that is clean. -/
theorem flushSlot_spares :
    Yields faults (flushSlot j) c fun _ c' => Spared i g c c' := by
  refine Yields.bind (Yields.get ?_)
  dsimp only
  split
  · rename_i s hs
    by_cases hd : (c.slot j).dirty = true
    · have hne : j ≠ i := by
        intro heq
        rw [heq, hclean] at hd
        cases hd
      have hother : g.block ≠ s.block := by
        intro heq
        rw [Sector.block_injective heq] at hg
        exact hne (h.unique j i s hs hg)
      rw [if_pos hd]
      refine Yields.bind (Yields.onDevice ((Device.writeBlock_yields h.sound (h.onDevice j s hs)
        (c.slot j).data).mono ?_))
      intro _ d hd'
      refine Yields.modify ⟨?_, (hd'.2.2 g.block).trans (if_neg hother)⟩
      rw [slot_updateSlot, if_neg hne]
      rfl
    · rw [if_neg hd]
      exact Yields.pure (Spared.refl i g c)
  · exact Yields.pure (Spared.refl i g c)

variable (hready : c.Ready) (hbusy : (c.slot i).evictable = false)

include h hg hclean hready hbusy

theorem evict_spares :
    Yields faults (evict (n := n)) c fun j c' => j ≠ i ∧ Spared i g c c' := by
  obtain ⟨j, c₁, hfind, hm, hj⟩ := findVictim_spec hready
  have hslot : c₁.slot i = c.slot i := by
    have hsweeps : (findVictim c).2.slot i = c.slot i := slot_sweeps hbusy
    rwa [hfind] at hsweeps
  have hne : j ≠ i := by
    intro heq
    rw [heq, hslot, hbusy] at hj
    cases hj
  have hmarked : Spared i g c c₁ := ⟨hslot, by rw [hm.device]⟩
  refine Yields.bind (Yields.modifyGet ?_)
  rw [hfind]
  refine Yields.andThen (flushSlot_spares (h.marked hm) (by rw [hslot]; exact hg)
    (by rw [hslot]; exact hclean)) ?_
  intro _ c₂ hspared
  exact Yields.pure ⟨hne, hmarked.trans hspared⟩

theorem acquire_spares (hne : s ≠ g) :
    Yields faults (acquire s) c fun r c' => r.1 ≠ i ∧ Spared i g c c' := by
  refine Yields.bind (Yields.get ?_)
  split
  · rename_i j hfind
    refine Yields.pure ⟨?_, Spared.refl i g c⟩
    intro heq
    have hj := h.find?_eq_some_iff.mp hfind
    rw [show j = i from heq, hg] at hj
    exact hne (Option.some.inj hj).symm
  · refine Yields.andThen (evict_spares h hg hclean hready hbusy) ?_
    intro j c₁ hj
    refine Yields.bind (Yields.modify (Yields.pure ⟨hj.1, hj.2.trans ⟨?_, rfl⟩⟩))
    rw [slot_bindSlot, if_neg hj.1]

end Spares

theorem fill_spares (hne : j ≠ i) :
    Yields anyFault (fill j s) c fun _ c' => Spared i g c c' := by
  refine Yields.bind (Yields.onDevice ((Device.readBlock_afterRead s.block c.device).mono ?_))
  intro b d hd
  subst hd
  refine Yields.modify ⟨?_, Device.block?_afterRead c.device g.block⟩
  rw [slot_updateSlot, if_neg hne]
  rfl

section Uses

variable (h : Coherent pending c) (hg : (c.slot i).sector = some g)
  (hclean : (c.slot i).dirty = false) (hready : c.Ready)
  (hbusy : (c.slot i).evictable = false) (hne : s ≠ g)

include h hg hclean hready hbusy hne

theorem prefetch_spares :
    Yields anyFault (prefetch s) c fun _ c' => Spared i g c c' := by
  refine Yields.andThen (acquire_spares h hg hclean hready hbusy hne) ?_
  rintro ⟨j, missed⟩ c₁ ⟨hj, hspared⟩
  have htouch : ∀ c₂, Spared i g c c₂ → Spared i g c (updateSlot j Slot.touch c₂) :=
    fun c₂ h₂ => h₂.trans (spared_updateSlot hj Slot.touch)
  cases missed with
  | false => exact Yields.bind (Yields.modify (Yields.pure (htouch c₁ hspared)))
  | true =>
    refine Yields.andThen (fill_spares (g := g) hj) ?_
    intro _ c₂ hfilled
    exact Yields.bind (Yields.modify (Yields.pure (htouch c₂ (hspared.trans hfilled))))

theorem write_spares :
    Yields anyFault (write s offset bytes) c fun _ c' => Spared i g c c' := by
  cases hrange : checkRange offset bytes.length with
  | error e => exact Yields.bind (Yields.ofExcept_error hrange trivial)
  | ok fits =>
  refine Yields.bind (Yields.ofExcept hrange ?_)
  refine Yields.andThen (acquire_spares h hg hclean hready hbusy hne) ?_
  rintro ⟨j, missed⟩ c₁ ⟨hj, hspared⟩
  have hstore : ∀ c₂, Spared i g c c₂ → Spared i g c (updateSlot j (·.store offset bytes) c₂) :=
    fun c₂ h₂ => h₂.trans (spared_updateSlot hj _)
  dsimp only
  by_cases hfill : (missed && (decide (0 < offset) || decide (bytes.length < sectorSize))) = true
  · rw [if_pos hfill]
    refine Yields.andThen (fill_spares (g := g) hj) ?_
    intro _ c₂ hfilled
    exact Yields.modify (hstore c₂ (hspared.trans hfilled))
  · rw [if_neg hfill]
    exact Yields.modify (hstore c₁ hspared)

/-- A use for another sector leaves the slot alone. -/
theorem Use.spares (hs : u.sector? = some s) :
    Yields anyFault u.run c fun _ c' => Spared i g c c' := by
  cases u with
  | read s' offset count =>
    cases hs
    cases hrange : checkRange offset count with
    | error e => exact Yields.bind (Yields.ofExcept_error hrange trivial)
    | ok fits =>
      refine Yields.bind (Yields.ofExcept hrange ?_)
      refine Yields.bind (Yields.andThen (prefetch_spares h hg hclean hready hbusy hne) ?_)
      intro j c₁ hspared
      exact Yields.bind (Yields.get (Yields.pure (Yields.pure hspared)))
  | write s' offset bytes =>
    cases hs
    exact Yields.andThen (write_spares h hg hclean hready hbusy hne) fun _ _ hw => Yields.pure hw
  | zero s' =>
    cases hs
    exact Yields.andThen (write_spares h hg hclean hready hbusy hne) fun _ _ hw => Yields.pure hw
  | invalidate s' =>
    cases hs
    refine Yields.bind (Yields.modify (Yields.pure ?_))
    split
    · rename_i j hfind
      have hj := h.find?_eq_some_iff.mp hfind
      have hji : j ≠ i := by
        intro heq
        rw [heq, hg] at hj
        exact hne (Option.some.inj hj).symm
      exact ⟨by rw [slot_clearSlot, if_neg hji], rfl⟩
    · exact Spared.refl i g c
  | prefetch s' =>
    cases hs
    exact Yields.andThen (prefetch_spares h hg hclean hready hbusy hne) fun _ _ hp => Yields.pure hp
  | flushAll | startReadAhead | request | serveReadAhead | stopReadAhead => cases hs

end Uses

end Cache
end TieredVolume
