import TieredVolume.Proofs.Cache.Access

/-!
What it costs to bring sectors in. The device is read once for each sector that is missing, slots
that are given up are at most written, and a slot that is filled is clean.
-/
namespace TieredVolume
namespace Cache

variable {n misses misses' : Nat} {c c' c'' : Cache n} {s : Sector} {i : Fin n}

/-- Sectors were brought in with so many reads, and no slot has become dirty. -/
structure BroughtIn (misses : Nat) (c c' : Cache n) : Prop where
  reads : c.device.Reads misses c'.device
  dirty : ∀ j, (c'.slot j).dirty = true →
    (c.slot j).dirty = true ∧ (c'.slot j).sector = (c.slot j).sector

namespace BroughtIn

theorem refl (c : Cache n) : BroughtIn 0 c c := ⟨.refl _, fun _ hj => ⟨hj, rfl⟩⟩

theorem trans (h : BroughtIn misses c c') (h' : BroughtIn misses' c' c'') :
    BroughtIn (misses + misses') c c'' := by
  refine ⟨h.reads.trans h'.reads, fun j hj => ?_⟩
  have hlast := h'.dirty j hj
  have hfirst := h.dirty j hlast.1
  exact ⟨hfirst.1, hlast.2.trans hfirst.2⟩

theorem of_marked (h : Marked c c') : BroughtIn 0 c c' := by
  refine ⟨by rw [h.device]; exact .refl _, fun j hj => ?_⟩
  obtain ⟨b, hb⟩ := h.slot j
  rw [hb] at hj ⊢
  exact ⟨hj, rfl⟩

/-- One slot is changed, but not into a dirty one. -/
theorem of_slot {f : Slot → Slot} (hf : ∀ slot : Slot, (f slot).dirty = true →
    slot.dirty = true ∧ (f slot).sector = slot.sector) : BroughtIn 0 c (updateSlot i f c) := by
  refine ⟨.refl _, fun j hj => ?_⟩
  rw [slot_updateSlot] at hj ⊢
  split at hj
  · rename_i hij
    rw [if_pos hij]
    exact hf _ hj
  · rename_i hij
    rw [if_neg hij]
    exact ⟨hj, rfl⟩

end BroughtIn

theorem flushSlot_bringsIn :
    Yields anyFault (flushSlot i) c fun _ c' => BroughtIn 0 c c' := by
  refine Yields.bind (Yields.get ?_)
  dsimp only
  split
  · rename_i s _
    split
    · refine Yields.bind (Yields.onDevice ((Device.writeBlock_reads s.block (c.slot i).data
        c.device).mono fun _ d hd => Yields.modify ?_))
      have hdevice : BroughtIn 0 c { c with device := d } := ⟨hd, fun _ hj => ⟨hj, rfl⟩⟩
      exact hdevice.trans (.of_slot (by simp))
    · exact Yields.pure (.refl c)
  · exact Yields.pure (.refl c)

theorem acquire_bringsIn (hready : c.Ready) : Yields anyFault (acquire s) c fun r c' =>
    r.2 = !c.contains s ∧ BroughtIn 0 c c' := by
  refine Yields.bind (Yields.get ?_)
  split
  · rename_i j hfind
    exact Yields.pure ⟨by simp [contains, hfind], .refl c⟩
  · rename_i hfind
    obtain ⟨j, c₁, hvictim, hm, -⟩ := findVictim_spec hready
    refine Yields.bind (Yields.bind (Yields.modifyGet ?_))
    rw [hvictim]
    refine Yields.andThen flushSlot_bringsIn fun _ c₂ h₂ => Yields.pure ?_
    refine Yields.bind (Yields.modify (Yields.pure ⟨by simp [contains, hfind], ?_⟩))
    have htags : BroughtIn 0 c₂ { c₂ with tags := c₂.tags.set j (some s) } :=
      ⟨.refl _, fun _ hj => ⟨hj, rfl⟩⟩
    have hbind : BroughtIn 0 c₂ (bindSlot j s c₂) := htags.trans (.of_slot (by simp [Slot.bind]))
    exact ((BroughtIn.of_marked hm).trans h₂).trans hbind

theorem fill_bringsIn : Yields anyFault (fill i s) c fun _ c' => BroughtIn 1 c c' := by
  refine Yields.bind (Yields.onDevice ((Device.readBlock_afterRead s.block c.device).mono
    fun _ d hd => Yields.modify ?_))
  subst hd
  have hdevice : BroughtIn 1 c { c with device := c.device.afterRead } :=
    ⟨Device.reads_afterRead _, fun _ hj => ⟨hj, rfl⟩⟩
  exact hdevice.trans (.of_slot (by simp))

/-- A sector costs a read just if it is missing. -/
theorem prefetch_bringsIn (hready : c.Ready) : Yields anyFault (prefetch s) c fun _ c' =>
    BroughtIn (if c.contains s then 0 else 1) c c' := by
  refine Yields.andThen (acquire_bringsIn hready) ?_
  intro (j, missed) c₁ ⟨hmissed, h₁⟩
  dsimp only at hmissed ⊢
  have htouch : ∀ c₂ : Cache n, BroughtIn 0 c₂ (updateSlot j Slot.touch c₂) := fun c₂ =>
    .of_marked (marked_touch c₂ j)
  cases hs : c.contains s with
  | true =>
    rw [hmissed, hs]
    exact Yields.bind (Yields.modify (Yields.pure (h₁.trans (htouch c₁))))
  | false =>
    rw [hmissed, hs]
    refine Yields.andThen fill_bringsIn fun _ c₂ h₂ => ?_
    exact Yields.bind (Yields.modify (Yields.pure ((h₁.trans h₂).trans (htouch c₂))))

end Cache

end TieredVolume
