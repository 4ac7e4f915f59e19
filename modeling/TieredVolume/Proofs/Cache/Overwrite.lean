import TieredVolume.Proofs.Cache.Blind
import TieredVolume.Proofs.Cache.BringingIn

/-!
Writes that cover a whole sector. They do not bring the sector in before they overwrite it, and on
the device that saves a read and changes nothing else, now or later.
-/
namespace TieredVolume
namespace Cache

variable {n blocks : Nat} {c : Cache n} {s : Sector}

/-- Overwrites a sector that was brought in before. -/
def overwriteFilled (sector : Sector) (contents : Block) : CacheM n Unit := do
  let (i, missed) ← acquire sector
  if missed then fill i sector
  modify (updateSlot i (·.store 0 contents.toList))

/-- What overwriting does once it has a slot. -/
theorem writeSector_eq {i : Fin n} {missed : Bool} {c₁ : Cache n} (contents : Block)
    (hacquire : acquire s c = .ok (i, missed) c₁) :
    writeSector s contents c = .ok () (updateSlot i (·.store 0 contents.toList) c₁) := by
  have hwrite : Yields never (writeSector s contents) c fun _ c' =>
      c' = updateSlot i (·.store 0 contents.toList) c₁ := by
    refine Yields.bind (Yields.ofExcept (checkRange_eq_ok (by simp)) ?_)
    refine Yields.bind (Yields.intro_ok hacquire ?_)
    dsimp only
    rw [if_neg (by simp)]
    exact Yields.modify rfl
  obtain ⟨_, _, hrun, rfl⟩ := hwrite.ok_of_never
  exact hrun

/-- The contents that are brought in first leave no trace but the read. -/
theorem overwriteFilled_eq {i : Fin n} {missed : Bool} {c₁ : Cache n} (contents : Block)
    (hacquire : acquire s c = .ok (i, missed) c₁) (hsound : c₁.device.Sound)
    (hs : s.block < c₁.device.blockCount) :
    overwriteFilled s contents c = .ok () (if missed then
      aside Device.afterRead id (updateSlot i (·.store 0 contents.toList) c₁)
    else updateSlot i (·.store 0 contents.toList) c₁) := by
  have hoverwrite : Yields never (overwriteFilled s contents) c fun _ c' => c' = if missed then
      aside Device.afterRead id (updateSlot i (·.store 0 contents.toList) c₁)
    else updateSlot i (·.store 0 contents.toList) c₁ := by
    refine Yields.bind (Yields.intro_ok hacquire ?_)
    cases missed with
    | false => exact Yields.modify rfl
    | true =>
      have hreads : Yields never (Device.readBlock s.block) c₁.device _ :=
        Device.readBlock_yields hsound hs
      obtain ⟨b, d, hread, -⟩ := hreads.ok_of_never
      have hd := Device.readBlock_leaves hread
      subst hd
      refine Yields.bind (Yields.bind (Yields.onDevice (Yields.intro_ok hread ?_)))
      refine Yields.modify (Yields.modify ?_)
      exact updateSlot_store_fillSlot (by simp)
  obtain ⟨_, _, hrun, rfl⟩ := hoverwrite.ok_of_never
  exact hrun

/-- Overwriting a sector, with and without bringing it in before: both succeed with the same slots,
marks and contents, whatever is done then is answered alike, and a flush leaves nothing unwritten.
Only the device was read once more if the sector was missing. -/
theorem Usable.overwrites (h : Usable blocks c) (hs : s.block < blocks) (contents : Block) :
    ∃ c', writeSector s contents c = .ok () c' ∧
      overwriteFilled s contents c =
        .ok () (if c.contains s then c' else aside Device.afterRead id c') ∧
      c'.current s = some contents ∧ (∀ t, t ≠ s → c'.current t = c.current t) ∧
      (∀ us : List Use, us.mapM Use.run (aside Device.afterRead id c') =
        changed (aside Device.afterRead id) (us.mapM Use.run c')) ∧
      ∃ c'', flushAll c' = .ok () c'' ∧ ∀ t, ¬ c''.Dirty t := by
  obtain ⟨b, hb⟩ := h.coherent.exists_current (h.blockCount ▸ hs)
  have hacquires : Yields never (acquire s) c _ :=
    acquire_yields h.coherent h.ready (by simp) hb
  obtain ⟨⟨i, missed⟩, c₁, hacquire, ha, hmissed, -⟩ :=
    (hacquires.and (acquire_bringsIn h.ready)).ok_of_never
  have hs₁ : s.block < c₁.device.blockCount := by
    rwa [← h.blockCount, ← ha.faithful.blockCount] at hs
  have hwrite := writeSector_eq contents hacquire
  have hplain := overwriteFilled_eq contents hacquire ha.coherent.sound hs₁
  have hwrites : Yields never (writeSector s contents) c _ :=
    writeSector_yields h.coherent h.ready (by simp) hb contents
  obtain ⟨hc', hch, -⟩ := hwrites.of_ok hwrite
  have hflush : Yields never flushAll _ _ := flushAll_yields hc'
  obtain ⟨_, c'', hflush, -, -, hclean⟩ := hflush.ok_of_never
  have hcurrent := (hch.stepped hc' fun t ht => by
    have hts : t ≠ s := fun hts => Nat.not_lt.mpr ht (h.blockCount ▸ hts ▸ hs)
    rw [if_neg hts, h.coherent.current_eq_none ht]).current
  refine ⟨_, hwrite, ?_, ?_, fun t ht => ?_, fun us => ?_, c'', hflush, hclean⟩
  · rw [hplain, show missed = !c.contains s from hmissed]
    cases c.contains s <;> rfl
  · rw [hcurrent s, if_pos rfl]
  · rw [hcurrent t, if_neg ht]
  · exact Blind.mapM (fun u => Use.run_blind Device.unnoticed_afterRead u) us _

end Cache
end TieredVolume
