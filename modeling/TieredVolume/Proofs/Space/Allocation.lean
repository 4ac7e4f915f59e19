import TieredVolume.Mount
import TieredVolume.Proofs.Space.Runs

/-!
Setting sectors aside and giving them back, as the view shows it. Both write the part of the map
that changed to the map's own sectors, so that these stay up to date.
-/
namespace TieredVolume
namespace Volume

variable {n : Nat} {v : Volume n} {w : View} {s : Sector} {faults : Fault → Prop}

/-- What a sector holds that is not stored makes no difference. -/
theorem Shows.of_put {b : Block} (h : Shows v (w.put s b)) (hs : ¬ w.Stored s) : Shows v w :=
  h.congr rfl rfl rfl rfl fun t ht => by
    have hts : t ≠ s := fun hts => hs (hts ▸ ht)
    simp only [View.put, Function.update_of_ne hts]

/-- The sectors of the map are in use. -/
theorem Shows.used_of_isMap (h : Shows v w) (hs : IsMap w.total s) : w.used s = true :=
  have htotal : v.map.total = w.total := h.total
  h.used_iff.mpr ⟨h.lt_of_isMap hs, h.sound.mapUsed s.block hs.1 (htotal ▸ hs.2)⟩

/-- A sector changes hands in the map, and the cache is up to date with it. Nothing is left to be
written to a sector that becomes free. -/
theorem Shows.mark {m : FreeMap} {c : Cache n} {value : Bool} {b : Block} (h : Shows v w)
    (hs : s.block < w.total) (hmap : ¬ IsMap w.total s) (htotal : m.total = v.map.total)
    (hbits : ∀ i, m.isUsed i = if i = s.block then value else v.map.isUsed i)
    (hc : Cache.Usable w.total c) (hm : m.Written c)
    (hcur : ∀ t : Sector, t.block < w.total → ¬ IsMap w.total t → t ≠ s →
      c.current t = v.cache.current t) (hb : c.current s = some b)
    (hdirty : ∀ t, c.Dirty t → (v.cache.Dirty t ∨ IsMap w.total t) ∧ (value = false → t ≠ s)) :
    Shows { v with cache := c, map := m }
      { w with used := Function.update w.used s value, block := Function.update w.block s b } := by
  have hw : m.total = w.total := htotal.trans h.total
  refine ⟨⟨hw ▸ hc, hw ▸ h.limit, hw ▸ h.room, fun i hi hi' => ?_, h.sound.flat⟩, hm,
    h.tidy.of_bits htotal fun i hi => ?_, fun t ht => ?_, hw, ?_, h.node, h.loaded, fun t ht => ?_⟩
  · have hne : i ≠ s.block := fun heq => hmap ⟨heq ▸ hi, heq ▸ hw ▸ hi'⟩
    rw [hbits, if_neg hne]
    exact h.sound.mapUsed i hi (htotal ▸ hi')
  · have hlt : s.block < m.total := hw ▸ hs
    rw [hbits, if_neg (by omega)]
  · obtain ⟨hold, hne⟩ := hdirty t ht
    change Function.update w.used s value t = true
    by_cases hts : t = s
    · rw [hts, Function.update_self]
      by_contra hfree
      exact hne (by simpa using hfree) hts
    · rw [Function.update_of_ne hts]
      exact hold.elim (h.dirty t) h.used_of_isMap
  · funext t
    simp only [view, hw, hbits]
    by_cases ht : t = s
    · rw [ht, if_pos rfl, decide_eq_true hs, Bool.true_and, Function.update_self]
    · have hne : t.block ≠ s.block := fun heq => ht (Sector.block_injective heq)
      have htw : v.map.total = w.total := h.total
      rw [if_neg hne, Function.update_of_ne ht, ← h.used]
      simp only [view, htw]
  · by_cases hts : t = s
    · simp only [view, hts, hb, Option.getD_some, Function.update_self]
    · have ht' : w.Stored t := ⟨by simpa [hts] using ht.1, ht.2⟩
      simp only [view, hcur t (h.lt ht'.1) ht'.2 hts, h.current ht', Option.getD_some,
        Function.update_of_ne hts]

theorem Shows.freeRun_one (h : Shows v w) :
    v.map.FreeRun 1 s.block ↔ s.block < w.total ∧ w.used s = false := by
  have htotal : v.map.total = w.total := h.total
  have hiff := h.used_iff (s := s)
  constructor
  · rintro ⟨hend, hfree⟩
    have hbit := hfree s.block (Nat.le_refl _) (by omega)
    have hs : s.block < w.total := by omega
    exact ⟨hs, by simpa [hs, hbit] using hiff⟩
  · rintro ⟨hs, hfree⟩
    refine ⟨by omega, fun i hi hi' => ?_⟩
    rw [show i = s.block by omega]
    simpa [hs, hfree] using hiff

/-- Setting one sector aside takes the first free one, and is refused only if there is none. -/
theorem allocate_tries : Tries Shows faults (allocate (n := n) 1) w
    (fun s w' => s.block < w.total ∧ w.total < sectorLimit ∧ w.used s = false ∧
      ¬ IsMap w.total s ∧ (∀ t : Sector, t.block < s.block → w.used t = true) ∧ ∃ b, w' = w.take s b)
    (fun r w' => r = .noSpace ∧ w.Full ∧ w' = w) := by
  intro v h
  refine (allocate_yields h.mapped Nat.one_pos).mono ?_
  rintro (r | s) v'
  · rintro ⟨rfl, rfl, hnone⟩
    refine ⟨w, h, rfl, fun s hs => ?_, rfl⟩
    by_contra hused
    exact hnone s.block (h.freeRun_one.mpr ⟨hs, by simpa using hused⟩)
  · obtain ⟨c, m, table⟩ := v'
    rintro ⟨hrun, hleast, hmap, htable, hre⟩
    obtain ⟨hs, hfree⟩ := h.freeRun_one.mp hrun
    obtain rfl : m = FreeMap.take s.block 1 v.map := hmap
    have htotal : (FreeMap.take s.block 1 v.map).total = w.total := FreeMap.total_take.trans h.total
    have hnot : ¬ IsMap w.total s := fun his => by simp [h.used_of_isMap his] at hfree
    have hbits : ∀ i, (FreeMap.take s.block 1 v.map).isUsed i =
        if i = s.block then true else v.map.isUsed i := fun i => by
      have hiff : s.block ≤ i ∧ i < s.block + 1 ↔ i = s.block := by omega
      simp only [FreeMap.isUsed_take hrun.1, hiff]
    obtain ⟨husable, hwritten, hcurrent, hdirty⟩ := hre
    simp only [htotal] at hcurrent hdirty
    obtain ⟨b, hb⟩ := husable.coherent.exists_current (s := s) (husable.blockCount.symm ▸ hs)
    obtain rfl : table = v.table := htable
    refine ⟨w.take s b, h.mark hs hnot (htotal.trans h.total.symm) hbits husable hwritten
      (fun t ht hmap _ => hcurrent t ht hmap) hb fun t ht => ⟨hdirty t ht, fun hv => by cases hv⟩,
      hs, h.limit, hfree, hnot, fun t ht => ?_, b, rfl⟩
    by_contra hused
    exact hleast t.block ht (h.freeRun_one.mpr ⟨by omega, by simpa using hused⟩)

/-- Giving back one stored sector frees it. -/
theorem release_does (hs : w.Stored s) :
    Does Shows faults (release (n := n) s 1) w fun _ w' => w' = w.free s := by
  intro v h
  have htotal : v.map.total = w.total := h.total
  have hlt := h.lt hs.1
  have hiff : ∀ i, s.block ≤ i ∧ i < s.block + 1 ↔ i = s.block := fun i => by omega
  refine (release_yields h.mapped Nat.one_pos (by omega) (fun i hi hi' => ?_)
    fun t ht hin => ?_).mono ?_
  · rw [(hiff i).mp ⟨hi, hi'⟩]
    exact (h.used_iff.mp hs.1).2
  · rw [Sector.block_injective ((hiff _).mp hin), htotal] at ht
    exact hs.2 ht
  rintro - ⟨c, m, table⟩ ⟨hm, htable, hbits, husable, hwritten, hcurrent, hdirty⟩
  obtain rfl : table = v.table := htable
  simp only [hiff, htotal] at hbits hcurrent hdirty
  obtain ⟨b, hb⟩ := husable.coherent.exists_current (s := s) (husable.blockCount.symm ▸ hlt)
  have hgone : ¬ (w.free s).Stored s := fun hst => by simpa [View.free] using hst.1
  have hmarked := h.mark hlt hs.2 hm hbits husable hwritten
    (fun t ht hmap hts => hcurrent t ht hmap fun heq => hts (Sector.block_injective heq)) hb
    fun t ht => ⟨(hdirty t ht).1, fun _ hts => (hdirty t ht).2 (by rw [hts])⟩
  exact ⟨w.free s, Shows.of_put (b := b) hmarked hgone, rfl⟩

/-! ### What goes on in the background -/

/-- An operation on the cache that changes no contents and makes nothing dirty is not seen. -/
theorem quiet_does {α : Type} {x : CacheM n α}
    (hx : ∀ c : Cache n, Cache.Usable w.total c → Yields faults x c fun _ c' =>
      Cache.Usable w.total c' ∧ (∀ t : Sector, t.block < w.total → c'.current t = c.current t) ∧
        ∀ t, c'.Dirty t → c.Dirty t) :
    Does Shows faults (onCache x) w fun _ w' => w' = w := by
  intro v h
  refine Yields.onCache ((hx v.cache h.usable).mono ?_)
  rintro a c ⟨hc, hcur, hdirty⟩
  exact ⟨w, h.withCache hc (fun t ht => by rw [hcur t (h.lt ht.1), h.current ht])
    (fun t ht => hcur t (h.lt_of_isMap ht)) fun t ht => h.dirty t (hdirty t ht), rfl⟩

theorem requestReadAhead_does (hs : s.block < w.total) :
    Does Shows faults (onCache (n := n) (Cache.requestReadAhead s)) w fun _ w' => w' = w := by
  refine quiet_does fun c hc => Yields.modify
    ⟨hc.withQueue fun t ht => ?_, fun _ _ => rfl, fun _ => id⟩
  rcases Cache.mem_pending_request ht with hmem | rfl
  · exact hc.queue t hmem
  · exact hs

theorem serveReadAhead_does :
    Does Shows faults (onCache (n := n) Cache.serveReadAhead) w fun _ w' => w' = w := by
  refine quiet_does fun c hc => Yields.bind (Yields.get ?_)
  refine (Cache.serveRequests_yields hc.coherent hc.ready _ fun s hs =>
    hc.blockCount ▸ hc.queue s hs).mono ?_
  rintro - c' ⟨hc', hf⟩
  have hqueue := hc.withQueue (q := Cache.ReadAhead.without c.readAhead c.readAhead.pending)
    fun s hs => hc.queue s (List.mem_filter.mp hs).1
  exact ⟨hqueue.of_changes hc' hf.changes_current,
    fun t ht => hf.current t (hc.blockCount.symm ▸ ht), hf.dirty⟩

theorem flushAll_does :
    Does Shows faults (onCache (n := n) Cache.flushAll) w fun _ w' => w' = w := by
  refine quiet_does fun c hc => (Cache.flushAll_yields hc.coherent).mono ?_
  rintro - c' ⟨hc', hf, -⟩
  exact ⟨hc.of_changes hc' hf.changes_current,
    fun t ht => hf.current t (hc.blockCount.symm ▸ ht), hf.dirty⟩

theorem shutdown_does : Does Shows faults (shutdown (n := n)) w fun _ w' => w' = w := by
  unfold shutdown
  rw [onCache_bind]
  refine Does.andThen (quiet_does fun c hc => Yields.modify
    ⟨hc.withQueue (by simp), fun _ _ => rfl, fun _ => id⟩) ?_
  rintro - w' rfl
  exact flushAll_does

end Volume
end TieredVolume
