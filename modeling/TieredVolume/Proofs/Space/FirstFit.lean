import TieredVolume.Proofs.Space.Runs

/-!
First fit. Whatever bits the map has, an allocation sets aside the first run of free sectors that is
long enough and is refused only if there is none; giving that run back leaves the map as it was.
Nothing is assumed of which sectors are in use, nor of what the map's own sectors hold.
-/
namespace TieredVolume

namespace FreeMap

variable {m m' : FreeMap} {count start : Nat}

theorem free_take (h : m.FreeRun count start) :
    (take start count m).free = m.free \ Finset.Ico start (start + count) := by
  ext i
  rw [mem_free, Finset.mem_sdiff, mem_free, Finset.mem_Ico, total_take, isUsed_take h.1]
  split <;> simp_all

/-- A run that is set aside is no longer free, and all else is as before. -/
theorem freeCount_take (h : m.FreeRun count start) :
    (take start count m).freeCount + count = m.freeCount := by
  have hsub : Finset.Ico start (start + count) ⊆ m.free := fun i hi => by
    obtain ⟨hle, hlt⟩ := Finset.mem_Ico.mp hi
    exact mem_free.mpr ⟨Nat.lt_of_lt_of_le hlt h.1, h.2 i hle hlt⟩
  have hcard := Finset.card_sdiff_add_card_eq_card hsub
  rwa [Nat.card_Ico, Nat.add_sub_cancel_left, ← free_take h, ← freeCount_eq_card,
    ← freeCount_eq_card] at hcard

end FreeMap

namespace Volume

variable {n blocks count : Nat} {v v' : Volume n} {s : Sector}

/-- The run of `count` sectors from `s` on was set aside: its bits were clear and are set, no other
bit changed, and giving the run back later brings the map back. -/
structure SetsAside (blocks count : Nat) (v : Volume n) (s : Sector) (v' : Volume n) : Prop where
  clear : ∀ i, s.block ≤ i → i < s.block + count → v.map.isUsed i = false
  bits : ∀ i, v'.map.isUsed i =
    if s.block ≤ i ∧ i < s.block + count then true else v.map.isUsed i
  total : v'.map.total = v.map.total
  freeCount : v'.map.freeCount + count = v.map.freeCount
  usable : Cache.Usable blocks v'.cache
  gives : ∀ u : Volume n, Cache.Usable blocks u.cache → u.map = v'.map →
    ∃ u', release s count u = .ok () u' ∧ u'.map = v.map

/-- A run that was free before it was set aside can be given back, which undoes it. -/
theorem release_undoes (hc : Cache.Usable blocks v'.cache) (hlimit : v.map.total < sectorLimit)
    (hroom : FreeMap.reserved v.map.total ≤ blocks) (hcount : 0 < count)
    (hrun : v.map.FreeRun count s.block) (hmap : v'.map = FreeMap.take s.block count v.map) :
    ∃ u', release s count v' = .ok () u' ∧ u'.map = v.map := by
  have htotal : v'.map.total = v.map.total := by rw [hmap, FreeMap.total_take]
  have hbits : ∀ i, v'.map.isUsed i =
      if s.block ≤ i ∧ i < s.block + count then true else v.map.isUsed i := fun i => by
    rw [hmap, FreeMap.isUsed_take hrun.1]
  have hrelease : Yields never (release s count) v' _ :=
    release_fits hc (htotal ▸ hlimit) (htotal ▸ hroom) hcount (htotal ▸ hrun.1)
      fun i hi hi' => by rw [hbits, if_pos ⟨hi, hi'⟩]
  obtain ⟨_, u, hu, htotal', -, hbits', -⟩ := hrelease.ok_of_never
  refine ⟨u, hu, FreeMap.eq_of_isUsed (htotal'.trans htotal) fun i _ => ?_⟩
  rw [hbits', hbits]
  split
  · rename_i hin
    rw [hrun.2 i hin.1 hin.2]
  · rfl

/-- An allocation answers the first run of free sectors that is long enough, if there is one, and
sets aside that run and nothing else; otherwise it is refused and leaves all as it was. Bits that
belong to no sector make no difference. -/
theorem allocate_firstFit (hc : Cache.Usable blocks v.cache) (hlimit : v.map.total < sectorLimit)
    (hroom : FreeMap.reserved v.map.total ≤ blocks) (hcount : 0 < count) :
    ∃ answer v', (allocate count).run v = .ok answer v' ∧
      ((∃ s, answer = .ok s) ↔ ∃ start, v.map.FreeRun count start) ∧
      (match answer with
        | .ok s => v.map.FreeRun count s.block ∧ (∀ s' < s.block, ¬ v.map.FreeRun count s') ∧
            SetsAside blocks count v s v'
        | .error why => why = .noSpace ∧ v' = v) ∧
      ∀ m : FreeMap, m.total = v.map.total → (∀ i < v.map.total, m.isUsed i = v.map.isUsed i) →
        m.freeCount = v.map.freeCount ∧
        ∃ u, (allocate count).run { v with map := m } = .ok answer u := by
  have hrun : Yields never (allocate (n := n) count).run v _ := allocate_fits hc hlimit hroom hcount
  obtain ⟨answer, v', hok, hfits, hpost⟩ := hrun.ok_of_never
  refine ⟨answer, v', hok, ?_, ?_, fun m htotal hbits => ⟨?_, ?_⟩⟩
  · cases answer with
    | ok s => exact iff_of_true ⟨s, rfl⟩ ⟨_, hfits.1⟩
    | error why => exact iff_of_false nofun fun ⟨start, hstart⟩ => hfits.2 start hstart
  · cases answer with
    | error why => exact ⟨hfits.1, hpost⟩
    | ok s =>
      obtain ⟨hfree, hfirst⟩ := hfits
      obtain ⟨hmap, -, hp⟩ := hpost
      refine ⟨hfree, hfirst, hfree.2, fun i => ?_, ?_, ?_, hp.usable, fun u hu hmap' => ?_⟩
      · rw [hmap, FreeMap.isUsed_take hfree.1]
      · rw [hmap, FreeMap.total_take]
      · rw [hmap, FreeMap.freeCount_take hfree]
      · exact release_undoes hu hlimit hroom hcount hfree (hmap'.trans hmap)
  · rw [FreeMap.freeCount_eq_card, FreeMap.freeCount_eq_card]
    refine congrArg Finset.card (Finset.ext fun i => ?_)
    rw [FreeMap.mem_free, FreeMap.mem_free, htotal]
    exact and_congr_right fun hi => by rw [hbits i hi]
  · -- the other map has the same free runs, so it has the same first one
    have hother : Yields never (allocate (n := n) count).run { v with map := m } _ :=
      allocate_fits hc (htotal ▸ hlimit) (htotal ▸ hroom) hcount
    obtain ⟨answer', u, hu, hfits', -⟩ := hother.ok_of_never
    exact ⟨u, (hfits.congr htotal hbits).unique hfits' ▸ hu⟩

/-- Three sectors of eight, of which the first two are reserved. -/
theorem allocate_firstFit_blank : ∃ (v v' : Volume 1) (s : Sector), Cache.Usable 8 v.cache ∧
    v.map = FreeMap.ofReserved 8 2 ∧ (allocate 3).run v = .ok (.ok s) v' ∧
    s.block = 2 := by
  obtain ⟨c, hc⟩ : ∃ c : Cache 1, Cache.fresh 1 (.memory (MemoryDisk.blank 8)) = .ok c := ⟨_, rfl⟩
  let v : Volume 1 := { cache := c, map := FreeMap.ofReserved 8 2 }
  have hd : (Device.memory (MemoryDisk.blank 8)).Sound := trivial
  have husable : Cache.Usable 8 c := (Cache.usable_fresh hd hc).1
  have hbits : ∀ i < 8, (FreeMap.ofReserved 8 2).isUsed i = decide (i < 2) := fun i hi =>
    FreeMap.isUsed_ofReserved (Nat.lt_of_lt_of_le hi (le_mapBits 8))
  have hrun : (FreeMap.ofReserved 8 2).FreeRun 3 2 := ⟨show 2 + 3 ≤ 8 by decide, fun i hi hi' => by
    rw [hbits i (by omega), decide_eq_false (Nat.not_lt.mpr hi)]⟩
  obtain ⟨answer, v', hok, hsome, hpost, -⟩ := allocate_firstFit
    (show Cache.Usable v.map.total v.cache from husable) (show 8 < sectorLimit by decide)
    (show FreeMap.reserved 8 ≤ 8 by decide) (show 0 < 3 by decide)
  obtain ⟨s, rfl⟩ := hsome.mpr ⟨2, hrun⟩
  obtain ⟨⟨-, hfree⟩, hfirst, -⟩ := hpost
  refine ⟨_, v', s, husable, rfl, hok, Nat.le_antisymm ?_ (Nat.not_lt.mp fun hlt => ?_)⟩
  · exact Nat.not_lt.mp fun hlt => hfirst 2 hlt hrun
  · have hused := hfree s.block (Nat.le_refl _) (Nat.lt_add_of_pos_right (by decide))
    rw [hbits _ (by omega), decide_eq_true hlt] at hused
    cases hused

end Volume
end TieredVolume
