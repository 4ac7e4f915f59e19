import Mathlib.Data.List.Perm.Subperm
import TieredVolume.Proofs.Space.Runs

/-!
The free map in use. `Ledger` are the maps that come of formatting by runs that are set aside and
given back, with the sectors that are out at the time, whatever the cache is used for in between and
however often the map is read again from its sectors. The bits in memory, the words that the cache
has of them and what a flush leaves on the device all tell the same: which sectors are out.
-/
namespace TieredVolume

namespace FreeMap

variable {m : FreeMap} {total : Nat} {out : List Nat}

/-- The sectors in use, the free ones among them being told by `out`, make up the whole. -/
theorem freeCount_add (htotal : m.total = total) (hroom : reserved total ≤ total)
    (hused : ∀ i < total, m.isUsed i = true ↔ i < reserved total ∨ i ∈ out)
    (hrange : ∀ i ∈ out, reserved total ≤ i ∧ i < total) (hnodup : out.Nodup) :
    m.freeCount + reserved total + out.length = total := by
  have hperm : ((List.range total).filter m.isUsed).Perm (List.range (reserved total) ++ out) := by
    refine (List.perm_ext_iff_of_nodup (List.nodup_range.filter _) ?_).mpr fun i => ?_
    · refine List.nodup_append.mpr ⟨List.nodup_range, hnodup, fun i hi j hj => ?_⟩
      have hlt := List.mem_range.mp hi
      have hle := (hrange j hj).1
      omega
    · simp only [List.mem_filter, List.mem_range, List.mem_append]
      constructor
      · rintro ⟨hi, hbit⟩
        exact (hused i hi).mp hbit
      · intro hi
        have hlt : i < total := hi.elim (fun h => by omega) fun h => (hrange i h).2
        exact ⟨hlt, (hused i hlt).mpr hi⟩
  have hlen := hperm.length_eq
  rw [List.length_append, List.length_range, ← List.countP_eq_length_filter] at hlen
  have hsum := List.length_eq_countP_add_countP m.isUsed (l := List.range total)
  rw [List.length_range] at hsum
  rw [freeCount, countFree_eq, htotal, Nat.zero_add, ← List.range_eq_range']
  simp only [Bool.not_eq_true] at hsum
  have hfree : (fun i => !m.isUsed i) = fun i => decide (m.isUsed i = false) := by
    funext i
    cases m.isUsed i <;> rfl
  rw [hfree]
  omega

end FreeMap

/-- A use of the cache that is for no sector of the map of `total` sectors. -/
def Cache.Use.Beside (total : Nat) : Cache.Use → Prop
  | read s _ _ | write s _ _ | zero s | invalidate s | prefetch s | request s => ¬ IsMap total s
  | flushAll | startReadAhead | serveReadAhead | stopReadAhead => True

theorem Cache.Use.next_of_beside {n total : Nat} {c : Cache n} {u : Cache.Use} {t : Sector}
    (hu : u.Beside total) (ht : IsMap total t) : u.next c t = c.current t := by
  have hne : ∀ {s}, ¬ IsMap total s → t ≠ s := fun hs heq => hs (heq ▸ ht)
  cases u with
  | write s | zero s | invalidate s => exact if_neg (hne hu)
  | read | prefetch | request | flushAll | startReadAhead | serveReadAhead | stopReadAhead => rfl

namespace Volume

variable {blocks total : Nat} {out : List Nat} {n k : Nat} {v v' : Volume n} {u : Volume k}
  {s : Sector} {count edge : Nat}

/-- The runs of a map over a cache, with the sectors that are out. It may be read again at any time
from the cache, and from the device after a flush. -/
inductive Ledger (blocks total : Nat) : {n : Nat} → List Nat → Volume n → Prop where
  | format {n : Nat} {device : Device} {past : List (Cache n)} {c c' : Cache n} {map : FreeMap} :
    device.Sound → device.blockCount = blocks → Cache.History device past c →
    FreeMap.format total c = .ok map c' → Ledger blocks total [] { cache := c', map }
  | allocate {n : Nat} {out : List Nat} {v v' : Volume n} {count : Nat} {s : Sector} :
    Ledger blocks total out v → 0 < count → (Volume.allocate count).run v = .ok (.ok s) v' →
    Ledger blocks total (List.range' s.block count ++ out) v'
  | refuse {n : Nat} {out : List Nat} {v v' : Volume n} {count : Nat} {why : Refusal} :
    Ledger blocks total out v → 0 < count → (Volume.allocate count).run v = .ok (.error why) v' →
    Ledger blocks total out v'
  | release {n : Nat} {out : List Nat} {v v' : Volume n} {s : Sector} {count : Nat} :
    Ledger blocks total out v → (∀ i, s.block ≤ i → i < s.block + count → i ∈ out) →
    Volume.release s count v = .ok () v' →
    Ledger blocks total (out.filter fun i => !(s.block ≤ i && i < s.block + count)) v'
  | use {n : Nat} {out : List Nat} {v v' : Volume n} {u : Cache.Use} {bytes : Bytes} :
    Ledger blocks total out v → u.Fits blocks → u.Beside total →
    Volume.onCache u.run v = .ok bytes v' → Ledger blocks total out v'
  | reopen {n : Nat} {out : List Nat} {v : Volume n} {map : FreeMap} {c : Cache n} :
    Ledger blocks total out v → FreeMap.load total v.cache = .ok map c →
    Ledger blocks total out { cache := c, map }
  | remount {n k : Nat} {out : List Nat} {v : Volume n} {map : FreeMap} {c : Cache n}
    {fresh after : Cache k} :
    Ledger blocks total out v → Cache.flushAll v.cache = .ok () c →
    Cache.fresh k c.device = .ok fresh → FreeMap.load total fresh = .ok map after →
    Ledger blocks total out { cache := after, map }

/-- The map is on its sectors, and it has the reserved sectors in use and those that are out. -/
structure Accounts (blocks total : Nat) (out : List Nat) (v : Volume n) : Prop
    extends Mapped blocks v where
  whole : v.map.total = total
  tidy : v.map.Tidy
  used : ∀ i < total, v.map.isUsed i = true ↔ i < FreeMap.reserved total ∨ i ∈ out
  range : ∀ i ∈ out, FreeMap.reserved total ≤ i ∧ i < total
  nodup : out.Nodup

namespace Accounts

variable (h : Accounts blocks total out v)

include h

/-- Nobody has a free sector, and none is reserved. -/
theorem of_free {i : Nat} (hi : i < total) (hfree : v.map.isUsed i = false) :
    FreeMap.reserved total ≤ i ∧ i ∉ out := by
  have hnot : ¬ (i < FreeMap.reserved total ∨ i ∈ out) := fun hin => by
    rw [(h.used i hi).mpr hin] at hfree
    cases hfree
  exact ⟨Nat.not_lt.mp fun hlt => hnot (.inl hlt), fun hout => hnot (.inr hout)⟩

/-- The map is told by what is out. -/
theorem map_eq (h' : Accounts blocks total out u) : u.map = v.map := by
  refine h.tidy.eq_of_isUsed h'.tidy (h'.whole.trans h.whole.symm) fun i hi => ?_
  rw [h.whole] at hi
  exact Bool.eq_iff_iff.mpr ((h'.used i hi).trans (h.used i hi).symm)

theorem allocate_yields (hcount : 0 < count) :
    Yields never (allocate (n := n) count).run v fun
      | .ok s, v' => Accounts blocks total (List.range' s.block count ++ out) v' ∧
          v.map.FreeRun count s.block ∧ (∀ s' < s.block, ¬ v.map.FreeRun count s')
      | .error why, v' => why = .noSpace ∧ v' = v ∧ ∀ s, ¬ v.map.FreeRun count s := by
  refine (Volume.allocate_yields h.toMapped hcount).mono ?_
  rintro (why | s) v' hpost
  · exact hpost
  obtain ⟨hrun, hleast, hmap, -, hre⟩ := hpost
  have hend : s.block + count ≤ total := h.whole ▸ hrun.1
  have hbits : ∀ i, v'.map.isUsed i =
      if s.block ≤ i ∧ i < s.block + count then true else v.map.isUsed i := fun i => by
    rw [hmap, FreeMap.isUsed_take hrun.1]
  have htotal : v'.map.total = v.map.total := by rw [hmap, FreeMap.total_take]
  have hfree : ∀ i, s.block ≤ i → i < s.block + count → FreeMap.reserved total ≤ i ∧ i ∉ out :=
    fun i hi hi' => h.of_free (by omega) (hrun.2 i hi hi')
  have hmem : ∀ i, i ∈ List.range' s.block count ++ out ↔
      s.block ≤ i ∧ i < s.block + count ∨ i ∈ out := fun i => by
    rw [List.mem_append, List.mem_range'_1]
  refine ⟨⟨⟨hre.usable, htotal ▸ h.le, htotal ▸ h.limit, htotal ▸ h.room, hre.written⟩,
    htotal.trans h.whole, h.tidy.of_bits htotal fun i hi => ?_, fun i hi => ?_, fun i hi => ?_, ?_⟩,
    hrun, hleast⟩
  · rw [hbits, if_neg]
    rw [h.whole] at hi
    omega
  · rw [hbits, hmem]
    split
    · rename_i hin
      simp [hin]
    · rename_i hout
      rw [h.used i hi]
      simp [hout]
  · rcases (hmem i).mp hi with hin | hout
    · exact ⟨(hfree i hin.1 hin.2).1, by omega⟩
    · exact h.range i hout
  · refine List.nodup_append.mpr ⟨List.nodup_range', h.nodup, fun i hi j hj => ?_⟩
    have hin := List.mem_range'_1.mp hi
    rintro rfl
    exact (hfree i hin.1 hin.2).2 hj

/-- A run of sectors that are out can be given back. -/
theorem release_yields (hout : ∀ i, s.block ≤ i → i < s.block + count → i ∈ out) :
    Yields never (release (n := n) s count) v fun _ v' =>
      Accounts blocks total (out.filter fun i => !(s.block ≤ i && i < s.block + count)) v' := by
  have hmem : ∀ i, i ∈ out.filter (fun i => !(s.block ≤ i && i < s.block + count)) ↔
      i ∈ out ∧ ¬ (s.block ≤ i ∧ i < s.block + count) := fun i => by
    simp only [List.mem_filter, Bool.not_eq_true', Bool.and_eq_false_iff, decide_eq_false_iff_not,
      not_and_or]
  have hlimit := h.limit
  rcases Nat.eq_zero_or_pos count with rfl | hcount
  · have hsame : out.filter (fun i => !(s.block ≤ i && i < s.block + 0)) = out :=
      List.filter_eq_self.mpr fun i hi => by simp; omega
    have hsum : addOffset s.block 0 = .ok (s.block + 0) := addOffset_eq_ok_iff.mpr
      ⟨rfl, Nat.lt_trans (show s.block < sectorLimit from s.raw.toNat_lt) (by decide)⟩
    rw [hsame]
    refine Yields.bind (Yields.ofExcept hsum (Yields.bind (Yields.onMap (Yields.pure ?_))))
    rw [if_neg (Nat.lt_irrefl 0)]
    exact Yields.onCache (Yields.pure h)
  have hlow := h.range s.block (hout _ (Nat.le_refl _) (by omega))
  have hhigh := h.range (s.block + count - 1) (hout _ (by omega) (by omega))
  refine (Volume.release_yields h.toMapped hcount (by rw [h.whole]; omega) (fun i hi hi' => ?_)
    fun t ht hin => ?_).mono ?_
  · have hi := hout i hi hi'
    exact (h.used i (h.range i hi).2).mpr (.inr hi)
  · rw [h.whole] at ht
    exact Nat.not_lt.mpr (h.range _ (hout _ hin.1 hin.2)).1 ht.2
  rintro - v' ⟨htotal, -, hbits, husable, hwritten, -⟩
  refine ⟨⟨husable, htotal ▸ h.le, htotal ▸ hlimit, htotal ▸ h.room, hwritten⟩,
    htotal.trans h.whole, h.tidy.of_bits htotal fun i hi => ?_, fun i hi => ?_,
    fun i hi => h.range i ((hmem i).mp hi).1, h.nodup.filter _⟩
  · rw [hbits, if_neg]
    rw [h.whole] at hi
    omega
  · rw [hbits, hmem]
    split
    · rename_i hin
      simp only [Bool.false_eq_true, false_iff, not_or, not_and_or, not_not]
      exact ⟨by omega, .inr hin⟩
    · rename_i hnot
      rw [h.used i hi, and_iff_left hnot]

/-- The cache may be used for other sectors. -/
theorem use_yields {use : Cache.Use} (hfits : use.Fits blocks) (hbeside : use.Beside total) :
    Yields never (onCache (n := n) use.run) v fun _ v' => Accounts blocks total out v' := by
  refine Yields.onCache ((Cache.Use.run_yields h.usable hfits).mono ?_)
  rintro - c ⟨hc, -, hstep⟩
  refine { h with usable := hc, written := h.written.congr h.limit fun t ht => ?_ }
  rw [h.whole] at ht
  rw [hstep.current, Cache.Use.next_of_beside hbeside ht]

/-- The map is read from the cache as it is in memory. -/
theorem load_yields : Yields never (FreeMap.load (n := n) total) v.cache fun map c =>
    map = v.map ∧ Accounts blocks total out { cache := c, map : Volume n } := by
  have hload : Yields never (FreeMap.load v.map.total) v.cache _ :=
    FreeMap.load_yields h.usable h.limit (h.room.trans h.le) h.written
  rw [h.whole] at hload
  refine hload.mono ?_
  rintro map c ⟨rfl, hc, hf⟩
  refine ⟨rfl, { h with usable := hc, written := h.written.congr h.limit fun t ht => ?_ }⟩
  exact hf.current t (h.usable.blockCount.symm ▸
    Nat.lt_of_lt_of_le ht.2 (h.room.trans h.le))

/-- After a flush it is on the device, for a cache of any size. -/
theorem fresh {c : Cache n} {c' : Cache k} (hflush : Cache.flushAll v.cache = .ok () c)
    (hfresh : Cache.fresh k c.device = .ok c') :
    Accounts blocks total out { cache := c', map := v.map : Volume k } := by
  have hyields : Yields never Cache.flushAll v.cache _ := Cache.flushAll_yields h.usable.coherent
  obtain ⟨hc, hf, hclean⟩ := hyields.of_ok hflush
  obtain ⟨husable, hcur⟩ := Cache.usable_fresh hc.sound hfresh
  rw [hf.blockCount, h.usable.blockCount] at husable
  refine { h with usable := husable, written := ?_ }
  intro j hj
  have hlt := FreeMap.wordSector_lt (FreeMap.reserved_le_limit h.limit) hj (h.room.trans h.le)
  rw [FreeMap.wordOn, (hcur _).1, ← hc.current_eq_block? (hclean _),
    hf.current _ (h.usable.blockCount.symm ▸ hlt)]
  exact h.written j hj

end Accounts

theorem accounts_format {c : Cache n} (hc : Cache.Usable blocks c) (hle : total ≤ blocks)
    (hlimit : total < sectorLimit) {c' : Cache n} {map : FreeMap}
    (hrun : FreeMap.format total c = .ok map c') :
    Accounts blocks total [] { cache := c', map : Volume n } := by
  have hroom : FreeMap.reserved total < total := by
    by_contra hnot
    simp only [FreeMap.format, if_neg hnot] at hrun
    cases hrun
  have hyields : Yields never (FreeMap.format total) c _ :=
    FreeMap.format_yields hc hle (FreeMap.reserved_le_limit hlimit) hroom
  obtain ⟨rfl, hre⟩ := hyields.of_ok hrun
  refine ⟨⟨hre.usable, hle, hlimit, Nat.le_of_lt hroom, hre.written⟩, rfl,
    FreeMap.tidy_ofReserved (Nat.le_of_lt hroom), fun i hi => ?_, nofun, List.nodup_nil⟩
  rw [FreeMap.isUsed_ofReserved (Nat.lt_of_lt_of_le hi (le_mapBits total)), decide_eq_true_iff]
  simp

/-- What is set aside and given back is accounted for at every step. -/
theorem Ledger.accounts (hle : total ≤ blocks) (hlimit : total < sectorLimit)
    (h : Ledger blocks total out v) : Accounts blocks total out v := by
  induction h with
  | format hd hcount hpast hrun =>
    exact accounts_format (hcount ▸ (hpast.usable hd).1) hle hlimit hrun
  | allocate _ hpos hrun ih => exact ((ih.allocate_yields hpos).of_ok hrun).1
  | refuse _ hpos hrun ih =>
    obtain ⟨-, rfl, -⟩ := (ih.allocate_yields hpos).of_ok hrun
    exact ih
  | release _ hout hrun ih => exact (ih.release_yields hout).of_ok hrun
  | use _ hfits hbeside hrun ih => exact (ih.use_yields hfits hbeside).of_ok hrun
  | reopen _ hrun ih => exact (ih.load_yields.of_ok hrun).2
  | remount _ hflush hfresh hrun ih =>
    exact ((ih.fresh hflush hfresh).load_yields.of_ok hrun).2

/-! ### Filling from below -/

/-- On a device of `total` sectors those below `edge` are in use, and no others. -/
structure FilledTo (total edge : Nat) (v : Volume n) : Prop where
  usable : Cache.Usable total v.cache
  whole : v.map.total = total
  used : ∀ i < total, v.map.isUsed i = decide (i < edge)

/-- The next allocation goes on from the edge. -/
theorem FilledTo.allocate (h : FilledTo total edge v) (hroom : FreeMap.reserved total ≤ total)
    (hlimit : FreeMap.reserved total ≤ sectorLimit) (hcount : 0 < count)
    (hend : edge + count ≤ total) :
    ∃ v', (Volume.allocate count).run v = .ok (.ok (Sector.ofNat edge)) v' ∧
      FilledTo total (edge + count) v' := by
  obtain ⟨hc, rfl, hused⟩ := h
  have hfits : v.map.FreeRun count edge := ⟨hend, fun i hi hi' => by
    rw [hused i (by omega), decide_eq_false (Nat.not_lt.mpr hi)]⟩
  have htakes : Yields never (Volume.allocate (n := n) count).run v _ :=
    allocate_takes hc hroom hcount hlimit
  obtain ⟨answer, v', hrun, hpost⟩ := htakes.ok_of_never
  cases answer with
  | error why => exact absurd hfits (hpost.2.1 edge)
  | ok s =>
    obtain ⟨start, rfl, hfree, hleast, hmap, -, hp⟩ := hpost
    -- below the edge all is in use, and behind it the run would not be the first
    have hlow : edge ≤ start := by
      have hclear := hfree.2 start (Nat.le_refl _) (by omega)
      have hstart := hfree.1
      rw [hused start (by omega)] at hclear
      exact Nat.not_lt.mp (of_decide_eq_false hclear)
    obtain rfl : start = edge :=
      Nat.le_antisymm (Nat.not_lt.mp fun hlt => hleast edge hlt hfits) hlow
    refine ⟨v', hrun, hp.usable, by rw [hmap, FreeMap.total_take], fun i hi => ?_⟩
    rw [hmap, FreeMap.isUsed_take hend, hused i hi]
    split
    · rename_i hin
      exact (decide_eq_true hin.2).symm
    · exact decide_eq_decide.mpr (by omega)

/-- A fresh map has the reserved sectors in use. -/
theorem Ledger.exists_fresh (hroom : FreeMap.reserved total < total)
    (hlimit : FreeMap.reserved total ≤ sectorLimit) :
    ∃ v : Volume cacheCapacity, Ledger total total [] v ∧
      FilledTo total (FreeMap.reserved total) v := by
  have hd : (Device.memory (MemoryDisk.blank total)).Sound := trivial
  have hblocks : (Device.memory (MemoryDisk.blank total)).blockCount = total := Array.size_replicate
  obtain ⟨c, hc⟩ : ∃ c : Cache cacheCapacity,
      Cache.fresh cacheCapacity (.memory (MemoryDisk.blank total)) = .ok c := ⟨_, rfl⟩
  have hformat : Yields never (FreeMap.format total) c _ :=
    FreeMap.format_yields (hblocks ▸ (Cache.usable_fresh hd hc).1) (Nat.le_refl _) hlimit hroom
  obtain ⟨_, c', hrun, rfl, hre⟩ := hformat.ok_of_never
  exact ⟨{ cache := c', map := _ }, .format hd hblocks (.fresh hc) hrun, hre.usable, rfl, fun i hi =>
    FreeMap.isUsed_ofReserved (Nat.lt_of_lt_of_le hi (le_mapBits total))⟩

/-! ### What every ledger tells -/

/-- Two volumes with the same map answer alike whatever is asked for the sectors that are out, and
have the same map afterwards. -/
structure AnswersAlike (out : List Nat) (v : Volume n) (u : Volume k) : Prop where
  map : u.map = v.map
  allocate : ∀ count, 0 < count → ∃ answer v' u', (Volume.allocate count).run v = .ok answer v' ∧
    (Volume.allocate count).run u = .ok answer u' ∧ u'.map = v'.map
  release : ∀ (s : Sector) count, (∀ i, s.block ≤ i → i < s.block + count → i ∈ out) →
    ∃ v' u', Volume.release s count v = .ok () v' ∧ Volume.release s count u = .ok () u' ∧
      u'.map = v'.map
  isAllocated : ∀ s used, Volume.isAllocated s v = .ok used v ↔ Volume.isAllocated s u = .ok used u

theorem Accounts.answersAlike (h : Accounts blocks total out v) (h' : Accounts blocks total out u) :
    AnswersAlike out v u where
  map := h.map_eq h'
  allocate := fun count hcount => by
    obtain ⟨a, v', hv, hpost⟩ := (h.allocate_yields hcount).ok_of_never
    obtain ⟨b, u', hu, hpost'⟩ := (h'.allocate_yields hcount).ok_of_never
    rw [h.map_eq h'] at hpost'
    rcases a with why | s <;> rcases b with why' | s'
    · obtain ⟨rfl, rfl, -⟩ := hpost
      obtain ⟨rfl, rfl, -⟩ := hpost'
      exact ⟨_, _, _, hv, hu, h.map_eq h'⟩
    · exact absurd hpost'.2.1 (hpost.2.2 s'.block)
    · exact absurd hpost.2.1 (hpost'.2.2 s.block)
    · -- both are the first run that is long enough
      have hfirst : s'.block = s.block := Nat.le_antisymm
        (Nat.not_lt.mp fun hlt => hpost'.2.2 _ hlt hpost.2.1)
        (Nat.not_lt.mp fun hlt => hpost.2.2 _ hlt hpost'.2.1)
      obtain rfl := Sector.block_injective hfirst
      exact ⟨_, _, _, hv, hu, hpost.1.map_eq hpost'.1⟩
  release := fun s count hout => by
    obtain ⟨_, v', hv, hpost⟩ := (h.release_yields hout).ok_of_never
    obtain ⟨_, u', hu, hpost'⟩ := (h'.release_yields hout).ok_of_never
    exact ⟨v', u', hv, hu, hpost.map_eq hpost'⟩
  isAllocated := fun s used => by
    have hbit : ∀ {j} (x : Volume j), x.map = v.map → (Volume.isAllocated s x = .ok used x ↔
        v.map.isUsed? s.block = some used) := fun {j} x hx => by
      have hget : (get : VolumeM j (Volume j)) x = .ok x x := rfl
      have hthrow : (throw .noSuchBit : VolumeM j Bool) x = .error .noSuchBit x := rfl
      simp only [Volume.isAllocated, bind, EStateM.bind, hget, hx]
      cases v.map.isUsed? s.block with
      | none => simp [hthrow]
      | some b => simp [pure, EStateM.pure]
    rw [hbit v rfl, hbit u (h.map_eq h')]

/-- What is out are the sectors in use that are not reserved, no sector is out twice, and the others
are free. The sectors of the map tell the same as the bits in memory, in the cache at any time and on
the device after a flush, so that a map that is read again answers as the one in memory does. -/
theorem Ledger.agrees (hle : total ≤ blocks) (hlimit : total < sectorLimit)
    (h : Ledger blocks total out v) :
    out.Nodup ∧
    (∀ i, i ∈ out ↔ FreeMap.reserved total ≤ i ∧ i < total ∧ v.map.isUsed i = true) ∧
    v.map.freeCount + FreeMap.reserved total + out.length = total ∧
    (∃ c, FreeMap.load total v.cache = .ok v.map c) ∧
    (∃ c, Cache.flushAll v.cache = .ok () c ∧ ∀ {k : Nat} (fresh : Cache k),
      Cache.fresh k c.device = .ok fresh → ∃ c', FreeMap.load total fresh = .ok v.map c') ∧
    ∀ {k : Nat} (u : Volume k), Ledger blocks total out u → AnswersAlike out v u := by
  have ha := h.accounts hle hlimit
  refine ⟨ha.nodup, fun i => ⟨fun hi => ?_, fun ⟨hlow, hhigh, hbit⟩ => ?_⟩,
    FreeMap.freeCount_add ha.whole (ha.whole ▸ ha.room) ha.used ha.range ha.nodup, ?_, ?_,
    fun u hu => ha.answersAlike (hu.accounts hle hlimit)⟩
  · obtain ⟨hlow, hhigh⟩ := ha.range i hi
    exact ⟨hlow, hhigh, (ha.used i hhigh).mpr (.inr hi)⟩
  · exact ((ha.used i hhigh).mp hbit).resolve_left (Nat.not_lt.mpr hlow)
  · obtain ⟨_, c, hload, rfl, -⟩ := ha.load_yields.ok_of_never
    exact ⟨c, hload⟩
  · have hflush : Yields never Cache.flushAll v.cache _ := Cache.flushAll_yields ha.usable.coherent
    obtain ⟨_, c, hrun, -⟩ := hflush.ok_of_never
    refine ⟨c, hrun, fun fresh hfresh => ?_⟩
    obtain ⟨_, c', hload, rfl, -⟩ := (ha.fresh hrun hfresh).load_yields.ok_of_never
    exact ⟨c', hload⟩

/-- Of the map of eight sectors three are set aside, and the one in the middle is given back. -/
theorem Ledger.agrees_hole : ∃ v : Volume cacheCapacity, 8 ≤ 8 ∧ 8 < sectorLimit ∧
    Ledger 8 8 [2, 4] v ∧ v.map.isUsed 2 = true ∧ v.map.isUsed 3 = false ∧ v.map.isUsed 4 = true ∧
    v.map.freeCount = 4 ∧ ∃ c, FreeMap.load 8 v.cache = .ok v.map c := by
  have hreserved : FreeMap.reserved 8 = 2 := by decide
  obtain ⟨v₀, hfresh, hv₀⟩ : ∃ v : Volume cacheCapacity, Ledger 8 8 [] v ∧ FilledTo 8 2 v :=
    exists_fresh (by decide) (by decide)
  obtain ⟨v₁, hallocate, -⟩ := hv₀.allocate (by decide) (by decide) (show 0 < 3 by decide) (by decide)
  have hthree : Ledger 8 8 [2, 3, 4] v₁ := hfresh.allocate (by decide) hallocate
  have hout : ∀ i, (Sector.ofNat 3).block ≤ i → i < (Sector.ofNat 3).block + 1 → i ∈ [2, 3, 4] := by
    have hblock : (Sector.ofNat 3).block = 3 := by decide
    intro i hi hi'
    obtain rfl : i = 3 := by omega
    decide
  have hrelease : Yields never (Volume.release (Sector.ofNat 3) 1) v₁ _ :=
    (hthree.accounts (Nat.le_refl 8) (by decide)).release_yields hout
  obtain ⟨⟨⟩, v, hrun, -⟩ := hrelease.ok_of_never
  have hledger : Ledger 8 8 [2, 4] v := hthree.release hout hrun
  obtain ⟨-, hiff, hcount, hload, -⟩ := Ledger.agrees (Nat.le_refl 8) (by decide) hledger
  rw [hreserved] at hcount hiff
  refine ⟨v, Nat.le_refl 8, by decide, hledger, ((hiff 2).mp (by decide)).2.2, ?_,
    ((hiff 4).mp (by decide)).2.2, by simpa using hcount, hload⟩
  exact Bool.eq_false_iff.mpr fun hbit =>
    absurd ((hiff 3).mpr ⟨by decide, by decide, hbit⟩) (by decide)

end Volume
end TieredVolume
