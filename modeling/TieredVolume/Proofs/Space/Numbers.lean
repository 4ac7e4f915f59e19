import TieredVolume.Proofs.Disk.Record
import TieredVolume.Proofs.Space.Ledger

/-!
The numbers of sectors. The map has a bit for every sector of the device, however many these are,
but the number of a sector has 32 bits, and the largest of these numbers is the word for no sector.
What an allocation answers tells the first sector that it set aside just if that lies below the
largest number. Of fewer than 2^32 sectors all do; of more, a time comes when the answer is taken for
no sector at all.
-/
namespace TieredVolume

/-- The sector tells the index `i`: it is its number, and a link to the sector, in a record of either
kind, is read back from the disk as that sector and not as none. -/
structure Sector.Tells (s : Sector) (i : Nat) : Prop where
  block : s.block = i
  ne_none : s.raw ≠ Sector.noneRaw
  decode : Sector.decode s.raw = some s
  link : ∀ {k : Kind} {r : Record} {j : Nat}, r.Is k → j < Record.linkCount k →
    ∃ r' raw, r.setLink k j s.raw = .ok r' ∧
      (Record.ofBlock r'.toBlock).link k j = .ok raw ∧ Sector.decode raw = some s

namespace Sector

variable {s : Sector} {i : Nat}

theorem tells_of_lt (h : s.block + 1 < sectorLimit) : s.Tells s.block where
  block := rfl
  ne_none := (decode_eq_some_iff.mp (decode_raw h)).2
  decode := decode_raw h
  link := fun {k r j} hr hj => by
    have hj' : j < 79 := Nat.lt_of_lt_of_le hj (Record.linkCount_le k)
    refine ⟨_, _, hr.setLink hj hj', ?_, decode_raw h⟩
    rw [Record.ofBlock_toBlock, (hr.withIndex _).link hj hj', Vector.getElem_set_self]

/-- Of the low 32 bits of an index all is told if it lies below the largest number. -/
theorem tells_ofNat_iff : (ofNat i).Tells i ↔ i + 1 < sectorLimit := by
  constructor
  · intro h
    have hlt : (ofNat i).block < sectorLimit := (ofNat i).raw.toNat_lt
    rw [h.block] at hlt
    have hne : i ≠ 4294967295 := fun heq => h.ne_none (by rw [heq]; rfl)
    simp only [sectorLimit] at *
    omega
  · intro h
    have hblock : (ofNat i).block = i := block_ofNat (Nat.lt_of_succ_lt h)
    have htells := tells_of_lt (s := ofNat i) (by rwa [hblock])
    rwa [hblock] at htells

end Sector

namespace Volume

variable {n blocks total count : Nat} {out : List Nat} {v v' : Volume n} {s : Sector}

/-- Whatever bits a map has, and however many: an allocation that answers a sector has set the bits
of the first run that is long enough, and the sector is the low 32 bits of where that run starts. It
tells where the run starts just if that is below the largest number. -/
theorem allocate_tells (hrun : (allocate count).run v = .ok (.ok s) v') :
    ∃ start, v.map.FreeRun count start ∧ (∀ s' < start, ¬ v.map.FreeRun count s') ∧
      start < v.map.total ∧
      (∀ i, v'.map.isUsed i = if start ≤ i ∧ i < start + count then true else v.map.isUsed i) ∧
      s = Sector.ofNat start ∧ (s.Tells start ↔ start + 1 < sectorLimit) := by
  have hcount : 0 < count := Nat.pos_of_ne_zero fun hzero => by
    subst hzero
    cases hrun
  -- writing the words may fail, but it leaves the map in memory alone
  have hpersist : ∀ start, v.map.FreeRun count start →
      Yields anyFault (persistRun start count) { v with map := FreeMap.take start count v.map }
        fun _ v' => v'.map = FreeMap.take start count v.map := fun start _ =>
    Yields.bind (Yields.get (Yields.onCache ((Yields.anything _ _).mono fun _ _ _ => rfl)))
  obtain ⟨start, rfl, hfree, hleast, hmap⟩ := (allocate_sets hcount hpersist).of_ok hrun
  have hend := hfree.1
  refine ⟨start, hfree, hleast, by omega, fun i => ?_, rfl, Sector.tells_ofNat_iff⟩
  rw [hmap, FreeMap.isUsed_take hend]

/-! ### Devices that are small enough -/

/-- Of fewer than 2^32 sectors, every one that is out is told by its number, no two have the same,
and what is allocated next is told by its number too. -/
theorem Ledger.tells (hle : total ≤ blocks) (hlimit : total < sectorLimit)
    (h : Ledger blocks total out v) :
    (∀ i ∈ out, (Sector.ofNat i).Tells i) ∧ (out.map Sector.ofNat).Nodup ∧
    ∀ count, 0 < count → ∃ answer v', (Volume.allocate count).run v = .ok answer v' ∧
      match answer with
      | .ok s => v.map.FreeRun count s.block ∧ s.block < total ∧ s.Tells s.block
      | .error why => why = .noSpace := by
  have ha := h.accounts hle hlimit
  have htells : ∀ i ∈ out, (Sector.ofNat i).Tells i := fun i hi =>
    Sector.tells_ofNat_iff.mpr (Nat.lt_of_le_of_lt (ha.range i hi).2 hlimit)
  refine ⟨htells, ha.nodup.map_on fun i hi j hj heq => ?_, fun count hcount => ?_⟩
  · rw [← (htells i hi).block, heq, (htells j hj).block]
  · obtain ⟨answer, v', hrun, hpost⟩ := (ha.allocate_yields hcount).ok_of_never
    refine ⟨answer, v', hrun, ?_⟩
    cases answer with
    | error why => exact hpost.1
    | ok s =>
      have hend := hpost.2.1.1
      rw [ha.whole] at hend
      have hlt : s.block < total := by omega
      exact ⟨hpost.2.1, hlt, Sector.tells_of_lt (Nat.lt_of_le_of_lt hlt hlimit)⟩

/-! ### Devices that are too large -/

/-- Of 2^32 sectors or more, let all below the largest number be set aside: the next allocation
answers the word for no sector. The map takes a sector for 4096 others, so that its own sectors have
numbers on far larger devices. -/
theorem Ledger.exists_untold (hlarge : sectorLimit ≤ total)
    (hmap : FreeMap.reserved total + 1 < sectorLimit) :
    ∃ (out : List Nat) (v v' : Volume cacheCapacity), Ledger total total out v ∧
      (Volume.allocate 1).run v = .ok (.ok ⟨Sector.noneRaw⟩) v' := by
  have hroom : FreeMap.reserved total < total := by omega
  have hlimit : FreeMap.reserved total ≤ sectorLimit := by omega
  obtain ⟨v₀, hfresh, hv₀⟩ := exists_fresh hroom hlimit
  have hcount : 0 < sectorLimit - 1 - FreeMap.reserved total := by omega
  obtain ⟨v, hfill, hv⟩ := hv₀.allocate (Nat.le_of_lt hroom) hlimit hcount (by omega)
  have hedge : FreeMap.reserved total + (sectorLimit - 1 - FreeMap.reserved total) =
      Sector.noneRaw.toNat := by
    rw [Nat.add_sub_cancel' (by omega)]
    rfl
  rw [hedge] at hv
  obtain ⟨v', hnone, -⟩ := hv.allocate (Nat.le_of_lt hroom) hlimit Nat.one_pos hlarge
  exact ⟨_, v, v', hfresh.allocate hcount hfill, hnone⟩

/-- With a map for all sectors of its device, whatever is allocated at any time is told by the answer
just if there are fewer than 2^32 sectors. -/
theorem Ledger.tells_iff (hmap : FreeMap.reserved total + 1 < sectorLimit) :
    (∀ {out : List Nat} {v v' : Volume cacheCapacity} {count : Nat} {s : Sector},
      Ledger total total out v → (Volume.allocate count).run v = .ok (.ok s) v' →
      ∃ start < total, v.map.FreeRun count start ∧ s.Tells start) ↔ total < sectorLimit := by
  constructor
  · intro htells
    by_contra hlarge
    obtain ⟨out, v, v', hledger, hrun⟩ := exists_untold (Nat.not_lt.mp hlarge) hmap
    obtain ⟨start, -, -, hs⟩ := htells hledger hrun
    exact hs.ne_none rfl
  · intro hlimit out v v' count s hledger hrun
    obtain ⟨start, hfree, -, hlt, -, -, hiff⟩ := allocate_tells hrun
    rw [(hledger.accounts (Nat.le_refl _) hlimit).whole] at hlt
    exact ⟨start, hlt, hfree, hiff.mpr (Nat.lt_of_le_of_lt hlt hlimit)⟩

end Volume
end TieredVolume
