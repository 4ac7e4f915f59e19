import Mathlib.Algebra.BigOperators.Group.Finset.Sigma
import Mathlib.Data.Finset.Option
import TieredVolume.Proofs.Inode.Shelf

/-!
How many sectors a file has. Besides its header these are the data sectors for its bytes, of which
there is always a first, and the index blocks on the ways to them. Files that are there at the same
time have no sector in common, so that all of them have to fit beside the free map.
-/
namespace TieredVolume

variable {w : View} {live spare : Set Sector} {h : Sector} {length stop total : Nat} {S : Shelf}

/-- How many sectors a file of some length has besides its header. -/
def treeSize (length : Nat) : Nat := (ways 0 (max 1 (Record.dataSectors length))).card

/-- How many sectors it has with it. -/
def footprint (length : Nat) : Nat := treeSize length + 1

theorem treeSize_zero : treeSize 0 = 1 := by decide

theorem treeSize_mono {a b : Nat} (h : a ≤ b) : treeSize a ≤ treeSize b := by
  refine Finset.card_le_card (ways_mono (Nat.le_refl 0) ?_)
  simp only [Record.dataSectors, sectorSize]
  omega

/-- There is always a first sector, and a short file has no other. -/
theorem treeSize_of_short (hshort : length ≤ sectorSize) : treeSize length = 1 := by
  have hone : max 1 (Record.dataSectors length) = max 1 (Record.dataSectors 0) := by
    simp only [Record.dataSectors, sectorSize] at hshort ⊢
    omega
  rw [treeSize, hone]
  exact treeSize_zero

theorem one_le_treeSize (length : Nat) : 1 ≤ treeSize length :=
  treeSize_zero ▸ treeSize_mono (Nat.zero_le length)

theorem Sized.link_of_mem (hz : Sized w h) {p : Place}
    (hp : p ∈ ways 0 (max 1 (Record.dataSectors (w.size h)))) : w.link h p ≠ none := by
  refine link_of_mem_ways (fun l _ hl => ?_) hp
  by_cases hin : l < Record.dataSectors (w.size h)
  · exact hz.bound l hin
  · obtain rfl : l = 0 := by omega
    exact hz.first

/-- What a file lacks up to a byte is what that length needs beyond its own. -/
theorem Sized.card_missing_le (hz : Sized w h) (stop : Nat) :
    (w.missing h (ways (Record.dataSectors (w.size h)) (Record.dataSectors stop))).card ≤
      treeSize stop - treeSize (w.size h) := by
  by_cases hle : w.size h ≤ stop
  · have hsub : ways 0 (max 1 (Record.dataSectors (w.size h))) ⊆
        ways 0 (max 1 (Record.dataSectors stop)) := by
      refine ways_mono (Nat.le_refl 0) ?_
      simp only [Record.dataSectors, sectorSize]
      omega
    rw [treeSize, treeSize, ← Finset.card_sdiff_of_subset hsub]
    refine Finset.card_le_card fun p hp => ?_
    obtain ⟨hin, hnone⟩ := Finset.mem_filter.mp hp
    exact Finset.mem_sdiff.mpr ⟨ways_mono (Nat.zero_le _) (Nat.le_max_right ..) hin,
      fun hold => hz.link_of_mem hold hnone⟩
  · have hempty : ways (Record.dataSectors (w.size h)) (Record.dataSectors stop) = ∅ := by
      rw [ways, Finset.Ico_eq_empty, Finset.biUnion_empty]
      simp only [Record.dataSectors, sectorSize]
      omega
    rw [hempty]
    exact Nat.zero_le _

/-- The places at which a file of its length has sectors; `none` stands for its header. -/
def View.places (w : View) (h : Sector) : Finset (Option Place) :=
  Finset.insertNone (ways 0 (max 1 (Record.dataSectors (w.size h))))

theorem View.card_places (w : View) (h : Sector) : (w.places h).card = footprint (w.size h) :=
  Finset.card_insertNone _

theorem Sized.exists_sector (hz : Sized w h) {q : Option Place} (hq : q ∈ w.places h) :
    ∃ s, w.sector h q = some s := by
  cases q with
  | none => exact ⟨h, rfl⟩
  | some p => exact Option.ne_none_iff_exists'.mp (hz.link_of_mem (Finset.some_mem_insertNone.mp hq))

/-- The sectors of all files and the free map are different ones. -/
theorem Forest.footprint_le (hf : Forest w live spare)
    (hrange : ∀ s, w.used s = true → s.block < w.total)
    (hroom : FreeMap.reserved w.total ≤ w.total) {files : List Sector} (hnodup : files.Nodup)
    (hfiles : ∀ h ∈ files, h ∈ live ∧ Sized w h) :
    mapSectors w.total + (files.map fun h => footprint (w.size h)).sum ≤ w.total := by
  classical
  have hsector : ∀ x ∈ files.toFinset.sigma w.places,
      x.1 ∈ live ∧ ∃ s, w.sector x.1 x.2 = some s := fun x hx => by
    obtain ⟨hx, hq⟩ := Finset.mem_sigma.mp hx
    obtain ⟨hlive, hz⟩ := hfiles x.1 (List.mem_toFinset.mp hx)
    exact ⟨hlive, hz.exists_sector hq⟩
  -- one place, one block behind the map
  have hle : (files.toFinset.sigma w.places).card ≤
      (Finset.range w.total \ Finset.Ico freeMapStart (FreeMap.reserved w.total)).card := by
    refine Finset.card_le_card_of_injOn (fun x => ((w.sector x.1 x.2).getD rootSector).block)
      (fun x hx => ?_) fun x hx y hy heq => ?_
    · obtain ⟨hlive, s, hs⟩ := hsector x hx
      obtain ⟨hused, hmap⟩ := (hf.stored x.1 hlive x.2 s hs).1
      simp only [hs, Option.getD_some]
      exact Finset.mem_sdiff.mpr ⟨Finset.mem_range.mpr (hrange s hused),
        fun hin => hmap (Finset.mem_Ico.mp hin)⟩
    · obtain ⟨hlive, s, hs⟩ := hsector x hx
      obtain ⟨hlive', s', hs'⟩ := hsector y hy
      simp only [hs, hs', Option.getD_some] at heq
      obtain rfl : s = s' := Sector.block_injective heq
      obtain ⟨hfile, hplace⟩ := hf.unique x.1 hlive y.1 hlive' x.2 y.2 s hs hs'
      exact Sigma.ext hfile (heq_of_eq hplace)
  have hmap : Finset.Ico freeMapStart (FreeMap.reserved w.total) ⊆ Finset.range w.total :=
    fun i hi => Finset.mem_range.mpr (Nat.lt_of_lt_of_le (Finset.mem_Ico.mp hi).2 hroom)
  rw [Finset.card_sigma, List.sum_toFinset _ hnodup, Finset.card_sdiff_of_subset hmap,
    Finset.card_range, Nat.card_Ico] at hle
  simp only [View.card_places] at hle
  rw [FreeMap.reserved] at hle hroom
  omega

/-- The files of a volume fit on its device together. -/
theorem Stores.footprint_le {n : Nat} {v : Volume n} (hv : Stores total v S) {files : List Sector}
    (hnodup : files.Nodup) (hfiles : ∀ h ∈ files, h ∈ S.live) :
    mapSectors total + (files.map fun h => footprint (S.bytes h).length).sum ≤ total := by
  obtain ⟨w, hvw, hw⟩ := hv
  have htotal : w.total = total := hw.total
  have hroom : FreeMap.reserved w.total ≤ w.total := hvw.total ▸ hvw.sound.room
  have hsum := hw.forest.footprint_le (fun s hs => hvw.lt hs) hroom hnodup fun h hh =>
    ⟨hfiles h hh, hw.sized h (hfiles h hh)⟩
  have hsize : (files.map fun h => footprint (w.size h)) =
      files.map fun h => footprint (S.bytes h).length :=
    List.map_congr_left fun h hh => by rw [hw.length_eq (hfiles h hh)]
  rwa [htotal, hsize] at hsum

end TieredVolume
