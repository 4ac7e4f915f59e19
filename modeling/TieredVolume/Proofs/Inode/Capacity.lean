import Mathlib.Algebra.Order.BigOperators.Group.List
import Mathlib.Algebra.Order.Ring.Nat
import Mathlib.Data.List.Nodup
import TieredVolume.Proofs.Inode.Lifetime

/-!
How much room inodes take. An inode has no more sectors than there are places in its tree, so a
volume with more sectors than its inodes and the free map could take together has a free one.
-/
namespace TieredVolume

/-- How many sectors there are, at most, from one sector down through levels of index blocks. -/
def reach : (depth : Nat) → Nat
  | 0 => 1
  | depth + 1 => Record.linkCount .indexBlock * reach depth + 1

/-- How many sectors an inode has at most, with its header. -/
abbrev inodeSectors : Nat := 16720

variable {w : View} {live spare : Set Sector} {h b : Sector} {inodes aside : List Sector}
  {total : Nat}

theorem length_hungFrom_le {f : Nat → Sector → List Sector} {limit : Nat → Nat}
    (hf : ∀ i s, (f i s).length ≤ limit i) (start : Nat) (raws : List UInt32) :
    (hungFrom f start raws).length ≤ ((List.range' start raws.length).map limit).sum := by
  induction raws generalizing start with
  | nil => exact Nat.zero_le _
  | cons raw rest ih =>
    rw [hungFrom, List.length_append, List.length_cons, List.range'_succ, List.map_cons,
      List.sum_cons]
    refine Nat.add_le_add ?_ (ih (start + 1))
    cases Sector.decode raw with
    | none => exact Nat.zero_le _
    | some s => exact hf start s

theorem length_below_le (block : Sector → Block) (depth : Nat) (b : Sector) :
    (below block depth b).length ≤ reach depth := by
  induction depth generalizing b with
  | zero => exact Nat.le_refl 1
  | succ depth ih =>
    have hlinks : (blockLinksOf block b).length ≤ Record.linkCount .indexBlock := by
      rw [blockLinksOf, List.length_take]
      exact Nat.min_le_left ..
    have hchildren := length_hungFrom_le (fun _ => ih) 0 (blockLinksOf block b)
    rw [List.map_const', List.sum_replicate, List.length_range', nsmul_eq_mul, Nat.cast_id] at hchildren
    rw [below, List.length_append, List.length_singleton, reach]
    exact Nat.add_le_add_right (hchildren.trans (Nat.mul_le_mul_right _ hlinks)) 1

theorem View.length_tree_le (w : View) (h : Sector) : (w.tree h).length ≤ inodeSectors := by
  have hcontents := length_hungFrom_le
    (fun slot => length_below_le w.block (IndexPath.depthOf slot)) 0 (w.header h).index.toList
  rw [Vector.length_toList] at hcontents
  rw [View.tree, List.length_cons]
  exact Nat.add_le_add_right (hcontents.trans (by decide)) 1

/-- The sectors behind the map. -/
def behindMap (total : Nat) : List Sector :=
  (List.range' (FreeMap.reserved total) (total - FreeMap.reserved total)).map Sector.ofNat

theorem nodup_behindMap (hlimit : total < sectorLimit) : (behindMap total).Nodup := by
  refine List.Nodup.map_on (fun i hi j hj heq => ?_) List.nodup_range'
  rw [List.mem_range'_1] at hi hj
  rw [← Sector.block_ofNat (n := i) (by omega), ← Sector.block_ofNat (n := j) (by omega), heq]

/-- A volume that is too large for its inodes is not full. -/
theorem Forest.not_full (hf : Forest w live spare) (hlimit : w.total < sectorLimit)
    (hlive : ∀ s ∈ live, s ∈ inodes) (hspare : ∀ s ∈ spare, s ∈ aside)
    (hroom : FreeMap.reserved w.total + aside.length + inodes.length * inodeSectors < w.total) :
    ¬ w.Full := by
  intro hfull
  have hsub : behindMap w.total ⊆ aside ++ inodes.flatMap w.tree := by
    intro t ht
    obtain ⟨i, hi, rfl⟩ := List.mem_map.mp ht
    rw [List.mem_range'_1] at hi
    have hblock := Sector.block_ofNat (n := i) (by omega)
    have hstored : w.Stored (Sector.ofNat i) :=
      ⟨hfull _ (by omega), fun hmap => by
        have hhigh := hmap.2
        omega⟩
    rw [List.mem_append, List.mem_flatMap]
    rcases hf.owned _ hstored with hs | ⟨h, hh, q, hq⟩
    · exact .inl (hspare _ hs)
    · refine .inr ⟨h, hlive h hh, ?_⟩
      cases q with
      | none => exact Option.some.inj hq ▸ List.mem_cons_self
      | some p => exact List.mem_cons_of_mem _ (View.mem_contents.mpr ⟨p, hq⟩)
  have hcount := (nodup_behindMap hlimit).length_le_of_subset hsub
  have htrees : (inodes.flatMap w.tree).length ≤ inodes.length * inodeSectors := by
    rw [List.length_flatMap, ← List.length_map (f := fun h => (w.tree h).length)]
    refine List.sum_le_card_nsmul _ inodeSectors fun k hk => ?_
    obtain ⟨h, -, rfl⟩ := List.mem_map.mp hk
    exact w.length_tree_le h
  rw [behindMap, List.length_map, List.length_range', List.length_append] at hcount
  omega

theorem not_crowded (hlimit : total < sectorLimit) (hlive : ∀ s ∈ live, s ∈ inodes)
    (hspare : ∀ s ∈ spare, s ∈ aside)
    (hroom : FreeMap.reserved total + aside.length + inodes.length * inodeSectors < total) :
    ¬ Crowded total live spare := by
  rintro ⟨w, rfl, hf, hfull⟩
  exact hf.not_full hlimit hlive hspare hroom hfull

end TieredVolume
