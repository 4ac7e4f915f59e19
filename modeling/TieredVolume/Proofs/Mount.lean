import TieredVolume.Proofs.Namespace.Walk

/-!
Formatting. A device with a free sector behind the map gets an empty root directory, and nothing
else is in use but the map.
-/
namespace TieredVolume

variable {device : Device} {options : MountOptions} {n total : Nat} {faults : Fault → Prop}

/-- The shelf of a fresh volume. -/
def Shelf.blank : Shelf where
  live := {rootSector}
  spare := ∅
  file _ := ⟨rootSector, List.replicate (rootSlots * entrySize) 0⟩
  node _ := none

/-- The shelf before the root is made. Nothing is set aside but its header. -/
def Shelf.unmade : Shelf where
  live := ∅
  spare := {rootSector}
  file := blank.file
  node _ := none

theorem slots_blank (s : Sector) : slotsOf (Shelf.blank.file s).bytes =
    List.replicate rootSlots Entry.empty :=
  slotsOf_zeros rootSlots

theorem tree_blank {p : List String} {found : Sector × Bool}
    (h : Shelf.blank.tree p = some found) : p = [] ∧ found = (rootSector, true) :=
  eq_root_of_treeOf (fun name => by rw [slots_blank, (orderly_empty rootSlots).2 name]) h

theorem settled_blank : Settled .blank where
  rooted := by
    refine ⟨fun p q s b b' hp hq => ?_, fun p s b d b' hp hd => ?_, fun p d hp => ?_,
      fun p d hp => ?_⟩
    · rw [(tree_blank hp).1, (tree_blank hq).1]
    · exact (congrArg Prod.fst (tree_blank hd).2).symm
    · change entrySize ∣ (List.replicate _ _).length
      rw [List.length_replicate]
      exact Nat.dvd_mul_left ..
    · rw [slots_blank]
      exact (orderly_empty rootSlots).1
  spare := rfl
  counted := nofun
  opened := nofun
  linked := fun p s b hp => congrArg Prod.fst (tree_blank hp).2
  standing := nofun
  writable := nofun
  held := fun s hs => .inl ⟨[], true, congrArg (fun s => some (s, true)) hs.symm⟩

namespace Volume

open Attempt

/-- The volume whose free map was just made, before anything is written. -/
def unwritten (c : Cache n) (total : Nat) : Volume n where
  cache := c
  map := FreeMap.ofReserved total (FreeMap.reserved total)

theorem sound_unwritten {c : Cache n} (hc : Cache.Usable total c) (hlimit : total < sectorLimit)
    (hroom : FreeMap.reserved total < total) : (unwritten c total).Sound where
  cache := hc
  limit := hlimit
  room := Nat.le_of_lt hroom
  mapUsed := fun i _ hi => by
    have hi' : i < FreeMap.reserved total := hi
    rw [unwritten, FreeMap.isUsed_ofReserved (Nat.lt_of_lt_of_le (by omega) (le_mapBits total)),
      decide_eq_true hi']
  flat := nofun

/-- The map of a fresh volume is written to its own sectors. -/
theorem format_yields {c : Cache n} (hc : Cache.Usable total c) (hclean : ∀ t, ¬ c.Dirty t)
    (hlimit : total < sectorLimit) (hroom : FreeMap.reserved total < total) :
    Yields never (FreeMap.format total) c fun m c' =>
      Shows { cache := c', map := m } (unwritten c' total).view := by
  refine (FreeMap.format_yields hc (Nat.le_refl _) (FreeMap.reserved_le_limit hlimit) hroom).mono ?_
  rintro - c' ⟨rfl, husable, hwritten, -, hdirty⟩
  have hsound := sound_unwritten husable hlimit hroom
  refine hsound.shows hwritten (FreeMap.tidy_ofReserved (Nat.le_of_lt hroom)) fun t ht => ?_
  have hmap : IsMap total t := (hdirty t ht).resolve_left (hclean t)
  have hlt : t.block < total := Nat.lt_of_lt_of_le hmap.2 (Nat.le_of_lt hroom)
  have hbit := hsound.mapUsed t.block hmap.1 hmap.2
  exact (Bool.and_eq_true _ _).mpr ⟨decide_eq_true hlt, hbit⟩

theorem assemble_format (hn : 0 < n) (hd : device.Sound)
    (hlimit : device.blockCount < sectorLimit)
    (hroom : FreeMap.reserved device.blockCount < device.blockCount) :
    ∃ (v : Volume n) (c : Cache n), assemble n device (FreeMap.format device.blockCount) = .ok v ∧
      Shows v (unwritten c device.blockCount).view := by
  obtain ⟨c, hc⟩ : ∃ c : Cache n, Cache.fresh n device = .ok c := ⟨_, dif_pos hn⟩
  obtain ⟨m, c', hrun, hv⟩ :=
    (format_yields (Cache.usable_fresh hd hc).1 (Cache.not_dirty_fresh hc) hlimit hroom).ok_of_never
  refine ⟨{ cache := c', map := m }, c', ?_, hv⟩
  rw [assemble, hc]
  simp only [hrun, bind, Except.bind, pure, Except.pure]

/-- Before the root is made, its header is the only sector in use that is not the map's. -/
theorem keeps_unwritten (c : Cache n) (hroom : FreeMap.reserved total < total) :
    Keeps total (unwritten c total).view .unmade := by
  have hused : ∀ s, (unwritten c total).view.used s = decide (s.block < FreeMap.reserved total) :=
    fun s => by
      by_cases hs : s.block < total
      · simp only [view, unwritten, FreeMap.isUsed_ofReserved (Nat.lt_of_lt_of_le hs (le_mapBits total))]
        exact Bool.and_eq_right_iff_imp.mpr fun _ => decide_eq_true hs
      · have hs' : ¬ s.block < FreeMap.reserved total := by omega
        have htotal : (unwritten c total).map.total = total := rfl
        simp only [view, htotal, decide_eq_false hs, decide_eq_false hs', Bool.false_and]
  have hstored : ∀ s, (unwritten c total).view.Stored s ↔ s = rootSector := fun s => by
    have hblock : s.block = 0 ↔ s = rootSector :=
      ⟨fun h => Sector.block_injective h, fun h => h ▸ rfl⟩
    rw [← hblock, View.Stored, hused, decide_eq_true_iff, IsMap]
    change s.block < FreeMap.reserved total ∧
      ¬ (freeMapStart ≤ s.block ∧ s.block < FreeMap.reserved total) ↔ s.block = 0
    simp only [FreeMap.reserved, freeMapStart]
    omega
  have hempty : ∀ {P : Sector → Prop}, ∀ s ∈ (∅ : Set Sector), P s := fun s hs => hs.elim
  exact ⟨⟨rfl, ⟨hempty, hempty, hempty, hempty, fun s hs => (hstored s).mpr hs,
    fun s hs => .inl ((hstored s).mp hs)⟩, hempty, hempty, rfl,
    fun _ _ hn => absurd hn.symm (Option.some_ne_none _)⟩, fun _ => rfl⟩

/-- With a sector left for its entries, the root is made. -/
theorem makeRoot_does {w : View} (hw : Keeps total w .unmade)
    (hfree : ¬ w.Full) :
    Tries Shows faults (makeRoot (n := n)) w (fun _ w' => Keeps total w' .blank) (fun _ _ => False) := by
  have hlength : checkOffset (rootSlots * entrySize) = .ok (rootSlots * entrySize) := rfl
  refine Tries.bind (Tries.bind (Tries.always (Does.ofExcept hlength ?_)))
  refine Inode.start_tries hw rfl (fun w₁ hroot => ?_) hfree
  have hshort : ¬ sectorSize < rootSlots * entrySize := by decide
  rw [if_neg hshort]
  refine Tries.pure (Tries.always (flushAll_does.mono ?_))
  rintro - w' rfl
  refine hroot.like ⟨LawfulSingleton.insert_empty_eq _, Set.sdiff_self, rfl, fun h hh => ?_⟩
  obtain rfl : h = rootSector := hh.resolve_right id
  simp only [Shelf.plant, Function.update_self, Nat.min_eq_left (Nat.not_lt.mp hshort), Shelf.blank]

/-- There is a sector left for them if the device is large enough. -/
theorem not_full_unwritten (c : Cache n) (hlimit : total < sectorLimit)
    (hroom : FreeMap.reserved total < total) : ¬ (unwritten c total).view.Full := fun hall => by
  have hblock : (Sector.ofNat (FreeMap.reserved total)).block = FreeMap.reserved total :=
    Sector.block_ofNat (by omega)
  have hused := hall (Sector.ofNat (FreeMap.reserved total)) (by rw [hblock]; exact hroom)
  simp only [view, hblock, unwritten, FreeMap.isUsed_ofReserved
    (Nat.lt_of_lt_of_le hroom (le_mapBits _)), Nat.lt_irrefl, decide_false,
    Bool.and_false, Bool.false_eq_true] at hused

/-- Reading ahead may be turned on at any time. -/
theorem Shows.activate {v : Volume n} {w : View} (h : Shows v w) :
    Shows { v with cache.readAhead.active := true } w :=
  h.withCache (h.usable.withQueue (q := { v.cache.readAhead with active := true })
    h.usable.queue) (fun _ hs => h.current hs) (fun _ _ => rfl) h.dirty

/-! ### Caches of any size -/

/-- A fresh volume on a device, with a cache of any size. -/
def formatWith (n : Nat) (device : Device) : Except Fault (Except Refusal (Volume n)) := do
  match makeRoot.run (← assemble n device (FreeMap.format device.blockCount)) with
  | .ok (.ok ()) v => return .ok v
  | .ok (.error r) _ => return .error r
  | .error e _ => .error e

/-- The volume with its background tasks on or off. -/
def withBackground (background : Bool) (v : Volume n) : Volume n :=
  if background then { v with cache.readAhead.active := true } else v

/-- A fresh volume on a device, brought into use. -/
def fresh (n : Nat) (device : Device) (background : Bool) : Except Fault (Except Refusal (Volume n)) := do
  return (← formatWith n device).map (withBackground background)

theorem format_eq_formatWith : format device = formatWith cacheCapacity device := by
  unfold format formatWith
  cases assemble cacheCapacity device (FreeMap.format device.blockCount) with
  | error e => rfl
  | ok v =>
    simp only [bind, Except.bind]
    cases makeRoot.run v with
    | error e v' => rfl
    | ok answer v' => cases answer <;> rfl

theorem mount_eq_fresh (hformat : options.format = true) :
    mount device options = fresh cacheCapacity device options.background := by
  simp only [mount, hformat, if_true, format_eq_formatWith, fresh]
  rfl

theorem Shows.withBackground {v : Volume n} {w : View} (h : Shows v w) (background : Bool) :
    Shows (Volume.withBackground background v) w := by
  cases background with
  | false => exact h
  | true => exact h.activate

theorem formatWith_eq_ok (hn : 0 < n) (hd : device.Sound) (hlimit : device.blockCount < sectorLimit)
    (hroom : FreeMap.reserved device.blockCount < device.blockCount) :
    ∃ v, formatWith n device = .ok (.ok v) ∧ Stores device.blockCount v .blank := by
  obtain ⟨v, c, hassemble, hv⟩ := assemble_format hn hd hlimit hroom
  have hroot : Tries (Shows (n := n)) never _ _ _ _ :=
    makeRoot_does (keeps_unwritten c hroom) (not_full_unwritten c hlimit hroom)
  obtain ⟨answer, v', hrun, w, hv', hpost⟩ := (hroot v hv).ok_of_never
  rcases answer with why | ⟨⟩
  · exact hpost.elim
  · refine ⟨v', ?_, w, hv', hpost⟩
    simp only [formatWith, hassemble, bind, Except.bind, hrun, pure, Except.pure]

/-- A device that is too small has no room for an entry of the root. -/
theorem formatWith_eq_error (hn : 0 < n)
    (hroom : ¬ FreeMap.reserved device.blockCount < device.blockCount) :
    formatWith n device = .error (.deviceTooSmall device.blockCount) := by
  have hfresh : ∃ c, Cache.fresh n device = .ok c := ⟨_, dif_pos hn⟩
  obtain ⟨c, hc⟩ := hfresh
  have hrun : FreeMap.format device.blockCount c =
      .error (.deviceTooSmall device.blockCount) c := by
    simp only [FreeMap.format, if_neg hroom]
    rfl
  simp only [formatWith, assemble, hc, bind, Except.bind, hrun]

/-- Mounting with the wish to format leaves an empty volume, whatever was on the device. -/
theorem mount_eq_ok (hd : device.Sound) (hlimit : device.blockCount < sectorLimit)
    (hroom : FreeMap.reserved device.blockCount < device.blockCount)
    (hformat : options.format = true) :
    ∃ v, mount device options = .ok (.ok v) ∧ Stores device.blockCount v .blank := by
  obtain ⟨v, hrun, w, hv, hw⟩ := formatWith_eq_ok (n := cacheCapacity) (by decide) hd hlimit hroom
  refine ⟨_, ?_, w, hv.withBackground options.background, hw⟩
  rw [mount_eq_fresh hformat, fresh, hrun]
  rfl

/-- A volume that was made had room for an entry of the root. -/
theorem room_of_mount {v : Volume cacheCapacity} (hformat : options.format = true)
    (hrun : mount device options = .ok (.ok v)) :
    FreeMap.reserved device.blockCount < device.blockCount := by
  by_contra hroom
  have hsmall : formatWith cacheCapacity device = _ := formatWith_eq_error (by decide) hroom
  rw [mount_eq_fresh hformat, fresh, hsmall] at hrun
  cases hrun

theorem stores_of_mount {v : Volume cacheCapacity} (hd : device.Sound)
    (hlimit : device.blockCount < sectorLimit) (hformat : options.format = true)
    (hrun : mount device options = .ok (.ok v)) : Stores device.blockCount v .blank := by
  obtain ⟨v', hrun', hv'⟩ := mount_eq_ok hd hlimit (room_of_mount hformat hrun) hformat
  rw [hrun] at hrun'
  exact Except.ok.inj (Except.ok.inj hrun') ▸ hv'

end Volume
end TieredVolume
