import TieredVolume.Inode.Content
import TieredVolume.Proofs.Inode.WellFormed
import TieredVolume.Proofs.Spending

/-!
The index of a file as a finite map from logical sectors to sectors of the device. A look-up tells
what is bound and changes nothing; a binding gives one logical sector a sector, leaves all others as
they are, and takes from the free sectors just what is missing on the one way.
-/
namespace TieredVolume

open View

variable {w w' : View} {live spare : Set Sector} {places : Finset Place} {h s t : Sector} {nd : Node}
  {l k offset : Nat} {p : Place} {slot : Fin 79} {up : List (Fin 64)} {faults : Fault → Prop} {n : Nat}

/-! ### One way -/

/-- The only leaf on a way is its end. -/
theorem eq_place_of_mem_wayTo {path : IndexPath} (hpath : IndexPath.locate? l = some path)
    (hp : p ∈ wayTo l) (hleaf : p.Leaf) : p = path.place := by
  rw [wayTo, hpath] at hp
  obtain ⟨hslot, hup⟩ := (mem_waysFrom path.place.fits).mp hp
  refine Place.ext' hslot (hup.eq_of_length ?_)
  have hend := path.leaf_place
  rw [Place.Leaf, hslot] at hleaf
  rw [Place.Leaf] at hend
  rw [hleaf, hend]

theorem place_mem_wayTo {path : IndexPath} (hpath : IndexPath.locate? l = some path) :
    path.place ∈ wayTo l :=
  mem_wayTo hpath rfl (List.suffix_refl _)

/-- So no other logical sector is at an end of the way. -/
theorem place_notMem_wayTo {path : IndexPath} (hpath : IndexPath.locate? k = some path)
    (hne : k ≠ l) : path.place ∉ wayTo l := fun hin => by
  cases hl : IndexPath.locate? l with
  | none =>
    rw [wayTo, hl] at hin
    exact absurd hin (Finset.notMem_empty _)
  | some path' =>
    have hsame := IndexPath.place_injective (eq_place_of_mem_wayTo hl hin path.leaf_place)
    refine hne ?_
    rw [← IndexPath.locate?_eq_some_iff.mp hpath, ← IndexPath.locate?_eq_some_iff.mp hl, hsame]

theorem card_waysFrom_le (hfits : up.length ≤ IndexPath.depthOf slot) :
    (waysFrom slot up hfits).card ≤ up.length + 1 := by
  induction up with
  | nil => rw [waysFrom, Finset.card_singleton, List.length_nil]
  | cons c up ih => exact (Finset.card_insert_le ..).trans (Nat.succ_le_succ (ih _))

/-- How many sectors a logical sector has on its way, itself included. -/
def tier (l : Nat) : Nat := if l < directLinks then 1 else if l < indirectReach then 2 else 3

theorem card_wayTo_le (l : Nat) : (wayTo l).card ≤ tier l := by
  cases hpath : IndexPath.locate? l with
  | none =>
    rw [wayTo, hpath]
    exact Nat.zero_le _
  | some path =>
    have hlogical := IndexPath.locate?_eq_some_iff.mp hpath
    have hcard : (wayTo l).card ≤ path.steps.length + 1 := by
      rw [wayTo, hpath]
      refine (card_waysFrom_le path.place.fits).trans_eq ?_
      rw [IndexPath.place, List.length_reverse]
    refine hcard.trans ?_
    rw [← hlogical, tier]
    rcases path with ⟨d, hd⟩ | ⟨⟨d, hd⟩, c, hc⟩ | ⟨⟨d, hd⟩, ⟨m, hm⟩, c, hc⟩ <;>
      simp only [IndexPath.logical, IndexPath.steps, List.length_nil, List.length_cons] <;> grind

/-! ### What a binding does to the map -/

/-- Logical sectors that are bound are bound to different sectors. -/
theorem View.WellFormed.data_injective (hw : w.WellFormed h) (hl : w.data h l = some s)
    (hk : w.data h k = some s) : l = k := by
  obtain ⟨path, hpath, hlink⟩ := exists_place_of_data hl
  obtain ⟨path', hpath', hlink'⟩ := exists_place_of_data hk
  have hsame := IndexPath.place_injective
    (Option.some.inj (hw.unique (some path.place) (some path'.place) s hlink hlink'))
  rw [← IndexPath.locate?_eq_some_iff.mp hpath, ← IndexPath.locate?_eq_some_iff.mp hpath', hsame]

theorem mem_missing_of_data {path : IndexPath} (hpath : IndexPath.locate? l = some path)
    (hnone : w.data h l = none) : path.place ∈ w.missing h (wayTo l) := by
  refine Finset.mem_filter.mpr ⟨place_mem_wayTo hpath, ?_⟩
  rwa [View.data, hpath, Option.bind_some] at hnone

namespace Extends

theorem data_of_notMem (he : Extends places h w w')
    (hout : ∀ path, IndexPath.locate? k = some path → path.place ∉ places) :
    w'.data h k = w.data h k := by
  unfold View.data
  cases hpath : IndexPath.locate? k with
  | none => rfl
  | some path => exact he.paid.frame path.place (hout path hpath)

theorem vacant_subset (he : Extends places h w w') : w'.vacant ⊆ w.vacant := fun t ht => by
  refine ⟨he.grown.total ▸ ht.1, ?_⟩
  by_contra hused
  have hused' := he.grown.used t (by simpa using hused)
  rw [ht.2] at hused'
  cases hused'

/-- What was taken is what is in use now and was not before. -/
theorem mem_taken (he : Extends places h w w') (hlt : ∀ t, w'.used t = true → t.block < w'.total) :
    s ∈ w.vacant \ w'.vacant ↔ w'.used s = true ∧ w.used s = false := by
  have htotal := he.grown.total
  constructor
  · rintro ⟨hvacant, hnot⟩
    refine ⟨?_, hvacant.2⟩
    by_contra hfree
    exact hnot ⟨htotal ▸ hvacant.1, by simpa using hfree⟩
  · rintro ⟨hused, hfree⟩
    refine ⟨⟨htotal ▸ hlt s hused, hfree⟩, fun hvacant => ?_⟩
    have hfree' := hvacant.2
    rw [hused] at hfree'
    cases hfree'

/-- What is at a place that was missing was free before. -/
theorem fresh_vacant (he : Extends places h w w') (hlt : ∀ t, w'.used t = true → t.block < w'.total)
    (hw : w.WellFormed h) (hnone : w.link h p = none) (hs : w'.link h p = some s) :
    s ∈ w.vacant \ w'.vacant := by
  have hstored := he.wellFormed.stored (some p) s hs
  refine (he.mem_taken hlt).mpr ⟨hstored.1, ?_⟩
  by_contra hused
  have hst : w.Stored s := ⟨by simpa using hused, he.grown.total ▸ hstored.2⟩
  rcases hw.forest.owned s hst with hbeside | ⟨h', hh, q, hq⟩
  · exact (he.forest.stored h rfl (some p) s hs).2 hbeside
  · -- the sector would be at two places afterwards
    rw [Set.mem_singleton_iff.mp hh] at hq
    have hq' : w'.sector h q = some s := by
      cases q with
      | none => exact hq
      | some q => exact he.grown.link q s hq
    have hplace := he.wellFormed.unique q (some p) s hq' hs
    rw [hplace] at hq
    exact absurd (hnone.symm.trans hq) nofun

/-- If nothing is missing afterwards, then what was taken are the sectors at the places that were
missing. -/
theorem taken_iff (he : Extends places h w w') (hlt : ∀ t, w'.used t = true → t.block < w'.total)
    (hw : w.WellFormed h) (hfull : w'.missing h places = ∅) :
    s ∈ w.vacant \ w'.vacant ↔ ∃ p ∈ w.missing h places, w'.link h p = some s := by
  have hlinked : ∀ p ∈ w.missing h places, ∃ t, w'.link h p = some t := fun p hp => by
    refine Option.ne_none_iff_exists'.mp fun hnone => ?_
    have hin : p ∈ w'.missing h places := Finset.mem_filter.mpr ⟨(Finset.mem_filter.mp hp).1, hnone⟩
    rw [hfull] at hin
    exact absurd hin (Finset.notMem_empty p)
  constructor
  · intro hs
    -- as many sectors were taken as places were missing, and no two places have the same
    have hcard : (Set.toFinite (w.vacant \ w'.vacant)).toFinset.card ≤ (w.missing h places).card := by
      have hcount := he.paid.count
      rw [hfull, Finset.card_empty, Nat.add_zero] at hcount
      have hsplit := Set.ncard_sdiff_add_ncard_of_subset he.vacant_subset
      rw [← Set.ncard_eq_toFinset_card]
      omega
    have hmaps : Set.MapsTo (fun p => (w'.link h p).getD h) (w.missing h places)
        (Set.toFinite (w.vacant \ w'.vacant)).toFinset := fun p hp => by
      obtain ⟨t, ht⟩ := hlinked p hp
      rw [Finset.mem_coe, Set.Finite.mem_toFinset]
      simp only [ht, Option.getD_some]
      exact he.fresh_vacant hlt hw (Finset.mem_filter.mp hp).2 ht
    have hinj : Set.InjOn (fun p => (w'.link h p).getD h) (w.missing h places) := by
      intro p hp q hq heq
      obtain ⟨t, ht⟩ := hlinked p hp
      obtain ⟨u, hu⟩ := hlinked q hq
      simp only [ht, hu, Option.getD_some] at heq
      subst heq
      exact Option.some.inj (he.wellFormed.unique (some p) (some q) t ht hu)
    obtain ⟨p, hp, heq⟩ := Finset.surjOn_of_injOn_of_card_le _ hmaps hinj hcard
      (Finset.mem_coe.mpr ((Set.Finite.mem_toFinset _).mpr hs))
    obtain ⟨t, ht⟩ := hlinked p hp
    simp only [ht, Option.getD_some] at heq
    exact ⟨p, hp, heq ▸ ht⟩
  · rintro ⟨p, hp, ht⟩
    exact he.fresh_vacant hlt hw (Finset.mem_filter.mp hp).2 ht

end Extends

/-- A binding that is refused leaves the logical sector without a sector, as it was. -/
theorem Exhausted.data {why : Refusal} (hx : Exhausted (wayTo l) h w why w') (k : Nat) :
    w'.data h k = w.data h k := by
  by_cases hkl : k = l
  · subst hkl
    obtain ⟨p, hp, hnone⟩ := hx.short
    have hnone' : w'.data h k = none := by
      by_contra hsome
      exact link_of_data hsome hp hnone
    rw [hnone']
    by_contra hsome
    exact hx.grown.data_ne_none (Ne.symm hsome) hnone'
  · exact hx.data_of_notMem fun path hpath => place_notMem_wayTo hpath hkl

/-- What a volume stores is well formed, and at rest if it is open. -/
theorem Stores.atRest {total : Nat} {S : Shelf} {v : Volume n} (hv : Stores total v S)
    (hs : s ∈ S.live) (hn : S.node s = some nd) : v.Shows v.view ∧ v.view.AtRest s nd := by
  obtain ⟨w, hvw, hw⟩ := hv
  exact ⟨hvw.itself, hvw.atRest ⟨hw.forest.wellFormed hs, by rw [hw.node, hn], hw.unloaded s⟩⟩

namespace Inode

open Volume Attempt

/-! ### The operations -/

/-- Where all is bound, there is nothing to do. -/
theorem bindBelow_bound {steps : List (Fin 64)}
    (hf : Forest w live spare) (hh : h ∈ live) (hs : w.trail h slot up = some s)
    (hlen : steps.length + up.length ≤ IndexPath.depthOf slot)
    (ht : w.trail h slot (steps.reverse ++ up) = some t) :
    Tries Shows faults (bindBelow (n := n) steps s) w (fun t' w' => t' = t ∧ w' = w)
      fun _ _ => False := by
  induction steps generalizing up s with
  | nil =>
    rw [List.reverse_nil, List.nil_append, hs, Option.some.injEq] at ht
    exact Tries.pure ⟨ht, rfl⟩
  | cons c steps ih =>
    rw [List.length_cons] at hlen
    rw [List.reverse_cons, List.append_assoc, List.singleton_append] at ht
    let q : Place := ⟨slot, up, by omega⟩
    have hindex := hf.index h hh q s (by simp only [Place.Leaf, q]; omega) hs
    have hchild : w.child s c = Sector.decode (Record.ofBlock (w.block s)).index[c.val] := rfl
    rw [bindBelow]
    refine Tries.bind (Tries.always ((fetch_does (hf.link_stored (p := q) hh hs)
      hindex.isValid).mono ?_))
    rintro node w' ⟨rfl, rfl⟩
    refine Tries.bind (Tries.always (Does.ofExcept
      (hindex.link (show c.val < Record.linkCount .indexBlock from c.isLt) (by omega)) ?_))
    rw [← hchild]
    cases hnext : w'.child s c with
    | none =>
      have hnone : w'.trail h slot (c :: up) = none := by
        rw [View.trail, hs, Option.bind_some, hnext]
      rw [View.trail_append_none hnone] at ht
      cases ht
    | some next =>
      exact ih (by rw [View.trail, hs, Option.bind_some, hnext])
        (by rw [List.length_cons]; omega) ht

theorem bind_bound (hw : w.AtHand h nd) (ht : w.data h l = some t) :
    Tries Shows faults (bind (n := n) h l) w (fun t' w' => t' = t ∧ w' = w) fun _ _ => False := by
  obtain ⟨path, hpath, hlink⟩ := exists_place_of_data ht
  obtain ⟨r, hr⟩ := hw.loaded
  have htop : w.trail h path.place.slot [] =
      Sector.decode (w.header h).index[path.place.slot.val] := rfl
  rw [data_eq hpath] at ht
  refine Tries.bind (Tries.always (Does.ofExcept (locate_eq_ok hpath) ?_))
  refine Tries.bind (Tries.always (Does.andThen (record_does hw.node hr) ?_))
  rintro r' w' ⟨rfl, rfl⟩
  refine Does.ofExcept (link_header hw.forest rfl hr path) ?_
  rw [← htop]
  cases hnext : w'.trail h path.place.slot [] with
  | none =>
    rw [View.trail_append_none hnext] at ht
    cases ht
  | some next =>
    refine bindBelow_bound hw.forest rfl hnext ?_ ht
    rw [List.length_nil, Nat.add_zero]
    exact (IndexPath.depthOf_slot path).ge

/-- A look-up finds what is bound, and changes nothing. -/
theorem sectorAt_atRest (hw : w.AtRest h nd)
    (hl : offset / sectorSize < maxSectors ∨ faults (.pastIndex maxSectors)) :
    Does Shows faults (sectorAt (n := n) h offset) w fun s? w' =>
      s? = w.data h (offset / sectorSize) ∧ w' = w := by
  refine withLoaded_atRest hw ?_
  obtain ⟨r, hr⟩ := hw.load.loaded
  refine (find?_does hw.load.forest rfl hw.node hr hl).mono ?_
  rintro s? w' ⟨rfl, rfl⟩
  exact ⟨hw.load, (kept_load hw.unloaded).data _, unload_load hw.unloaded⟩

theorem allocateAt_bound (hw : w.AtRest h nd) (ht : w.data h (offset / sectorSize) = some t) :
    Tries Shows faults (allocateAt (n := n) h offset) w (fun t' w' => t' = t ∧ w' = w)
      fun _ _ => False := by
  refine loaded_atRest hw ((bind_bound hw.load ((kept_load hw.unloaded).data _ ▸ ht)).mono ?_ ?_)
  · rintro t' w' ⟨rfl, rfl⟩
    exact ⟨hw.load, rfl, unload_load hw.unloaded⟩
  · exact fun _ _ hnever => hnever.elim

/-- Binding gives a logical sector a sector, at the cost of what is missing on its way. -/
theorem allocateAt_atRest (hw : w.AtRest h nd)
    (hl : offset / sectorSize < maxSectors ∨ faults (.pastIndex maxSectors)) :
    Tries Shows faults (allocateAt (n := n) h offset) w
      (fun s w' => Extends (wayTo (offset / sectorSize)) h w w' ∧
        w'.data h (offset / sectorSize) = some s)
      (Exhausted (wayTo (offset / sectorSize)) h w) := by
  obtain ⟨r, hr⟩ := hw.load.loaded
  refine loaded_atRest hw ((bind_tries hw.load.forest rfl hw.node hr hl subset_rfl).mono ?_ ?_)
  · rintro s w' ⟨hforest, hg, hs, hpaid⟩
    have he : Extends _ h (w.load h) w' := ⟨hforest, hg, hpaid⟩
    refine ⟨he.atHand hw.load, he.unload hw.unloaded, ?_⟩
    rw [(kept_unload he.wellFormed.link_ne).data, hs]
  · intro why w' hr
    exact ⟨hr.exhausted.atHand hw.load, hr.exhausted.unload hw.unloaded⟩

/-! ### What the volume shows -/

/-- The logical sector `l` of the inode `h` was bound to `s`, and no other was. -/
structure Binds (h : Sector) (l : Nat) (s : Sector) (v v' : Volume n) : Prop where
  self : v'.view.data h l = some s
  others : ∀ k, k ≠ l → v'.view.data h k = v.view.data h k
  /-- If it was bound before, then to the same sector, and nothing was taken. -/
  old : ∀ t, v.view.data h l = some t → s = t ∧ v'.Shows v.view ∧ v'.map = v.map
  /-- Otherwise what was missing on the way was taken, and the sector at its end is all zeros. -/
  new : v.view.data h l = none →
    v'.map.freeCount + (v.view.missing h (wayTo l)).card = v.map.freeCount ∧
    1 ≤ (v.view.missing h (wayTo l)).card ∧ (v.view.missing h (wayTo l)).card ≤ tier l ∧
    (∀ t, v'.view.used t = true ∧ v.view.used t = false ↔
      ∃ p ∈ v.view.missing h (wayTo l), v'.view.link h p = some t) ∧
    v'.view.block s = Block.zero

theorem Binds.of_extends {v v' : Volume n} (hv : v.Shows v.view) (hw : v.view.WellFormed h)
    (hv' : v'.Shows w') (he : Extends (wayTo l) h v.view w') (hs : w'.data h l = some s)
    (hold : ∀ t, v.view.data h l = some t → s = t ∧ v'.Shows v.view) : Binds h l s v v' := by
  have hk := hv'.kept_of_wellFormed he.wellFormed
  obtain ⟨path, hpath, hlink⟩ := exists_place_of_data hs
  refine ⟨(hk.data l).trans hs, fun k hne => ?_, fun t ht => ?_, fun hnone => ?_⟩
  · rw [hk.data, he.data_of_notMem fun path' hpath' => place_notMem_wayTo hpath' hne]
  · obtain ⟨hst, hsame⟩ := hold t ht
    exact ⟨hst, hsame, hv.map_eq hsame⟩
  have hmissing : w'.missing h (wayTo l) = ∅ := Finset.filter_eq_empty_iff.mpr fun p hp =>
    link_of_data (by rw [hs]; nofun) hp
  have hin := mem_missing_of_data hpath hnone
  refine ⟨?_, Finset.card_pos.mpr ⟨_, hin⟩, (Finset.card_filter_le ..).trans (card_wayTo_le l),
    fun t => ?_, ?_⟩
  · have hcount := he.paid.count
    rwa [hmissing, Finset.card_empty, Nat.add_zero, ← hv'.freeCount, ← hv.freeCount] at hcount
  · have htaken := he.taken_iff (s := t) (fun t ht => hv'.lt ht) hw hmissing
    simp only [hk.link]
    rw [hv'.used]
    exact (he.mem_taken fun t ht => hv'.lt ht).symm.trans htaken
  · rw [hk.block path.place s hlink]
    exact he.grown.fresh path.place s path.leaf_place (Finset.mem_filter.mp hin).2 hlink

/-- On a new volume of eight sectors the root can be opened, and five sectors are free. -/
theorem exists_atRest_root : ∃ v : Volume cacheCapacity,
    v.Shows v.view ∧ v.view.AtRest rootSector { openers := 1 } ∧ 5 ≤ v.map.freeCount := by
  have hsound : (Device.memory (MemoryDisk.blank 8)).Sound := trivial
  obtain ⟨v, hmount, hv⟩ : ∃ v, mount (.memory (MemoryDisk.blank 8)) { format := true } =
      .ok (.ok v) ∧ Stores 8 v .blank := mount_eq_ok hsound (by decide) (by decide) rfl
  have hfree : 8 ≤ v.map.freeCount + FreeMap.reserved 8 + 1 :=
    mount_room hsound (by decide) (by decide) rfl hmount
  have hopen : Yields never («open» (n := cacheCapacity) rootSector) v _ :=
    (open_stores (S := .blank) rfl v hv).and (open_frugal rootSector v)
  obtain ⟨_, v', -, ⟨S', hv', rfl⟩, hease⟩ := hopen.ok_of_never
  have hnode : (Shelf.blank.opened rootSector).node rootSector = some { openers := 1 } := by
    rw [Shelf.node_opened]
    rfl
  obtain ⟨hshows, hrest⟩ := Stores.atRest hv' rfl hnode
  have hreserved : FreeMap.reserved 8 = 2 := by decide
  have hkeeps := hease.freeCount_le
  exact ⟨v', hshows, hrest, by omega⟩

/-- A file whose tree is well formed is a finite map from logical sectors to sectors: no two of them
have the same sector, a look-up answers what is bound and changes nothing, and a binding sets one
logical sector, taking what is missing on its way. It is refused only if less than that is free. -/
theorem index_finiteMap {v : Volume n} (hv : v.Shows v.view) (hw : v.view.AtRest h nd)
    (hl : offset / sectorSize < maxSectors) :
    (∀ k m t, v.view.data h k = some t → v.view.data h m = some t → k = m) ∧
    (∃ v', sectorAt h offset v = .ok (v.view.data h (offset / sectorSize)) v' ∧
      v'.Shows v.view ∧ ∀ k, v'.view.data h k = v.view.data h k) ∧
    ∃ answer v', (allocateAt h offset).run v = .ok answer v' ∧
      v'.Shows v'.view ∧ v'.view.AtRest h nd ∧
      match answer with
      | .ok s => Binds h (offset / sectorSize) s v v' ∧
          ∃ v'', (allocateAt h offset).run v' = .ok (.ok s) v'' ∧ v''.Shows v'.view ∧
            v''.map = v'.map
      | .error why => why = .noSpace ∧ (∀ k, v'.view.data h k = v.view.data h k) ∧
          v.map.freeCount < (v.view.missing h (wayTo (offset / sectorSize))).card := by
  refine ⟨fun k m t hk hm => hw.toWellFormed.data_injective hk hm, ?_, ?_⟩
  · have hrun : Yields never (sectorAt (n := n) h offset) v _ := sectorAt_atRest hw (.inl hl) v hv
    obtain ⟨_, v', hok, w', hv', rfl, rfl⟩ := hrun.ok_of_never
    exact ⟨v', hok, hv', (hv'.kept_of_wellFormed hw.toWellFormed).data⟩
  -- a second binding finds what the first one has bound
  have hagain : ∀ {v' : Volume n} {s}, v'.Shows v'.view → v'.view.AtRest h nd →
      v'.view.data h (offset / sectorSize) = some s →
      ∃ v'', (allocateAt h offset).run v' = .ok (.ok s) v'' ∧ v''.Shows v'.view := by
    intro v' s hv' hw' hs
    have hrun : Yields never (allocateAt (n := n) h offset).run v' _ := allocateAt_bound hw' hs v' hv'
    obtain ⟨why | s', v'', hok, w'', hv'', hpost⟩ := hrun.ok_of_never
    · exact hpost.elim
    · obtain ⟨rfl, rfl⟩ := hpost
      exact ⟨v'', hok, hv''⟩
  have hrun : Yields never (allocateAt (n := n) h offset).run v _ := allocateAt_atRest hw (.inl hl) v hv
  obtain ⟨why | s, v', hok, w', hv', hpost⟩ := hrun.ok_of_never
  · have hx : Exhausted _ h v.view why w' := hpost
    refine ⟨_, v', hok, hv'.itself, hv'.atRest (hx.atRest hw), hx.why, fun k => ?_, ?_⟩
    · rw [(hv'.kept_of_wellFormed hx.wellFormed).data, hx.data]
    · rw [hv.freeCount]
      exact hx.lt
  · obtain ⟨he, hs⟩ := hpost
    have hw' := hv'.atRest (he.atRest hw)
    have hs' := ((hv'.kept_of_wellFormed he.wellFormed).data _).trans hs
    obtain ⟨v'', hok'', hv''⟩ := hagain hv'.itself hw' hs'
    refine ⟨_, v', hok, hv'.itself, hw', Binds.of_extends hv hw.toWellFormed hv' he hs fun t ht => ?_,
      v'', hok'', hv'', hv'.itself.map_eq hv''⟩
    obtain ⟨v₁, hok₁, hv₁⟩ := hagain hv hw ht
    rw [hok₁] at hok
    cases hok
    exact ⟨rfl, hv₁⟩

/-- The root of a new volume has one sector; a second one is bound, and found again. -/
theorem index_finiteMap_root : ∃ (v v' v'' : Volume cacheCapacity) (s : Sector),
    v.Shows v.view ∧ v.view.AtRest rootSector { openers := 1 } ∧
    (allocateAt rootSector 512).run v = .ok (.ok s) v' ∧ Binds rootSector 1 s v v' ∧
    (allocateAt rootSector 512).run v' = .ok (.ok s) v'' ∧ v''.map = v'.map := by
  obtain ⟨v, hv, hw, hfree⟩ := exists_atRest_root
  obtain ⟨-, -, answer, v', hrun, -, -, hanswer⟩ :=
    index_finiteMap hv hw (show 512 / sectorSize < maxSectors by decide)
  cases answer with
  | error why =>
    have hshort := hanswer.2.2
    have hone : (v.view.missing rootSector (wayTo (512 / sectorSize))).card ≤ 1 :=
      (Finset.card_filter_le ..).trans (card_wayTo_le 1)
    omega
  | ok s =>
    obtain ⟨hbinds, v'', hagain, -, hmap⟩ := hanswer
    exact ⟨v, v', v'', s, hv, hw, hrun, hbinds, hagain, hmap⟩

end Inode
end TieredVolume
