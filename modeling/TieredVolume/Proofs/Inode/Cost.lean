import Mathlib.Data.Finset.Union
import Mathlib.Data.Set.Card
import Mathlib.Order.Interval.Finset.Nat
import TieredVolume.Proofs.Inode.Growth

/-!
What binding costs. On the way to a data sector lie the index blocks above it, and what a binding
takes from the free sectors is what is missing on the ways that it binds: each sector taken fills
one place. So nothing is paid twice for index blocks that many ways share.
-/
namespace TieredVolume

variable {w w' w'' : View} {h s : Sector} {p : Place} {places places' : Finset Place} {l m k : Nat}

instance : DecidableEq Place := fun p q =>
  decidable_of_iff (p.slot = q.slot ∧ p.up = q.up)
    ⟨fun h => Place.ext' h.1 h.2, fun h => h ▸ ⟨rfl, rfl⟩⟩

instance : Finite Sector :=
  Finite.of_injective (fun s : Sector => (⟨s.block, s.raw.toNat_lt⟩ : Fin (2 ^ 32)))
    fun _ _ h => Sector.block_injective (congrArg Fin.val h)

/-- The free sectors. -/
def View.vacant (w : View) : Set Sector := {s | s.block < w.total ∧ w.used s = false}

/-- Those of some places at which an inode has no sector. -/
def View.missing (w : View) (h : Sector) (places : Finset Place) : Finset Place :=
  places.filter fun p => w.link h p = none

namespace View

theorem missing_congr (hlink : ∀ p, w'.link h p = w.link h p) (places : Finset Place) :
    w'.missing h places = w.missing h places := by
  simp only [missing, hlink]

/-- There is one free sector less when one is taken. -/
theorem ncard_vacant_of_used (htotal : w'.total = w.total)
    (hused : w'.used = Function.update w.used s true) (hlt : s.block < w.total)
    (hfree : w.used s = false) : w'.vacant.ncard + 1 = w.vacant.ncard := by
  have hvacant : w'.vacant = w.vacant \ {s} := by
    ext t
    simp only [vacant, htotal, hused, Set.mem_ofPred_eq, Set.mem_sdiff, Set.mem_singleton_iff]
    by_cases hts : t = s
    · simp [hts]
    · simp [hts]
  have hs : s ∈ w.vacant := ⟨hlt, hfree⟩
  rw [hvacant, Set.ncard_sdiff_singleton_add_one hs (Set.toFinite _)]

theorem Full.ncard_vacant (hfull : w.Full) : w.vacant.ncard = 0 := by
  have hempty : w.vacant = ∅ := Set.eq_empty_iff_forall_notMem.mpr fun t ht => by
    have hused := hfull t ht.1
    rw [ht.2] at hused
    cases hused
  rw [hempty, Set.ncard_empty]

end View

/-! ### Counting free sectors -/

/-- The free sectors of a view are those that the map counts. -/
theorem Volume.freeCount_eq {n : Nat} (v : Volume n) (hlimit : v.map.total < sectorLimit) :
    v.map.freeCount = v.view.vacant.ncard := by
  have himage : Sector.block '' v.view.vacant = ↑v.map.free := by
    ext i
    simp only [Set.mem_image, View.vacant, Set.mem_ofPred_eq, Volume.view, Finset.mem_coe,
      FreeMap.mem_free]
    constructor
    · rintro ⟨s, ⟨hlt, hfree⟩, rfl⟩
      exact ⟨hlt, by simpa [hlt] using hfree⟩
    · rintro ⟨hlt, hfree⟩
      have hblock : (Sector.ofNat i).block = i := Sector.block_ofNat (by omega)
      exact ⟨Sector.ofNat i, ⟨by rwa [hblock], by rw [hblock, hfree, Bool.and_false]⟩, hblock⟩
  rw [← Set.ncard_image_of_injective _ fun _ _ h => Sector.block_injective h, himage,
    Set.ncard_coe_finset, FreeMap.freeCount_eq_card]

theorem Volume.Shows.freeCount {n : Nat} {v : Volume n} (h : v.Shows w) :
    v.map.freeCount = w.vacant.ncard := by
  rw [v.freeCount_eq h.sound.limit, View.vacant, View.vacant, h.total, h.used]

/-! ### Ways -/

/-- The places from the header of a file down to one of its places. -/
def waysFrom (slot : Fin 79) :
    (up : List (Fin 64)) → up.length ≤ IndexPath.depthOf slot → Finset Place
  | [], h => {⟨slot, [], h⟩}
  | c :: up, h => insert ⟨slot, c :: up, h⟩ (waysFrom slot up (Nat.le_of_succ_le h))

/-- The places on the way to a logical sector. -/
def wayTo (l : Nat) : Finset Place :=
  match IndexPath.locate? l with
  | none => ∅
  | some path => waysFrom path.place.slot path.place.up path.place.fits

/-- The places on the ways to a range of logical sectors. -/
def ways (first stop : Nat) : Finset Place := (Finset.Ico first stop).biUnion wayTo

theorem mem_waysFrom {slot : Fin 79} {up : List (Fin 64)}
    (hfits : up.length ≤ IndexPath.depthOf slot) :
    p ∈ waysFrom slot up hfits ↔ p.slot = slot ∧ p.up <:+ up := by
  induction up with
  | nil =>
    rw [waysFrom, Finset.mem_singleton, List.suffix_nil]
    exact ⟨fun h => h ▸ ⟨rfl, rfl⟩, fun ⟨hslot, hup⟩ => Place.ext' hslot hup⟩
  | cons c up ih =>
    rw [waysFrom, Finset.mem_insert, ih, List.suffix_cons_iff]
    constructor
    · rintro (rfl | ⟨hslot, hup⟩)
      · exact ⟨rfl, .inl rfl⟩
      · exact ⟨hslot, .inr hup⟩
    · rintro ⟨hslot, hup | hup⟩
      · exact .inl (Place.ext' hslot hup)
      · exact .inr ⟨hslot, hup⟩

theorem wayTo_subset_ways (hfirst : m ≤ l) (hstop : l < k) : wayTo l ⊆ ways m k :=
  Finset.subset_biUnion_of_mem wayTo (Finset.mem_Ico.mpr ⟨hfirst, hstop⟩)

theorem ways_mono {m' k' : Nat} (hfirst : m' ≤ m) (hstop : k ≤ k') : ways m k ⊆ ways m' k' :=
  Finset.biUnion_subset_biUnion_of_subset_left wayTo (Finset.Ico_subset_Ico hfirst hstop)

/-- Above a place at which there is a sector there are index blocks. -/
theorem View.trail_of_suffix {slot : Fin 79} {up above : List (Fin 64)}
    (hup : above <:+ up) (hs : w.trail h slot up ≠ none) : w.trail h slot above ≠ none := by
  obtain ⟨more, rfl⟩ := hup
  induction more with
  | nil => exact hs
  | cons c more ih =>
    refine ih fun hnone => hs ?_
    rw [List.cons_append, View.trail, hnone, Option.bind_none]

theorem mem_wayTo {path : IndexPath} (hpath : IndexPath.locate? l = some path)
    (hslot : p.slot = path.place.slot) (hup : p.up <:+ path.steps.reverse) : p ∈ wayTo l := by
  rw [wayTo, hpath]
  exact (mem_waysFrom path.place.fits).mpr ⟨hslot, hup⟩

/-- A bound sector has its whole way. -/
theorem link_of_data (hs : w.data h l ≠ none) (hp : p ∈ wayTo l) : w.link h p ≠ none := by
  unfold View.data at hs
  unfold wayTo at hp
  cases hpath : IndexPath.locate? l with
  | none => rw [hpath] at hs; exact absurd rfl hs
  | some path =>
    rw [hpath] at hs hp
    obtain ⟨hslot, hup⟩ := (mem_waysFrom path.place.fits).mp hp
    rw [View.link, hslot]
    exact View.trail_of_suffix hup hs

theorem link_of_mem_ways (hbound : ∀ l, m ≤ l → l < k → w.data h l ≠ none) (hp : p ∈ ways m k) :
    w.link h p ≠ none := by
  obtain ⟨l, hl, hp⟩ := Finset.mem_biUnion.mp hp
  obtain ⟨hfirst, hstop⟩ := Finset.mem_Ico.mp hl
  exact link_of_data (hbound l hfirst hstop) hp

/-! ### Paying -/

/-- What was taken from the free sectors filled as many of these places, and no others. -/
structure Paid (places : Finset Place) (h : Sector) (w w' : View) : Prop where
  count : w'.vacant.ncard + (w.missing h places).card =
    w.vacant.ncard + (w'.missing h places).card
  frame : ∀ p ∉ places, w'.link h p = w.link h p

namespace Paid

theorem refl (places : Finset Place) (h : Sector) (w : View) : Paid places h w w :=
  ⟨rfl, fun _ _ => rfl⟩

theorem trans (hp : Paid places h w w') (hp' : Paid places h w' w'') : Paid places h w w'' where
  count := by
    have hcount := hp.count
    have hcount' := hp'.count
    omega
  frame := fun p hout => (hp'.frame p hout).trans (hp.frame p hout)

/-- One sector is taken and put at a place where none was. -/
theorem of_link (htotal : w'.total = w.total) (hused : w'.used = Function.update w.used s true)
    (hlt : s.block < w.total) (hfree : w.used s = false) (hnone : w.link h p = none)
    (hself : w'.link h p ≠ none) (hother : ∀ q, q ≠ p → w'.link h q = w.link h q)
    (hp : p ∈ places) : Paid places h w w' where
  count := by
    have hmissing : w'.missing h places = (w.missing h places).erase p := by
      ext q
      simp only [View.missing, Finset.mem_filter, Finset.mem_erase]
      by_cases hq : q = p
      · simp [hq, hself]
      · simp [hq, hother q hq]
    have hpm : p ∈ w.missing h places := Finset.mem_filter.mpr ⟨hp, hnone⟩
    have hcard := View.ncard_vacant_of_used htotal hused hlt hfree
    have hcard' := Finset.card_erase_add_one hpm
    rw [hmissing]
    omega
  frame := fun q hq => hother q fun heq => hq (heq ▸ hp)

/-- When nothing is free any more and a place is not filled, there was less than was missing. -/
theorem lt_of_full (hpaid : Paid places h w w') (hfull : w'.Full) (hp : p ∈ places)
    (hnone : w'.link h p = none) : w.vacant.ncard < (w.missing h places).card := by
  have hpos : 0 < (w'.missing h places).card :=
    Finset.card_pos.mpr ⟨p, Finset.mem_filter.mpr ⟨hp, hnone⟩⟩
  have hcount := hpaid.count
  rw [hfull.ncard_vacant] at hcount
  omega

end Paid

end TieredVolume
