import TieredVolume.Inode.Index
import TieredVolume.Proofs.Inode.Cost

/-!
Looking up and binding logical sectors. A look-up finds what the tree says. Binding only grows the
tree, and takes one sector for each place that was missing on the ways that it binds; if it is
refused, then with every sector in use and a place on the ways still missing.
-/
namespace TieredVolume

open View

variable {w w' : View} {live spare : Set Sector} {places : Finset Place} {h s : Sector} {slot : Fin 79}
  {up : List (Fin 64)} {r : Record} {nd : Node} {l : Nat} {faults : Fault → Prop} {n : Nat}

theorem View.trail_append_none (hnone : w.trail h slot up = none) (more : List (Fin 64)) :
    w.trail h slot (more ++ up) = none := by
  induction more with
  | nil => exact hnone
  | cons c more ih => rw [List.cons_append, View.trail, ih, Option.bind_none]

/-- A sector was set aside: it was free before, and no inode has changed. -/
structure SetAside (live spare : Set Sector) (s : Sector) (w w' : View) : Prop where
  raw : Sector.decode s.raw = some s
  lt : s.block < w.total
  free : w.used s = false
  fresh : s ∉ spare
  forest : Forest w' live (insert s spare)
  kept : ∀ h ∈ live, Kept w w' h
  total : w'.total = w.total
  node : w'.node = w.node
  loaded : w'.loaded = w.loaded
  used : w'.used = Function.update w.used s true

namespace SetAside

theorem put {b : Block} (h : SetAside live spare s w w') : SetAside live spare s w (w'.put s b) :=
  { h with
    forest := h.forest.put_spare (.inl rfl)
    kept := fun h' hh' => (h.kept h' hh').trans (h.forest.kept_put_spare (.inl rfl) hh') }

theorem used_mono (h : SetAside live spare s w w') (t : Sector) (ht : w.used t = true) :
    w'.used t = true := by
  by_cases hts : t = s
  · rw [hts, h.used, Function.update_self]
  · rw [h.used, Function.update_of_ne hts, ht]

theorem grown (h : SetAside live spare s w w') {h' : Sector} (hh : h' ∈ live) :
    Grown live h' w w' :=
  grown_of_kept h.total h.node h.loaded h.used_mono h.kept hh

theorem not_live (h : SetAside live spare s w w') : s ∉ live := fun hs =>
  h.forest.sector_ne_of_spare (.inl rfl) hs none rfl

/-- A sector set aside that is linked at one of these places was paid for it. -/
theorem paid {w₁ : View} {p : Place} (ha : SetAside live spare s w w₁)
    (hl : Linked live h p s w₁ w') (hh : h ∈ live) (hp : p ∈ places) : Paid places h w w' := by
  have hkept := ha.kept h hh
  refine Paid.of_link (hl.total.trans ha.total) (hl.used.trans ha.used) ha.lt ha.free
    ((hkept.link p).symm.trans hl.none) ?_ (fun q hq => ?_) hp
  · rw [hl.link_self hh]
    nofun
  · rw [hl.link_other hh fun heq => hq heq.2, hkept.link]

end SetAside

namespace Volume

/-- A free sector that is taken is set aside. -/
theorem setAside_take {b : Block} (hf : Forest w live spare) (hlt : s.block < w.total)
    (hlimit : w.total < sectorLimit) (hfree : w.used s = false) (hmap : ¬ IsMap w.total s) :
    SetAside live spare s w (w.take s b) := by
  refine ⟨Sector.decode_raw (by omega), hlt, hfree, fun hs => ?_, hf.take hfree hmap,
    fun h hh => hf.kept_take hfree hh, rfl, rfl, rfl, rfl⟩
  have hused := (hf.setAside s hs).1
  rw [hfree] at hused
  cases hused

/-- An allocation sets a sector aside. -/
theorem allocate_setAside (hf : Forest w live spare) :
    Tries Shows faults (allocate (n := n) 1) w (fun s w' => SetAside live spare s w w')
      (fun r w' => r = .noSpace ∧ w.Full ∧ w' = w) := by
  refine allocate_tries.mono ?_ fun _ _ => id
  rintro s w' ⟨hlt, hlimit, hfree, hmap, -, b, rfl⟩
  exact setAside_take hf hlt hlimit hfree hmap

end Volume

namespace Inode

open Volume Attempt

/-! ### Looking up -/

theorem follow_does (hf : Forest w live spare) (hh : h ∈ live) {steps : List (Fin 64)}
    (hs : w.trail h slot up = some s)
    (hlen : steps.length + up.length ≤ IndexPath.depthOf slot) :
    Does Shows faults (onCache (n := n) (follow steps s)) w fun s? w' =>
      s? = w.trail h slot (steps.reverse ++ up) ∧ w' = w := by
  induction steps generalizing up s with
  | nil =>
    rw [follow, onCache_pure]
    exact Does.pure ⟨by rw [List.reverse_nil, List.nil_append, hs], rfl⟩
  | cons c steps ih =>
    rw [List.length_cons] at hlen
    let q : Place := ⟨slot, up, by omega⟩
    have hindex := hf.index h hh q s (by simp only [Place.Leaf, q]; omega) hs
    rw [follow, onCache_bind]
    refine Does.andThen (fetch_does (hf.link_stored (p := q) hh hs) hindex.isValid) ?_
    rintro node w' ⟨rfl, rfl⟩
    rw [onCache_bind, onCache_ofExcept]
    refine Does.bind (Does.ofExcept
      (hindex.link (show c.val < Record.linkCount .indexBlock from c.isLt) (by omega)) ?_)
    have hchild : w'.child s c =
        Sector.decode (Record.ofBlock (w'.block s)).index[c.val] := rfl
    rw [List.reverse_cons, List.append_assoc, List.singleton_append]
    rw [← hchild]
    cases hnext : w'.child s c with
    | none =>
      simp only [onCache_pure]
      refine Does.pure ⟨?_, rfl⟩
      rw [View.trail_append_none]
      rw [View.trail, hs, Option.bind_some, hnext]
    | some next =>
      refine ih (by rw [View.trail, hs, Option.bind_some, hnext]) ?_
      rw [List.length_cons]
      omega

theorem locate_eq_ok {path : IndexPath} (h : IndexPath.locate? l = some path) :
    IndexPath.locate l = .ok path := by
  simp only [IndexPath.locate, h]

/-- The link of a header at which the way to a logical sector starts. -/
theorem link_header (hf : Forest w live spare) (hh : h ∈ live) (hl : w.loaded h = some r)
    (path : IndexPath) :
    r.link .data path.slot = .ok (w.header h).index[path.place.slot.val] := by
  have hdata := hf.header h hh
  rw [header_of_loaded hl] at hdata ⊢
  exact hdata.link path.slot_lt path.slot_lt

/-- The data sector at the end of a way, as its first link leads to it. -/
theorem data_eq {path : IndexPath} (hpath : IndexPath.locate? l = some path) :
    w.data h l = w.trail h path.place.slot (path.steps.reverse ++ []) := by
  rw [View.data, hpath, Option.bind_some, List.append_nil]
  rfl

theorem locate_eq_error (hpath : IndexPath.locate? l = none) :
    IndexPath.locate l = .error (.pastIndex maxSectors) := by
  simp only [IndexPath.locate, hpath]

theorem find?_does (hf : Forest w live spare) (hh : h ∈ live) (hn : w.node h = some nd)
    (hl : w.loaded h = some r) (hlogical : l < maxSectors ∨ faults (.pastIndex maxSectors)) :
    Does Shows faults (find? (n := n) h l) w fun s? w' => s? = w.data h l ∧ w' = w := by
  cases hpath : IndexPath.locate? l with
  | none =>
    have hout := IndexPath.locate?_eq_none_iff.mp hpath
    exact Does.bind (Does.ofExcept_error (locate_eq_error hpath) (hlogical.resolve_left (by omega)))
  | some path =>
    refine Does.bind (Does.ofExcept (locate_eq_ok hpath) ?_)
    refine Does.andThen (record_does hn hl) ?_
    rintro r' w' ⟨rfl, rfl⟩
    refine Does.bind (Does.ofExcept (link_header hf hh hl path) ?_)
    have htop : w'.trail h path.place.slot [] =
        Sector.decode (w'.header h).index[path.place.slot.val] := rfl
    rw [← htop, data_eq hpath]
    cases hnext : w'.trail h path.place.slot [] with
    | none => exact Does.pure ⟨by rw [View.trail_append_none hnext], rfl⟩
    | some next =>
      refine follow_does hf hh hnext ?_
      rw [List.length_nil, Nat.add_zero]
      exact (IndexPath.depthOf_slot path).ge

/-! ### Binding -/

/-- What is left of a binding of these places that was refused. -/
structure Refused (live spare : Set Sector) (places : Finset Place) (h : Sector) (w : View)
    (why : Refusal) (w' : View) : Prop where
  why : why = .noSpace
  full : w'.Full
  forest : Forest w' live spare
  grown : Grown live h w w'
  paid : Paid places h w w'
  short : ∃ p ∈ places, w'.link h p = none

theorem Refused.after {w₁ : View} {why : Refusal} (hg : Grown live h w w₁)
    (hp : Paid places h w w₁) (hr : Refused live spare places h w₁ why w') :
    Refused live spare places h w why w' :=
  ⟨hr.why, hr.full, hr.forest, hg.trans hr.grown, hp.trans hr.paid, hr.short⟩

/-- Fewer sectors were free than were missing. -/
theorem Refused.lt {why : Refusal} (hr : Refused live spare places h w why w') :
    w.vacant.ncard < (w.missing h places).card := by
  obtain ⟨p, hp, hnone⟩ := hr.short
  exact hr.paid.lt_of_full hr.full hp hnone

/-- What a fresh sector is filled with. -/
theorem fill_does (hs : w.Stored s) (data : Bool) :
    Does Shows faults (onCache (n := n) (if data then Cache.zero s else store s Record.indexBlock)) w
      fun _ w' => w' = w.put s (if data then Block.zero else Record.indexBlock.toBlock) := by
  cases data with
  | true => exact zero_does hs
  | false => exact store_does hs Record.indexBlock

theorem allocateFor_tries (hf : Forest w live spare) (data : Bool) :
    Tries Shows faults (allocateFor (n := n) data) w
      (fun s w' => SetAside live spare s w w' ∧
        w'.block s = if data then Block.zero else Record.indexBlock.toBlock)
      (fun r w' => r = .noSpace ∧ w.Full ∧ w' = w) := by
  refine Tries.andThen (allocate_setAside hf) ?_ fun _ _ => id
  intro s w₁ hs
  refine Tries.bind (Tries.always ((fill_does (hs.forest.setAside s (.inl rfl)) data).mono ?_))
  rintro - w' rfl
  exact Tries.pure ⟨hs.put, by simp only [View.put, Function.update_self]⟩

theorem bindBelow_tries {steps : List (Fin 64)} (hf : Forest w live spare) (hh : h ∈ live)
    (hs : w.trail h slot up = some s)
    (hlen : steps.length + up.length = IndexPath.depthOf slot)
    (hways : ∀ p : Place, p.slot = slot → p.up <:+ steps.reverse ++ up → p ∈ places) :
    Tries Shows faults (bindBelow (n := n) steps s) w
      (fun t w' => Forest w' live spare ∧ Grown live h w w' ∧
        w'.trail h slot (steps.reverse ++ up) = some t ∧ Paid places h w w')
      (Refused live spare places h w) := by
  induction steps generalizing w up s with
  | nil =>
    exact Tries.pure ⟨hf, Grown.refl live h w, by rw [List.reverse_nil, List.nil_append, hs],
      Paid.refl places h w⟩
  | cons c steps ih =>
    rw [List.length_cons] at hlen
    rw [List.reverse_cons, List.append_assoc, List.singleton_append] at hways
    let q : Place := ⟨slot, up, by omega⟩
    let p : Place := ⟨slot, c :: up, by rw [List.length_cons]; omega⟩
    have hindex := hf.index h hh q s (by simp only [Place.Leaf, q]; omega) hs
    have hlink := hindex.link (show c.val < Record.linkCount .indexBlock from c.isLt) (by omega)
    have hchild : w.child s c = Sector.decode (Record.ofBlock (w.block s)).index[c.val] := rfl
    have hnext : w.link h p = w.child s c := by
      rw [View.link, View.trail, hs, Option.bind_some]
    rw [bindBelow, List.reverse_cons, List.append_assoc, List.singleton_append]
    refine Tries.bind (Tries.always ((fetch_does (hf.link_stored (p := q) hh hs)
      hindex.isValid).mono ?_))
    rintro node w' ⟨rfl, rfl⟩
    refine Tries.bind (Tries.always (Does.ofExcept hlink ?_))
    rw [← hchild]
    cases hc : w'.child s c with
    | some next => exact ih hf (hnext.trans hc) (by rw [List.length_cons]; omega) hways
    | none =>
      rw [hc] at hnext
      have hp : p ∈ places := hways p rfl (List.suffix_append _ _)
      refine Tries.andThen (allocateFor_tries hf steps.isEmpty) ?_ fun why w₁ hr => ?_
      · rintro fresh w₁ ⟨hset, hblock⟩
        have hkept := hset.kept h hh
        have hs₁ : w₁.trail h slot up = some s := (hkept.link q).trans hs
        have hleaf : p.Leaf ↔ steps = [] := by
          simp only [Place.Leaf, p, List.length_cons, ← List.length_eq_zero_iff]
          omega
        have hlinked := linked_child hset.forest hh hset.raw (p := p) rfl hs₁
          ((hkept.link p).trans hnext)
          (fun hnot => by rw [hblock, if_neg (by simpa [hleaf] using hnot)])
          (Record.ofBlock (w'.block s)) (by rw [hkept.block q s hs])
        have hgrown : Grown live h w₁ _ := hlinked.grown hh (fun _ _ => rfl) rfl
          fun hleaf' => by rw [hblock, if_pos (by simp [hleaf.mp hleaf'])]
        have hf₂ := hlinked.forest hset.forest hh hset.fresh fun hnot => by
          rw [hblock, if_neg (by simpa [hleaf] using hnot), Record.ofBlock_toBlock]
          exact Record.is_indexBlock
        refine Tries.bind (Tries.always (Does.bind (Does.ofExcept
          (hindex.setLink (show c.val < Record.linkCount .indexBlock from c.isLt) (by omega)) ?_)))
        refine (store_does (hset.forest.link_stored (p := q) hh hs₁) _).mono ?_
        rintro - w₂ rfl
        have hg := (hset.grown hh).trans hgrown
        have hpaid := hset.paid hlinked hh hp
        refine (ih hf₂ (hlinked.link_self hh) (by rw [List.length_cons]; omega) hways).mono ?_
          fun why w₃ hr => hr.after hg hpaid
        rintro t w₃ ⟨hf₃, hg₃, ht, hpaid₃⟩
        exact ⟨hf₃, hg.trans hg₃, ht, hpaid.trans hpaid₃⟩
      · obtain ⟨rfl, hfull, rfl⟩ := hr
        exact ⟨rfl, hfull, hf, Grown.refl live h w₁, Paid.refl places h w₁, p, hp, hnext⟩

/-- A logical sector that the index does not reach cannot be bound. -/
theorem bind_tries (hf : Forest w live spare) (hh : h ∈ live) (hn : w.node h = some nd)
    (hl : w.loaded h = some r) (hlogical : l < maxSectors ∨ faults (.pastIndex maxSectors))
    (hways : wayTo l ⊆ places) :
    Tries Shows faults (bind (n := n) h l) w
      (fun t w' => Forest w' live spare ∧ Grown live h w w' ∧ w'.data h l = some t ∧
        Paid places h w w')
      (Refused live spare places h w) := by
  unfold bind
  cases hpath : IndexPath.locate? l with
  | none =>
    have hout := IndexPath.locate?_eq_none_iff.mp hpath
    exact Tries.bind (Tries.always (Does.ofExcept_error (locate_eq_error hpath)
      (hlogical.resolve_left (by omega))))
  | some path =>
    have hdepth := IndexPath.depthOf_slot path
    have htop : w.trail h path.place.slot [] =
        Sector.decode (w.header h).index[path.place.slot.val] := rfl
    have hways : ∀ p : Place, p.slot = path.place.slot → p.up <:+ path.steps.reverse ++ [] →
        p ∈ places := fun p hslot hup => by
      rw [List.append_nil] at hup
      exact hways (mem_wayTo hpath hslot hup)
    refine Tries.bind (Tries.always (Does.ofExcept (locate_eq_ok hpath) ?_))
    refine Tries.bind (Tries.always (Does.andThen (record_does hn hl) ?_))
    rintro r' w' ⟨rfl, rfl⟩
    refine Does.ofExcept (link_header hf hh hl path) ?_
    rw [← htop]
    cases hnext : w'.trail h path.place.slot [] with
    | some next =>
      refine (bindBelow_tries hf hh hnext (by rw [List.length_nil]; exact hdepth.symm)
        hways).mono ?_ fun _ _ => id
      rintro t w₁ ⟨hf₁, hg₁, ht, hpaid⟩
      exact ⟨hf₁, hg₁, by rw [data_eq hpath, ht], hpaid⟩
    | none =>
      let p : Place := ⟨path.place.slot, [], Nat.zero_le _⟩
      have hp : p ∈ places := hways p rfl List.nil_suffix
      have hleaf : p.Leaf ↔ path.steps = [] := by
        simp only [Place.Leaf, p, ← List.length_eq_zero_iff, List.length_nil]
        rw [← hdepth]
        exact eq_comm
      refine Tries.andThen (allocateFor_tries hf path.steps.isEmpty) ?_ fun why w₁ hr => ?_
      · rintro fresh w₁ ⟨hset, hblock⟩
        have hkept := hset.kept h hh
        have hl₁ : w₁.loaded h = some r' := by rw [hset.loaded, hl]
        have hdata := hset.forest.header h hh
        rw [header_of_loaded hl₁] at hdata
        have hlinked := linked_header hh hset.raw (p := p) hl₁ rfl
          ((hkept.link p).trans hnext)
          (fun hnot => by rw [hblock, if_neg (by simpa [hleaf] using hnot)])
        have hgrown : Grown live h w₁ _ := hlinked.grown hh
          (fun t ht => by simp only [View.setLoaded, Function.update_of_ne ht])
          (by simp only [View.setLoaded, Function.update_self, hl₁, Option.isSome_some])
          fun hleaf' => by rw [hblock, if_pos (by simp [hleaf.mp hleaf'])]
        have hf₂ := hlinked.forest hset.forest hh hset.fresh fun hnot => by
          rw [hblock, if_neg (by simpa [hleaf] using hnot), Record.ofBlock_toBlock]
          exact Record.is_indexBlock
        refine Tries.bind (Tries.always ((updateRecord_does (by rw [hset.node, hn]) hl₁
          (hdata.setLink path.slot_lt path.slot_lt)).mono ?_))
        rintro - w₂ rfl
        have hg := (hset.grown hh).trans hgrown
        have hpaid := hset.paid hlinked hh hp
        refine (bindBelow_tries hf₂ hh (hlinked.link_self hh)
          (by rw [List.length_nil]; exact hdepth.symm) hways).mono ?_
          fun why w₃ hr => hr.after hg hpaid
        rintro t w₃ ⟨hf₃, hg₃, ht, hpaid₃⟩
        exact ⟨hf₃, hg.trans hg₃, by rw [data_eq hpath, ht], hpaid.trans hpaid₃⟩
      · obtain ⟨rfl, hfull, rfl⟩ := hr
        exact ⟨rfl, hfull, hf, Grown.refl live h w₁, Paid.refl places h w₁, p, hp, hnext⟩

/-- Binding a range binds every sector of it. -/
theorem bindRange_tries {first count : Nat} (hf : Forest w live spare) (hh : h ∈ live)
    (hn : w.node h = some nd) (hl : w.loaded h = some r)
    (hlogical : (∀ l, first ≤ l → l < first + count → l < maxSectors) ∨
      faults (.pastIndex maxSectors))
    (hways : ∀ l, first ≤ l → l < first + count → wayTo l ⊆ places) :
    Tries Shows faults (bindRange (n := n) h first count) w
      (fun _ w' => Forest w' live spare ∧ Grown live h w w' ∧
        (∀ l, first ≤ l → l < first + count → w'.data h l ≠ none) ∧ Paid places h w w')
      (Refused live spare places h w) := by
  induction count generalizing w first r with
  | zero =>
    exact Tries.pure ⟨hf, Grown.refl live h w, fun l hle hlt => by omega, Paid.refl places h w⟩
  | succ count ih =>
    refine Tries.andThen (bind_tries hf hh hn hl
      (hlogical.imp_left fun hin => hin first (Nat.le_refl _) (by omega))
      (hways first (Nat.le_refl _) (by omega))) ?_ fun _ _ => id
    rintro t w₁ ⟨hf₁, hg₁, ht, hpaid₁⟩
    obtain ⟨r₁, hl₁⟩ := hg₁.exists_loaded hl
    refine (ih hf₁ (by rw [hg₁.node, hn]) hl₁
      (hlogical.imp_left fun hin l hle hlt => hin l (by omega) (by omega))
      fun l hle hlt => hways l (by omega) (by omega)).mono ?_ fun why w₂ hr => hr.after hg₁ hpaid₁
    rintro - w₂ ⟨hf₂, hg₂, hbound, hpaid₂⟩
    refine ⟨hf₂, hg₁.trans hg₂, fun l hle hlt => ?_, hpaid₁.trans hpaid₂⟩
    by_cases heq : l = first
    · rw [heq, hg₂.data ht]
      nofun
    · exact hbound l (by omega) (by omega)

/-- What is missing between the length of a file and the byte `stop` is what binding through takes. -/
theorem bindThrough_tries {stop : Nat} (hf : Forest w live spare) (hh : h ∈ live)
    (hn : w.node h = some nd) (hl : w.loaded h = some r)
    (hstop : stop ≤ maxSectors * sectorSize ∨ faults (.pastIndex maxSectors)) :
    Tries Shows faults (bindThrough (n := n) h stop) w
      (fun _ w' => Forest w' live spare ∧ Grown live h w w' ∧
        (∀ l, Record.dataSectors (w.size h) ≤ l → l < Record.dataSectors stop →
          w'.data h l ≠ none) ∧
        Paid (ways (Record.dataSectors (w.size h)) (Record.dataSectors stop)) h w w')
      (Refused live spare (ways (Record.dataSectors (w.size h)) (Record.dataSectors stop)) h w) := by
  refine Tries.bind (Tries.always ((record_does hn hl).mono ?_))
  rintro r' w' ⟨rfl, rfl⟩
  have hsize : w'.size h = r'.length.toNat := by rw [View.size, header_of_loaded hl]
  rw [← hsize]
  refine (bindRange_tries hf hh hn hl (hstop.imp_left fun hle l _ hlt => ?_)
    fun l hle hlt => wayTo_subset_ways hle (by omega)).mono ?_ fun _ _ => id
  · have hsectors : Record.dataSectors stop ≤ maxSectors := by
      simp only [Record.dataSectors, sectorSize, maxSectors] at *
      omega
    omega
  · rintro - w₁ ⟨hf₁, hg₁, hbound, hpaid⟩
    exact ⟨hf₁, hg₁, fun l hle hlt => hbound l hle (by omega), hpaid⟩

end Inode
end TieredVolume
