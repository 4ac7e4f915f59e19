import TieredVolume.Proofs.Mount

/-!
Mounting what is on a device. Once everything is written to the device, a volume that is mounted
from it has the same free map and the same inodes; only that none of them is open any more.
-/
namespace TieredVolume

open View

variable {n total : Nat} {w : View} {S : Shelf} {options : MountOptions}
  {device : Device} {faults : Fault → Prop}

/-- The view when nobody has anything open. -/
def View.idle (w : View) : View := { w with node := fun _ => none, loaded := fun _ => none }

/-- The shelf when nobody has anything open. -/
def Shelf.idle (S : Shelf) : Shelf := { S with node := fun _ => none }

theorem Keeps.idle (hw : Keeps total w S) : Keeps total w.idle S.idle := by
  have hkept : ∀ h, Kept w w.idle h := fun h =>
    ⟨by simp only [View.header, View.idle, hw.unloaded], fun _ _ _ => rfl⟩
  refine ⟨⟨hw.total, hw.forest.of_kept rfl rfl fun h _ => hkept h, fun h hh => ?_, fun h hh => ?_,
    rfl, fun _ _ hn => by cases hn⟩, fun _ => rfl⟩
  · exact (hw.sized h hh).of_kept (hkept h)
  · rw [(hkept h).file]
    exact hw.file h hh

/-- If no open inode was removed, every inode has a place below the root. -/
theorem Settled.idle (hS : Settled S) (hstays : ∀ s nd, S.node s = some nd → nd.removed = false) :
    Settled S.idle where
  rooted := hS.rooted
  spare := hS.spare
  counted := fun _ _ hn => by cases hn
  opened := fun _ _ hn => by cases hn
  linked := hS.linked
  standing := fun _ _ _ _ _ hn => by cases hn
  writable := fun _ _ _ _ hn => by cases hn
  held := fun s hs => .inl <| (hS.held s hs).resolve_right fun ⟨nd, hn, hgone⟩ => by
    rw [hstays s nd hn] at hgone
    cases hgone

namespace Volume

variable {v : Volume n}

/-- What `shutdown` leaves is on the device. -/
theorem shutdown_yields (h : Shows v w) : Yields faults (shutdown (n := n)) v fun _ v' =>
    Shows v' w ∧ v'.map = v.map ∧ ∀ t, v'.cache.current t = v'.cache.device.block? t.block := by
  have hstop : Cache.Usable w.total (Cache.withQueue {} v.cache) := h.usable.withQueue (by simp)
  refine Yields.onCache (Yields.bind (Yields.modify ?_))
  refine (Cache.flushAll_yields hstop.coherent).mono ?_
  rintro - c ⟨hc, hf, hclean⟩
  have hcur : ∀ t : Sector, t.block < w.total → c.current t = v.cache.current t := fun t ht =>
    hf.current t (hstop.blockCount.symm ▸ ht)
  refine ⟨h.withCache (hstop.of_changes hc hf.changes_current) (fun t ht => ?_) (fun t ht => ?_)
    (fun t ht => absurd ht (hclean t)), rfl, fun t => hc.current_eq_block? (hclean t)⟩
  · rw [hcur t (h.lt ht.1), h.current ht]
  · exact hcur t (h.lt_of_isMap ht)

/-- A fresh cache over a device on which everything is. -/
theorem Shows.refreshed {c : Cache n} (h : Shows v w) (hc : Cache.Usable v.map.total c)
    (hcur : ∀ t, c.current t = v.cache.current t) (hclean : ∀ t, ¬ c.Dirty t) : Shows { cache := c, map := v.map } w.idle where
  sound := ⟨hc, h.sound.limit, h.sound.room, h.sound.mapUsed, nofun⟩
  written := h.written.congr h.sound.limit fun t _ => hcur t
  tidy := h.tidy
  dirty := fun t ht => absurd ht (hclean t)
  total := h.total
  used := h.used
  node := rfl
  loaded := rfl
  block := fun t ht => by
    have hblock : w.Stored t := ht
    simp only [view, hcur, h.current hblock, Option.getD_some, View.idle]

/-- A volume is found as it was on a device that holds everything of it. -/
theorem open_eq_ok {v : Volume cacheCapacity} (h : Shows v w) (hroot : w.Stored rootSector)
    (hvalid : (Record.ofBlock (w.block rootSector)).isValid) (hd : device.Sound)
    (hcount : device.blockCount = v.map.total)
    (hclean : ∀ t, v.cache.current t = device.block? t.block) :
    ∃ v', Volume.open device = .ok v' ∧ Shows v' w.idle ∧ v'.map = v.map := by
  obtain ⟨c, hc⟩ : ∃ c, Cache.fresh cacheCapacity device = .ok c := ⟨_, dif_pos (by decide)⟩
  obtain ⟨husable, hcur⟩ := Cache.usable_fresh hd hc
  have htotal : v.map.total = w.total := h.total
  rw [hcount] at husable
  have hfresh := h.refreshed husable (fun t => (hcur t).1.trans (hclean t).symm)
    (Cache.not_dirty_fresh hc)
  have hrun : Yields never (do let _ ← fetch rootSector; FreeMap.load v.map.total) c fun m c' =>
      Shows { cache := c', map := m } w.idle ∧ m = v.map := by
    refine (Yields.of_onCache (fetch_does (w := w.idle) hroot hvalid _ hfresh)).andThen ?_
    rintro - c₁ ⟨w', h₁, -, rfl⟩
    refine (FreeMap.load_yields h₁.sound.cache h₁.sound.limit h₁.sound.room h₁.written).mono ?_
    rintro m c₂ ⟨rfl, hc₂, hf⟩
    have hcur₂ : ∀ t : Sector, t.block < w.total → c₂.current t = c₁.current t := fun t ht =>
      hf.current t (h₁.usable.blockCount.symm ▸ ht)
    exact ⟨h₁.withCache (htotal ▸ hc₂)
      (fun t ht => (hcur₂ t (h₁.lt ht.1)).trans (h₁.current ht))
      (fun t ht => hcur₂ t (h₁.lt_of_isMap ht)) fun t ht => h₁.dirty t (hf.dirty t ht), rfl⟩
  obtain ⟨m, c', hx, hshows, rfl⟩ := hrun.ok_of_never
  refine ⟨{ cache := c', map := v.map }, ?_, hshows, rfl⟩
  simp only [Volume.open, assemble, hc, bind, Except.bind, hcount, pure, Except.pure] at hx ⊢
  rw [hx]

/-- What was written to the device is mounted as it was. -/
theorem mount_eq_ok_of_clean {v : Volume cacheCapacity} (h : Shows v w)
    (hroot : w.Stored rootSector) (hvalid : (Record.ofBlock (w.block rootSector)).isValid)
    (hd : device.Sound) (hcount : device.blockCount = v.map.total)
    (hclean : ∀ t, v.cache.current t = device.block? t.block) (hformat : options.format = false) :
    ∃ v', mount device options = .ok (.ok v') ∧ Shows v' w.idle ∧ v'.map = v.map := by
  obtain ⟨v', hrun, hv', hmap⟩ := open_eq_ok h hroot hvalid hd hcount hclean
  simp only [mount, hformat, Bool.false_eq_true, if_false, hrun, Functor.map, Except.map, bind,
    Except.bind, pure, Except.pure]
  cases options.background with
  | false => exact ⟨v', rfl, hv', hmap⟩
  | true => exact ⟨_, rfl, hv'.activate, hmap⟩

/-- So all inodes are there again, and none of them is open. -/
theorem mount_stores {v : Volume cacheCapacity} (hv : Stores total v S)
    (hroot : rootSector ∈ S.live) (hd : device.Sound) (hcount : device.blockCount = v.map.total)
    (hclean : ∀ t, v.cache.current t = device.block? t.block) (hformat : options.format = false) :
    ∃ v', mount device options = .ok (.ok v') ∧ Stores total v' S.idle ∧ v'.map = v.map := by
  obtain ⟨w, hvw, hw⟩ := hv
  have hheader := hw.forest.header rootSector hroot
  rw [View.header, hw.unloaded, Option.getD_none] at hheader
  obtain ⟨v', hmount, hv', hmap⟩ := mount_eq_ok_of_clean hvw (hw.forest.header_stored hroot)
    hheader.isValid hd hcount hclean hformat
  exact ⟨v', hmount, ⟨w.idle, hv', hw.idle⟩, hmap⟩

end Volume
end TieredVolume
