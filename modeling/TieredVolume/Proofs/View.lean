import Mathlib.Logic.Function.Basic
import TieredVolume.Proofs.Abstraction
import TieredVolume.Proofs.Space.Written

/-!
What is seen of a volume from above the cache and the free map: which sectors are in use, what is in
them, and who has which inode open. The cache is not seen, nor what is in free sectors and in those
of the free map itself.
-/
namespace TieredVolume

structure View where
  total : Nat
  used : Sector → Bool
  block : Sector → Block
  /-- The open inodes, without their records. -/
  node : Sector → Option Node
  /-- The records of those that are loaded. -/
  loaded : Sector → Option Record

namespace View

/-- A sector in use that is not the free map's own. -/
def Stored (w : View) (s : Sector) : Prop := w.used s = true ∧ ¬ IsMap w.total s

/-- The view with other contents in a sector. -/
def put (w : View) (s : Sector) (b : Block) : View :=
  { w with block := Function.update w.block s b }

/-- The view with a sector set aside, whatever is in it. -/
def take (w : View) (s : Sector) (b : Block) : View :=
  { w with used := Function.update w.used s true, block := Function.update w.block s b }

/-- The view with a sector given back. -/
def free (w : View) (s : Sector) : View := { w with used := Function.update w.used s false }

/-- Every sector is in use. -/
def Full (w : View) : Prop := ∀ s : Sector, s.block < w.total → w.used s = true

end View

namespace Volume

variable {n : Nat}

def view (v : Volume n) : View where
  total := v.map.total
  used s := decide (s.block < v.map.total) && v.map.isUsed s.block
  block s := (v.cache.current s).getD Block.zero
  node s := (v.table.find? s).map fun node => { node with loaded := none }
  loaded s := (v.table.find? s).bind fun node => node.loaded.map (·.record)

/-- A volume that can be worked with: its cache is coherent, the free map covers the device and
knows its own sectors as used, and no record is loaded twice over. -/
structure Sound (v : Volume n) : Prop where
  cache : Cache.Usable v.map.total v.cache
  limit : v.map.total < sectorLimit
  room : FreeMap.reserved v.map.total ≤ v.map.total
  mapUsed : ∀ i, freeMapStart ≤ i → i < FreeMap.reserved v.map.total → v.map.isUsed i = true
  flat : ∀ s node l, v.table.find? s = some node → node.loaded = some l → l.nested = 0

/-- The view shows the volume, up to what is in sectors that nobody may look at. The free map is on
its own sectors, and nothing waits to be written to a sector that is free. -/
structure Shows (v : Volume n) (w : View) : Prop where
  sound : v.Sound
  written : v.map.Written v.cache
  tidy : v.map.Tidy
  dirty : ∀ s, v.cache.Dirty s → w.used s = true
  total : v.view.total = w.total
  used : v.view.used = w.used
  node : v.view.node = w.node
  loaded : v.view.loaded = w.loaded
  block : ∀ s, w.Stored s → v.view.block s = w.block s

variable {v v' : Volume n} {w w' : View} {s t : Sector} {faults : Fault → Prop}

theorem Sound.shows (h : v.Sound) (hm : v.map.Written v.cache) (htidy : v.map.Tidy)
    (hdirty : ∀ s, v.cache.Dirty s → v.view.used s = true) : Shows v v.view :=
  ⟨h, hm, htidy, hdirty, rfl, rfl, rfl, rfl, fun _ _ => rfl⟩

/-- Two views tell the same if they differ in nothing but what is in sectors that nobody may look
at. -/
theorem Shows.congr (h : Shows v w) (htotal : w'.total = w.total) (hused : w'.used = w.used)
    (hnode : w'.node = w.node) (hloaded : w'.loaded = w.loaded)
    (hblock : ∀ s, w.Stored s → w'.block s = w.block s) : Shows v w' where
  sound := h.sound
  written := h.written
  tidy := h.tidy
  dirty := hused ▸ h.dirty
  total := h.total.trans htotal.symm
  used := h.used.trans hused.symm
  node := h.node.trans hnode.symm
  loaded := h.loaded.trans hloaded.symm
  block := fun s hs => by
    have hs' : w.Stored s := by rwa [View.Stored, ← hused, ← htotal]
    rw [h.block s hs', hblock s hs']

theorem Shows.used_iff (h : Shows v w) :
    w.used s = true ↔ s.block < w.total ∧ v.map.isUsed s.block = true := by
  rw [← h.used, ← h.total]
  simp [view]

theorem Shows.limit (h : Shows v w) : w.total < sectorLimit := h.total ▸ h.sound.limit

theorem Shows.lt (h : Shows v w) (hs : w.used s = true) : s.block < w.total :=
  (h.used_iff.mp hs).1

theorem Shows.usable (h : Shows v w) : Cache.Usable w.total v.cache := h.total ▸ h.sound.cache

theorem Shows.coherent (h : Shows v w) : Cache.Coherent ∅ v.cache := h.sound.cache.coherent

theorem Shows.exists_current (h : Shows v w) (hs : s.block < w.total) :
    ∃ b, v.cache.current s = some b :=
  h.coherent.exists_current (h.usable.blockCount ▸ hs)

theorem Shows.current (h : Shows v w) (hs : w.Stored s) :
    v.cache.current s = some (w.block s) := by
  obtain ⟨b, hb⟩ := h.exists_current (h.lt hs.1)
  have hblock := h.block s hs
  simp only [view, hb, Option.getD_some] at hblock
  rw [hb, hblock]

theorem Shows.room (h : Shows v w) : FreeMap.reserved w.total ≤ w.total := h.total ▸ h.sound.room

theorem Shows.lt_of_isMap (h : Shows v w) (hs : IsMap w.total s) : s.block < w.total :=
  Nat.lt_of_lt_of_le hs.2 h.room

/-- A view tells the free map. -/
theorem Shows.map_congr {k : Nat} {u : Volume k} (hv : v.Shows w) (hu : u.Shows w')
    (htotal : w'.total = w.total) (hused : w'.used = w.used) : u.map = v.map := by
  have htotal : u.map.total = v.map.total := hu.total.trans (htotal.trans hv.total.symm)
  refine hv.tidy.eq_of_isUsed hu.tidy htotal fun i hi => ?_
  have hblock : (Sector.ofNat i).block = i := Sector.block_ofNat (hi.trans hv.sound.limit)
  have hused := congrFun (hu.used.trans (hused.trans hv.used.symm)) (Sector.ofNat i)
  simpa only [view, hblock, htotal, decide_eq_true hi, Bool.true_and] using hused

theorem Shows.map_eq {k : Nat} {u : Volume k} (hv : v.Shows w) (hu : u.Shows w) : u.map = v.map :=
  hv.map_congr hu rfl rfl

/-- A change of the cache alone, which leaves the free map's own sectors as they are. -/
theorem Shows.withCache (h : Shows v w) {c : Cache n} {b : Sector → Block}
    (hc : Cache.Usable w.total c) (hb : ∀ s, w.Stored s → c.current s = some (b s))
    (hmap : ∀ s, IsMap w.total s → c.current s = v.cache.current s)
    (hdirty : ∀ s, c.Dirty s → w.used s = true) :
    Shows { v with cache := c } { w with block := b } where
  sound := { h.sound with cache := by rw [← h.total] at hc; exact hc }
  written := by
    rw [← h.total] at hmap
    exact h.written.congr h.sound.limit hmap
  tidy := h.tidy
  dirty := hdirty
  total := h.total
  used := h.used
  node := h.node
  loaded := h.loaded
  block := fun s hs => by simp only [view, hb s hs, Option.getD_some]

theorem Yields.onCache {α : Type} {x : CacheM n α} {post : α → Volume n → Prop}
    (h : Yields faults x v.cache fun a c => post a { v with cache := c }) :
    Yields faults (onCache x) v post := by
  unfold Yields at h ⊢
  simp only [Volume.onCache]
  cases hx : x v.cache with
  | ok a c => simpa only [hx] using h
  | error e c => simpa only [hx] using h

theorem Yields.of_onCache {α : Type} {x : CacheM n α} {post : α → Volume n → Prop}
    (h : Yields faults (Volume.onCache x) v post) :
    Yields faults x v.cache fun a c => post a { v with cache := c } := by
  unfold Yields at h ⊢
  simp only [Volume.onCache] at h
  cases hx : x v.cache with
  | ok a c => simpa only [hx] using h
  | error e c => simpa only [hx] using h

theorem Yields.onMap {α : Type} {x : EStateM Fault FreeMap α} {post : α → Volume n → Prop}
    (h : Yields faults x v.map fun a m => post a { v with map := m }) :
    Yields faults (onMap x) v post := by
  unfold Yields at h ⊢
  simp only [Volume.onMap]
  cases hx : x v.map with
  | ok a m => simpa only [hx] using h
  | error e m => simpa only [hx] using h

/-! ### Programs on the cache of a volume -/

theorem onCache_pure {α : Type} (a : α) : (onCache (pure a) : VolumeM n α) = pure a := by
  funext v
  rfl

theorem onCache_bind {α β : Type} (x : CacheM n α) (f : α → CacheM n β) :
    onCache (x >>= f) = onCache x >>= fun a => onCache (f a) := by
  funext v
  simp only [onCache, Bind.bind, EStateM.bind]
  cases x v.cache <;> rfl

theorem onCache_ofExcept {α : Type} (y : Except Fault α) :
    (onCache (ofExcept y) : VolumeM n α) = ofExcept y := by
  funext v
  cases y <;> rfl

/-! ### Sectors -/

theorem readSector_does (hs : w.Stored s) :
    Does Shows faults (onCache (n := n) (Cache.readSector s)) w fun b w' =>
      b = w.block s ∧ w' = w := by
  intro v h
  refine Yields.onCache ((Cache.readSector_yields h.coherent h.usable.ready (by simp)
    (h.current hs)).mono ?_)
  rintro b c ⟨rfl, hc, hf⟩
  refine ⟨w, h.withCache (h.usable.of_changes hc hf.changes_current) (fun t ht => ?_)
    (fun t ht => ?_) fun t ht => h.dirty t (hf.dirty t ht), rfl, rfl⟩
  · rw [hf.current t (h.usable.blockCount.symm ▸ h.lt ht.1), h.current ht]
  · rw [hf.current t (h.usable.blockCount.symm ▸ h.lt_of_isMap ht)]

theorem read_does (hs : w.Stored s) {offset count : Nat} (hrange : offset + count ≤ sectorSize) :
    Does Shows faults (onCache (n := n) (Cache.read s offset count)) w fun bytes w' =>
      bytes = Block.slice (w.block s) offset count ∧ w' = w := by
  unfold Cache.read
  rw [onCache_bind, onCache_ofExcept]
  refine Does.bind (Does.ofExcept (Cache.checkRange_eq_ok hrange) ?_)
  rw [onCache_bind]
  refine Does.andThen (readSector_does hs) ?_
  rintro b w' ⟨rfl, rfl⟩
  rw [onCache_pure]
  exact Does.pure ⟨rfl, rfl⟩

theorem write_does (hs : w.Stored s) {offset : Nat} {bytes : Bytes}
    (hrange : offset + bytes.length ≤ sectorSize) :
    Does Shows faults (onCache (n := n) (Cache.write s offset bytes)) w fun _ w' =>
      w' = w.put s (Block.overlay (w.block s) offset bytes) := by
  intro v h
  refine Yields.onCache ((Cache.write_yields h.coherent h.usable.ready (by simp) (h.current hs)
    hrange).mono ?_)
  rintro - c ⟨hc, hch, -⟩
  have hcur := fun t (ht : t.block < w.total) => hch.current t (h.usable.blockCount.symm ▸ ht)
  refine ⟨_, h.withCache (h.usable.of_changes hc hch) (fun t ht => ?_) (fun t ht => ?_)
    fun t ht => ?_, rfl⟩
  · rw [hcur t (h.lt ht.1)]
    by_cases hts : t = s
    · rw [hts, if_pos rfl, Function.update_self]
    · rw [if_neg hts, Function.update_of_ne hts, h.current ht]
  · have hts : t ≠ s := fun hts => hs.2 (hts ▸ ht)
    rw [hcur t (h.lt_of_isMap ht), if_neg hts]
  · rcases hch.dirty t ht with hdirty | hts
    · exact h.dirty t hdirty
    · exact (Set.mem_singleton_iff.mp hts) ▸ hs.1

theorem writeSector_does (hs : w.Stored s) (contents : Block) :
    Does Shows faults (onCache (n := n) (Cache.writeSector s contents)) w fun _ w' =>
      w' = w.put s contents := by
  unfold Cache.writeSector
  refine (write_does hs (by simp)).mono ?_
  rintro - w' rfl
  rw [Block.overlay_toList]

theorem zero_does (hs : w.Stored s) :
    Does Shows faults (onCache (n := n) (Cache.zero s)) w fun _ w' => w' = w.put s Block.zero := by
  unfold Cache.zero
  exact writeSector_does hs Block.zero

theorem store_does (hs : w.Stored s) (record : Record) :
    Does Shows faults (onCache (n := n) (store s record)) w fun _ w' =>
      w' = w.put s record.toBlock := by
  unfold store
  exact writeSector_does hs record.toBlock

theorem fetch_does (hs : w.Stored s) (hvalid : (Record.ofBlock (w.block s)).isValid) :
    Does Shows faults (onCache (n := n) (fetch s)) w fun record w' =>
      record = Record.ofBlock (w.block s) ∧ w' = w := by
  unfold fetch
  rw [onCache_bind]
  refine Does.andThen (readSector_does hs) ?_
  rintro b w' ⟨rfl, rfl⟩
  rw [onCache_ofExcept]
  exact Does.ofExcept (by rw [Record.validate, if_pos hvalid]) ⟨rfl, rfl⟩

end Volume
end TieredVolume
