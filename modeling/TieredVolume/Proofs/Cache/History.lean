import TieredVolume.Proofs.Cache.Access

/-!
Histories of a cache: whatever it was used for since it was empty, it is coherent, it answers every
further use, and what a use does is told by the current contents of the sectors alone. The device
may lag behind, but each of its blocks is what was current of it at some time.
-/
namespace TieredVolume
namespace Cache

variable {n : Nat}

/-- What a cache can be asked for. -/
inductive Use where
  | read (sector : Sector) (offset count : Nat)
  | write (sector : Sector) (offset : Nat) (bytes : Bytes)
  | zero (sector : Sector)
  | invalidate (sector : Sector)
  | flushAll
  | prefetch (sector : Sector)
  | startReadAhead
  | request (sector : Sector)
  | serveReadAhead
  | stopReadAhead

namespace Use

/-- Only a read hands out bytes. -/
def run : Use → CacheM n Bytes
  | read s offset count => Cache.read s offset count
  | write s offset bytes => do Cache.write s offset bytes; return []
  | zero s => do Cache.zero s; return []
  | invalidate s => do Cache.invalidate s; return []
  | flushAll => do Cache.flushAll; return []
  | prefetch s => do let _ ← Cache.prefetch s; return []
  | startReadAhead => do Cache.startReadAhead; return []
  | request s => do requestReadAhead s; return []
  | serveReadAhead => do Cache.serveReadAhead; return []
  | stopReadAhead => do Cache.stopReadAhead; return []

/-- The sector that a use is for, if it is for just one. -/
def sector? : Use → Option Sector
  | read s _ _ | write s _ _ | zero s | invalidate s | prefetch s => some s
  | flushAll | startReadAhead | request _ | serveReadAhead | stopReadAhead => none

/-- The use stays on a device of `blocks` blocks and inside a sector. -/
def Fits (blocks : Nat) : Use → Prop
  | read s offset count => s.block < blocks ∧ offset + count ≤ sectorSize
  | write s offset bytes => s.block < blocks ∧ offset + bytes.length ≤ sectorSize
  | zero s | invalidate s | prefetch s | request s => s.block < blocks
  | flushAll | startReadAhead | serveReadAhead | stopReadAhead => True

/-- What the use hands out. -/
def answer (c : Cache n) : Use → Option Bytes
  | read s offset count => (c.current s).map (Block.slice · offset count)
  | _ => some []

/-- What is current of a sector after the use. -/
def next (c : Cache n) : Use → Sector → Option Block
  | write s offset bytes, t =>
    if t = s then (c.current s).map (Block.overlay · offset bytes) else c.current t
  | zero s, t => if t = s then some Block.zero else c.current t
  | invalidate s, t => if t = s then c.device.block? s.block else c.current t
  | _, t => c.current t

end Use

/-- A cache over a device of `blocks` blocks that is coherent and can go on. -/
structure Usable (blocks : Nat) (c : Cache n) : Prop where
  coherent : Coherent ∅ c
  ready : c.Ready
  blockCount : c.device.blockCount = blocks
  queue : ∀ s ∈ c.readAhead.pending, s.block < blocks

variable {blocks : Nat} {c c' : Cache n} {u : Use}

theorem Usable.withQueue (h : Usable blocks c) {q : ReadAhead}
    (hq : ∀ s ∈ q.pending, s.block < blocks) : Usable blocks (withQueue q c) :=
  ⟨h.coherent.withQueue q, h.ready, h.blockCount, hq⟩

theorem Usable.of_changes {touched : Set Sector} {next : Sector → Option Block}
    (h : Usable blocks c) (hc : Coherent ∅ c') (hch : Changes touched next c c') :
    Usable blocks c' := by
  obtain ⟨i, hi⟩ := h.ready
  exact ⟨hc, ⟨i, (hch.evictable i).trans hi⟩, hch.blockCount.trans h.blockCount,
    fun s hs => h.queue s (hch.readAhead ▸ hs)⟩

theorem Faithful.changes_current (h : Faithful c c') : Changes ∅ c.current c c' :=
  ⟨h.blockCount, h.readAhead, h.evictable, h.current, h.device, fun t ht => .inl (h.dirty t ht)⟩

/-- What a use leaves: contents as `next` tells, and device blocks that were current before. -/
structure Stepped (next : Sector → Option Block) (c c' : Cache n) : Prop where
  evictable : ∀ i, (c'.slot i).evictable = (c.slot i).evictable
  current : ∀ t, c'.current t = next t
  device : ∀ t : Sector, c'.device.block? t.block = c.device.block? t.block ∨
    c'.device.block? t.block = c.current t

theorem Changes.stepped {pending : Set (Fin n)} {touched : Set Sector}
    {next : Sector → Option Block} (hc : Coherent pending c') (h : Changes touched next c c')
    (hout : ∀ t : Sector, c.device.blockCount ≤ t.block → next t = none) : Stepped next c c' := by
  refine ⟨h.evictable, fun t => ?_, h.device⟩
  by_cases ht : t.block < c.device.blockCount
  · exact h.current t ht
  · rw [hout t (Nat.not_lt.mp ht), hc.current_eq_none (by rw [h.blockCount]; omega)]

/-- No use brings contents past the end of the device. -/
theorem Use.next_eq_none {pending : Set (Fin n)} {t : Sector} (h : Coherent pending c)
    (hu : u.Fits c.device.blockCount) (ht : c.device.blockCount ≤ t.block) : u.next c t = none := by
  have hnone := h.current_eq_none ht
  have hother : ∀ {s : Sector}, s.block < c.device.blockCount → t ≠ s := by
    intro s hs hts
    rw [hts] at ht
    exact Nat.not_lt.mpr ht hs
  cases u with
  | write s offset bytes => exact (if_neg (hother hu.1)).trans hnone
  | zero s | invalidate s => exact (if_neg (hother hu)).trans hnone
  | read | prefetch | request | flushAll | startReadAhead | serveReadAhead | stopReadAhead =>
    exact hnone

/-- A use that is for one sector is answered also while some slots wait for their contents, and
does what the current contents say. -/
theorem Use.sector_yields {pending : Set (Fin n)} {s : Sector} {faults : Fault → Prop}
    (h : Coherent pending c) (hready : c.Ready)
    (hpending : ∀ i ∈ pending, (c.slot i).evictable = false) (hs : u.sector? = some s)
    (hu : u.Fits c.device.blockCount) :
    Yields faults u.run c fun bytes c' =>
      Coherent pending c' ∧ u.answer c = some bytes ∧ Changes {s} (u.next c) c c' := by
  have hcur : ∀ {s : Sector}, s.block < c.device.blockCount → ∃ b, c.current s = some b :=
    fun hs => h.exists_current hs
  cases u with
  | read s' offset count =>
    obtain ⟨b, hb⟩ := hcur hu.1
    refine (read_yields h hready hpending hb hu.2).mono ?_
    rintro bytes c' ⟨rfl, hc, hf⟩
    exact ⟨hc, by rw [answer, hb]; rfl, hf.changes_current.mono (Set.empty_subset _)⟩
  | write s' offset bytes =>
    cases hs
    obtain ⟨b, hb⟩ := hcur hu.1
    refine Yields.andThen (write_yields h hready hpending hb hu.2) ?_
    rintro - c' ⟨hc, hch, -⟩
    refine Yields.pure ⟨hc, rfl, { hch with current := fun t ht => ?_ }⟩
    rw [hch.current t ht, next, hb]
    rfl
  | zero s' =>
    cases hs
    obtain ⟨b, hb⟩ := hcur hu
    refine Yields.andThen (zero_yields h hready hpending hb) ?_
    rintro - c' ⟨hc, hch, -⟩
    exact Yields.pure ⟨hc, rfl, hch⟩
  | invalidate s' =>
    cases hs
    refine Yields.andThen (invalidate_yields h s) ?_
    rintro - c' ⟨hc, -, hch, -⟩
    exact Yields.pure ⟨hc, rfl, hch.mono (Set.empty_subset _)⟩
  | prefetch s' =>
    obtain ⟨b, hb⟩ := hcur hu
    refine Yields.andThen (prefetch_yields h hready hpending hb) ?_
    rintro - c' ⟨hc, hf, -⟩
    exact Yields.pure ⟨hc, rfl, hf.changes_current.mono (Set.empty_subset _)⟩
  | flushAll | startReadAhead | request | serveReadAhead | stopReadAhead => cases hs

/-- Every use that fits is answered, and does what the current contents say. -/
theorem Use.run_yields (h : Usable blocks c) (hu : u.Fits blocks) :
    Yields never u.run c fun bytes c' =>
      Usable blocks c' ∧ u.answer c = some bytes ∧ Stepped (u.next c) c c' := by
  rw [← h.blockCount] at hu
  have hnone : ∀ t : Sector, c.device.blockCount ≤ t.block → u.next c t = none := fun t ht =>
    next_eq_none h.coherent hu ht
  have hqueue : ∀ q : ReadAhead, (∀ s ∈ q.pending, s.block < blocks) →
      Usable blocks (Cache.withQueue q c) ∧ some [] = some ([] : Bytes) ∧
        Stepped c.current c (Cache.withQueue q c) := fun q hq =>
    ⟨h.withQueue hq, rfl, fun _ => rfl, fun _ => rfl, fun _ => .inl rfl⟩
  cases hs : u.sector? with
  | some s =>
    refine (sector_yields h.coherent h.ready (by simp) hs hu).mono ?_
    rintro bytes c' ⟨hc, hanswer, hch⟩
    exact ⟨h.of_changes hc hch, hanswer, hch.stepped hc hnone⟩
  | none =>
    cases u with
    | read | write | zero | invalidate | prefetch => cases hs
    | flushAll =>
      refine Yields.andThen (flushAll_yields h.coherent) ?_
      rintro - c' ⟨hc, hf, -⟩
      exact Yields.pure ⟨h.of_changes hc hf.changes_current, rfl,
        hf.changes_current.stepped hc hnone⟩
    | startReadAhead =>
      exact Yields.bind (Yields.modify
        (Yields.pure (hqueue { c.readAhead with active := true } h.queue)))
    | request s =>
      refine Yields.bind (Yields.modify
        (Yields.pure (hqueue (c.readAhead.request s) fun t ht => ?_)))
      rcases mem_pending_request ht with hmem | rfl
      · exact h.queue t hmem
      · exact h.blockCount ▸ hu
    | serveReadAhead =>
      refine Yields.bind (Yields.bind (Yields.get ?_))
      refine (serveRequests_yields h.coherent h.ready _ fun s hs =>
        h.blockCount ▸ h.queue s hs).mono ?_
      rintro - c' ⟨hc, hf⟩
      have hq := h.withQueue (q := ReadAhead.without c.readAhead c.readAhead.pending)
        fun s hs => h.queue s (List.mem_filter.mp hs).1
      have hstep := hf.changes_current.stepped hc hnone
      exact Yields.pure ⟨hq.of_changes hc hf.changes_current, rfl, hstep.evictable, hstep.current,
        hstep.device⟩
    | stopReadAhead =>
      exact Yields.bind (Yields.modify (Yields.pure (hqueue {} (by simp))))

/-- The caches that come of a fresh one over `device` by uses that fit, with all that came before,
newest first. -/
inductive History (device : Device) : List (Cache n) → Cache n → Prop where
  | fresh {c : Cache n} : Cache.fresh n device = .ok c → History device [] c
  | step {past : List (Cache n)} {c c' : Cache n} {u : Use} {bytes : Bytes} :
    History device past c → u.Fits device.blockCount → u.run c = .ok bytes c' →
    History device (c :: past) c'

variable {device : Device} {past : List (Cache n)}

theorem slot_fresh (hc : Cache.fresh n device = .ok c) (i : Fin n) : c.slot i = {} := by
  unfold Cache.fresh at hc
  split at hc
  · rw [← Except.ok.inj hc]
    simp [slot, Vector.get]
  · cases hc

/-- Nothing is dirty in a fresh cache. -/
theorem not_dirty_fresh (hc : Cache.fresh n device = .ok c) (t : Sector) : ¬ c.Dirty t := by
  rintro ⟨i, hi, -⟩
  rw [slot_fresh hc] at hi
  cases hi

theorem usable_fresh (hd : device.Sound) (hc : Cache.fresh n device = .ok c) :
    Usable device.blockCount c ∧ ∀ t, c.current t = device.block? t.block ∧ c.device = device := by
  have hslot := slot_fresh hc
  unfold Cache.fresh at hc
  split at hc
  · rename_i hn
    have hc₀ := (Except.ok.inj hc).symm
    have htag : ∀ i, c.tags.get i = none := fun i => by simp [hc₀, Vector.get]
    have hdevice : c.device = device := by rw [hc₀]
    have hempty : ∀ i s, (c.slot i).sector ≠ some s := fun i s hi => by
      rw [hslot] at hi
      cases hi
    have hcoh : Coherent ∅ c := ⟨hdevice ▸ hd, fun i => by rw [htag, hslot],
      fun i _ s hi => absurd hi (hempty i s), fun i s hi => absurd hi (hempty i s),
      fun i s _ hi => absurd hi (hempty i s)⟩
    refine ⟨⟨hcoh, ⟨⟨0, hn⟩, by rw [hslot]; rfl⟩, by rw [hdevice], by simp [hc₀]⟩, fun t => ?_⟩
    refine ⟨?_, hdevice⟩
    rw [hcoh.current_uncached fun i => hempty i t, hdevice]
  · cases hc

/-- What holds all along a history: the cache can be used, and the device holds of every sector
what was current of it at some time. -/
theorem History.usable (hd : device.Sound) (h : History device past c) :
    Usable device.blockCount c ∧
      ∀ t : Sector, ∃ e ∈ c :: past, c.device.block? t.block = e.current t := by
  induction h with
  | fresh hc =>
    obtain ⟨husable, hcur⟩ := usable_fresh hd hc
    refine ⟨husable, fun t => ⟨_, List.mem_cons_self, ?_⟩⟩
    rw [(hcur t).1, (hcur t).2]
  | @step past c c' u bytes _ hfits hrun ih =>
    obtain ⟨husable, hpast⟩ := ih
    obtain ⟨husable', -, hstep⟩ := (Use.run_yields husable hfits).of_ok hrun
    refine ⟨husable', fun t => ?_⟩
    rcases hstep.device t with hdev | hdev
    · obtain ⟨e, he, hcur⟩ := hpast t
      exact ⟨e, List.mem_cons_of_mem _ he, hdev.trans hcur⟩
    · exact ⟨c, List.mem_cons_of_mem _ List.mem_cons_self, hdev⟩

/-- Coherence along every history. The tags and slots tell what is current; every use is answered
from that and changes it as `next` says; device blocks were current once, those of clean sectors
are; and a flush leaves nothing for a second one to do, on whatever device. -/
theorem History.coherence (hd : device.Sound) (h : History device past c) :
    (∀ i, c.tags.get i = (c.slot i).sector) ∧
    (∀ i j s, (c.slot i).sector = some s → (c.slot j).sector = some s → i = j) ∧
    (∀ i s, (c.slot i).sector = some s → c.current s = some (c.slot i).data) ∧
    (∀ s, (∀ i, (c.slot i).sector ≠ some s) → c.current s = c.device.block? s.block) ∧
    (∀ u : Use, u.Fits device.blockCount → ∃ bytes c', u.run c = .ok bytes c' ∧
      u.answer c = some bytes ∧ ∀ t, c'.current t = u.next c t) ∧
    (∀ s : Sector, ∃ e ∈ c :: past, c.device.block? s.block = e.current s) ∧
    (∀ i s, (c.slot i).sector = some s → (c.slot i).dirty = false →
      c.device.block? s.block = some (c.slot i).data) ∧
    (∀ c', flushAll c = .ok () c' → (∀ s : Sector, c'.device.block? s.block = c'.current s) ∧
      ∀ d, flushAll { c' with device := d } = .ok () { c' with device := d }) := by
  obtain ⟨husable, hpast⟩ := h.usable hd
  have hc := husable.coherent
  refine ⟨hc.tags, hc.unique, fun i s => hc.current_cached, fun s => hc.current_uncached,
    fun u hu => ?_, hpast, fun i s => hc.clean i s (by simp), fun c' hrun => ?_⟩
  · obtain ⟨bytes, c', hrun, -, hanswer, hstep⟩ := (Use.run_yields husable hu).ok_of_never
    exact ⟨bytes, c', hrun, hanswer, hstep.current⟩
  · have hflush : Yields never flushAll c _ := flushAll_yields hc
    obtain ⟨hc', -, hclean⟩ := hflush.of_ok hrun
    exact ⟨fun s => (hc'.current_eq_block? (hclean s)).symm, fun d => flushAll_eq_self hclean⟩

theorem History.coherence_blank : ∃ c : Cache 1,
    Cache.fresh 1 (.memory (MemoryDisk.blank 2)) = .ok c ∧ ∀ u : Use, u.Fits 2 →
      ∃ bytes c', u.run c = .ok bytes c' ∧ u.answer c = some bytes ∧
        ∀ t, c'.current t = u.next c t :=
  ⟨_, rfl, (History.coherence (show (Device.memory (MemoryDisk.blank 2)).Sound from trivial)
    (.fresh rfl)).2.2.2.2.1⟩

end Cache
end TieredVolume
