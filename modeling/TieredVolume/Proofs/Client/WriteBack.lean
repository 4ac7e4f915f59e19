import TieredVolume.Proofs.Client.Course
import TieredVolume.Proofs.Client.Requests

/-!
What the cache still has to write to the device. Whatever a client asked for, it is the contents of
sectors in use: what was cached of a sector is dropped when the sector is given back, so that
nothing which the cache does later can write to it before it is set aside again.
-/
namespace TieredVolume

variable {n : Nat} {v : Volume n} {w : View} {s : Sector}

/-- A sector of the volume that the free map has as free. -/
def Volume.Free (v : Volume n) (s : Sector) : Prop :=
  s.block < v.map.total ∧ v.map.isUsed s.block = false

namespace Cache

variable {blocks : Nat} {c c' : Cache n} {u : Use}

/-- Nothing is written to a sector that is clean, whatever else is. -/
theorem Use.block?_of_not_dirty (h : Usable blocks c) (hu : u.Fits blocks) (hs : ¬ c.Dirty s)
    {bytes : Bytes} (hrun : u.run c = .ok bytes c') :
    c'.device.block? s.block = c.device.block? s.block := by
  obtain ⟨-, -, hstep⟩ := (run_yields h hu).of_ok hrun
  exact (hstep.device s).elim id fun hdev => hdev.trans (h.coherent.current_eq_block? hs)

theorem evict_block?_of_not_dirty (h : Usable blocks c) (hs : ¬ c.Dirty s) {i : Fin n}
    (hrun : evict c = .ok i c') : c'.device.block? s.block = c.device.block? s.block := by
  have hevict : Yields never evict c _ := evict_yields h.coherent h.ready (by simp)
  obtain ⟨-, hf, -⟩ := hevict.of_ok hrun
  exact (hf.device s).elim id fun hdev => hdev.trans (h.coherent.current_eq_block? hs)

end Cache

namespace Volume.Shows

variable (h : v.Shows w)

include h

theorem isUsed_of_dirty (hs : v.cache.Dirty s) :
    s.block < v.map.total ∧ v.map.isUsed s.block = true := by
  have htotal : v.map.total = w.total := h.total
  have hused := h.used_iff.mp (h.dirty s hs)
  exact ⟨htotal ▸ hused.1, hused.2⟩

theorem not_dirty_of_free (hs : v.Free s) : ¬ v.cache.Dirty s := fun hd => by
  have hused := (h.isUsed_of_dirty hd).2
  rw [hs.2] at hused
  cases hused

end Volume.Shows

namespace Inode

variable {nd : Node} {r : Record} {S : Shelf} {total : Nat} {faults : Fault → Prop}

/-- The record of an inode is written when its last load ends, and only to the cache. -/
theorem unload_dirties (hv : v.Shows w) (hn : w.node s = some nd) (hl : w.loaded s = some r)
    (hs : w.Stored s) : Yields faults (unload (n := n) s) v fun _ v' => v'.cache.Dirty s := by
  refine (node_does hn v hv).andThen ?_
  rintro nd' v₁ ⟨w₁, hv₁, rfl, rfl⟩
  rw [hl]
  refine Yields.bind (Yields.modify (Volume.Yields.onCache ?_))
  refine (Cache.writeSector_yields hv₁.coherent hv₁.usable.ready (by simp) (hv₁.current hs)
    r.toBlock).mono ?_
  exact fun _ _ hwritten => hwritten.2.2

theorem length_dirties (hv : Stores total v S) (hs : s ∈ S.live) (hn : S.node s = some nd) :
    Yields faults (length (n := n) s) v fun _ v' => v'.cache.Dirty s := by
  obtain ⟨w, hvw, hw⟩ := hv
  refine (load_held hw hs hn v hvw).andThen ?_
  rintro - v₁ ⟨w₁, hv₁, hw₁⟩
  obtain ⟨r, hr⟩ := hw₁.loaded
  have hn₁ : w₁.node s = some nd := by rw [hw₁.node, hn]
  have hbody : Does Volume.Shows faults (do return (← record (n := n) s).length.toNat) w₁
      fun _ w' => w' = w₁ :=
    Does.andThen (record_does hn₁ hr) fun _ _ hrecord => Does.pure hrecord.2
  refine (hbody v₁ hv₁).andThen ?_
  rintro k v₂ ⟨w₂, hv₂, rfl⟩
  refine (unload_dirties hv₂ hn₁ hr (hw₁.forest.header_stored hs)).andThen ?_
  exact fun _ _ hdirty => Yields.pure hdirty

end Inode

namespace Client

variable {device : Device} {options : MountOptions} {volume : Volume cacheCapacity} {c : Client}

/-- Between two requests the sectors that are dirty in the cache are in use, and what is cached of a
free sector is what the device holds. So neither an eviction nor a flush, nor anything else that the
cache is used for, writes to a sector that is free. -/
theorem Runs.write_back (hd : device.Sound) (hlimit : device.blockCount < sectorLimit)
    (hformat : options.format = true) (hmount : Volume.mount device options = .ok (.ok volume))
    (h : Runs Request.Careful { volume } c) :
    (∀ s, c.volume.cache.Dirty s →
      s.block < c.volume.map.total ∧ c.volume.map.isUsed s.block = true) ∧
    (∀ i s, (c.volume.cache.slot i).sector = some s → c.volume.Free s →
      (c.volume.cache.slot i).dirty = false ∧
        c.volume.cache.device.block? s.block = some (c.volume.cache.slot i).data) ∧
    ∀ s, c.volume.Free s →
      (∀ i after, Cache.evict c.volume.cache = .ok i after →
        after.device.block? s.block = c.volume.cache.device.block? s.block) ∧
      (∀ after, Cache.flushAll c.volume.cache = .ok () after →
        after.device.block? s.block = c.volume.cache.device.block? s.block) ∧
      ∀ u : Cache.Use, u.Fits c.volume.map.total → ∀ bytes after, u.run c.volume.cache = .ok bytes after →
        after.device.block? s.block = c.volume.cache.device.block? s.block := by
  obtain ⟨⟨w, hvw, -⟩, -⟩ := h.stands hd hlimit hformat hmount
  have husable := hvw.sound.cache
  have hclean : ∀ i s, (c.volume.cache.slot i).sector = some s → c.volume.Free s →
      (c.volume.cache.slot i).dirty = false := fun i s hi hs => by
    by_contra hd
    exact hvw.not_dirty_of_free hs ⟨i, hi, by simpa using hd⟩
  refine ⟨fun s => hvw.isUsed_of_dirty, fun i s hi hs => ⟨hclean i s hi hs,
    husable.coherent.clean i s (by simp) hi (hclean i s hi hs)⟩, fun s hs => ?_⟩
  have hnot := hvw.not_dirty_of_free hs
  refine ⟨fun i after => Cache.evict_block?_of_not_dirty husable hnot, fun after hrun => ?_,
    fun u hu bytes after => Cache.Use.block?_of_not_dirty husable hu hnot⟩
  have huse : Cache.Use.run .flushAll c.volume.cache = .ok [] after := by
    simp only [Cache.Use.run, bind, EStateM.bind, hrun, pure, EStateM.pure]
  exact Cache.Use.block?_of_not_dirty (u := .flushAll) husable trivial hnot huse

/-- After the length of a file was asked for, its header is dirty, which is in use. -/
theorem Runs.write_back_header : ∃ (device : Device) (options : MountOptions)
    (volume : Volume cacheCapacity) (c : Client) (s : Sector), device.Sound ∧
    device.blockCount < sectorLimit ∧ options.format = true ∧
    Volume.mount device options = .ok (.ok volume) ∧ Runs Request.Careful { volume } c ∧
    c.volume.cache.Dirty s ∧ c.volume.map.isUsed s.block = true ∧
    ∀ t, c.volume.Free t → ∀ after, Cache.flushAll c.volume.cache = .ok () after →
      after.device.block? t.block = c.volume.cache.device.block? t.block := by
  obtain ⟨c, s, hc, hheld, hw⟩ := exists_written
  obtain ⟨device, options, volume, hd, hlimit, hformat, hmount, hruns⟩ := hc.runs
    fun {c call} hcomes hcall => show Request.Careful c.volume.map.total _ _ (.call call) from
      hcomes.careful.stands.2.careful hcall.1
  obtain ⟨hv, hS⟩ := hc.careful.stands
  have hcall : (Call.length ⟨s, false, 0⟩).Careful c.shelf c.handles :=
    ⟨hheld ▸ List.mem_cons_self, fun _ _ h => by cases h⟩
  have hlength : Yields never (Inode.length s) c.volume _ := Inode.length_dirties hv hw.live hw.node
  obtain ⟨k, after, hrun, hdirty⟩ := hlength.ok_of_never
  have hanswer : (Call.length ⟨s, false, 0⟩).attempt.run c.volume = .ok (.ok (.count k)) after := by
    simp only [Call.attempt, Attempt.always, bind, EStateM.bind, hrun]
    rfl
  have hruns' := hruns.call hcall hanswer
  obtain ⟨hused, -, hfree⟩ := hruns'.write_back hd hlimit hformat hmount
  exact ⟨device, options, volume, _, s, hd, hlimit, hformat, hmount, hruns', hdirty,
    (hused s hdirty).2, fun t ht => (hfree t ht).2.1⟩

end Client
end TieredVolume
