import TieredVolume.Proofs.Cache.Coherence

/-!
What the operations of a cache do to the current contents of sectors. Each of them answers on a
coherent cache of which some slot can be given away; reads hand out what is current, writes change
the sector they name, and the write-backs that either causes change nothing.
-/
namespace TieredVolume
namespace Cache

variable {n : Nat} {c c' : Cache n} {pending : Set (Fin n)} {s t : Sector} {i : Fin n}
  {faults : Fault → Prop}

/-- Another device with the same contents makes no difference. -/
theorem Coherent.redevice (h : Coherent pending c) {d : Device} (hsound : d.Sound)
    (hcount : d.blockCount = c.device.blockCount) (hblock : ∀ k, d.block? k = c.device.block? k) :
    Coherent pending { c with device := d } ∧ Faithful c { c with device := d } := by
  refine ⟨⟨hsound, h.tags, h.unique, fun i s hi => hcount ▸ h.onDevice i s hi,
    fun i s hp hi hd => (hblock _).trans (h.clean i s hp hi hd)⟩, hcount, rfl, fun _ => rfl,
    fun t _ => ?_, fun t => .inl (hblock _), fun t ht => ht⟩
  simp only [current, hblock]
  rfl

/-- A slot that was found or made for `s`; filled with `b` it is what the cache was before. -/
structure Acquired (pending : Set (Fin n)) (s : Sector) (b : Block) (c : Cache n) (i : Fin n)
    (missed : Bool) (c' : Cache n) : Prop where
  sector : (c'.slot i).sector = some s
  coherent : Coherent pending (fillSlot i b c')
  faithful : Faithful c (fillSlot i b c')
  hit : missed = false → fillSlot i b c' = c'
  miss : missed = true → c'.device.block? s.block = some b

section Acquire

variable {b : Block} (h : Coherent pending c) (hready : c.Ready)
  (hpending : ∀ i ∈ pending, (c.slot i).evictable = false) (hb : c.current s = some b)

include h hready hpending

/-- The slot that is freed is clean, and freeing it changes no contents. -/
theorem evict_yields : Yields faults (evict (n := n)) c fun i c' => Coherent pending c' ∧
    Faithful c c' ∧ i ∉ pending ∧ (c'.slot i).evictable ∧
    ((c'.slot i).sector ≠ none → (c'.slot i).dirty = false) ∧
    ∀ j s, (c'.slot j).sector = some s → (c.slot j).sector = some s := by
  obtain ⟨i, c₁, hfind, hm, hi⟩ := findVictim_spec hready
  have h₁ := h.marked hm
  have hip : i ∉ pending := fun hip => by
    rw [hm.evictable, hpending i hip] at hi
    cases hi
  refine Yields.bind (Yields.modifyGet ?_)
  rw [hfind]
  refine Yields.andThen (flushSlot_yields h₁) ?_
  rintro - c₂ ⟨h₂, hf, hw⟩
  refine Yields.pure ⟨h₂, hm.faithful.trans h h₁ hf, hip, (hf.evictable i).trans hi, hw.done, ?_⟩
  intro j s hj
  rw [hw.sector] at hj
  obtain ⟨m, hmark⟩ := hm.slot j
  rwa [hmark] at hj

include hb

theorem acquire_yields : Yields faults (acquire s) c fun r c' =>
    Acquired pending s b c r.1 r.2 c' := by
  have hs : s.block < c.device.blockCount := by
    by_contra hge
    rw [h.current_eq_none (Nat.not_lt.mp hge)] at hb
    cases hb
  refine Yields.bind (Yields.get ?_)
  split
  · rename_i i hfind
    have hi := h.find?_eq_some_iff.mp hfind
    have hdata : (c.slot i).data = b := Option.some.inj ((h.current_cached hi).symm.trans hb)
    have hself : fillSlot i b c = c := updateSlot_eq_self (by rw [← hdata])
    exact Yields.pure ⟨hi, hself.symm ▸ h, hself.symm ▸ Faithful.refl c, fun _ => hself, nofun⟩
  · rename_i hfind
    refine Yields.andThen (evict_yields h hready hpending) ?_
    rintro i c₁ ⟨h₁, hf, hip, hevict, hclean, hsub⟩
    have hun : ∀ j, (c.slot j).sector ≠ some s := h.find?_eq_none_iff.mp hfind
    have hun₁ : ∀ j, (c₁.slot j).sector ≠ some s := fun j hj => hun j (hsub j s hj)
    have hb₁ : c₁.device.block? s.block = some b := by
      rw [← h₁.current_uncached hun₁, hf.current s hs, hb]
    refine Yields.bind (Yields.modify (Yields.pure ?_))
    refine ⟨by rw [slot_bindSlot, if_pos rfl]; rfl, h₁.bound hun₁ hb₁,
      hf.trans h h₁ (h₁.faithful_bound hip hevict hclean hun₁ hb₁), nofun, fun _ => hb₁⟩

end Acquire

/-- Filling a slot from the device brings in what is current. -/
theorem fill_yields {b : Block} (hs : s.block < c'.device.blockCount)
    (hb : c'.device.block? s.block = some b) (hcoh : Coherent pending (fillSlot i b c')) :
    Yields faults (fill i s) c' fun _ c'' =>
      Coherent pending c'' ∧ Faithful (fillSlot i b c') c'' ∧
      ∀ j, c''.slot j = (fillSlot i b c').slot j := by
  refine Yields.bind (Yields.onDevice ((Device.readBlock_yields hcoh.sound hs).mono ?_))
  rintro b' d ⟨hb', hsound, hcount, hblock⟩
  refine Yields.modify ?_
  have hbb : b' = b := Option.some.inj (hb'.symm.trans hb)
  subst hbb
  obtain ⟨h₁, hf₁⟩ := hcoh.redevice hsound hcount hblock
  exact ⟨h₁, hf₁, fun _ => rfl⟩

theorem checkRange_eq_ok {offset count : Nat} (hrange : offset + count ≤ sectorSize) :
    checkRange offset count = .ok () := by
  have hlimit : offset + count < offsetLimit := by
    simp only [sectorSize, offsetLimit] at *
    omega
  simp only [checkRange, addOffset, checkOffset, if_pos hlimit, bind, Except.bind, if_pos hrange]

section Access

variable {b : Block} (h : Coherent pending c) (hready : c.Ready)
  (hpending : ∀ i ∈ pending, (c.slot i).evictable = false) (hb : c.current s = some b)

include h hready hpending hb

/-- Bringing a sector in changes no contents and gives it a slot. -/
theorem prefetch_yields : Yields faults (prefetch s) c fun i c' => Coherent pending c' ∧
    Faithful c c' ∧ (c'.slot i).sector = some s := by
  refine Yields.andThen (acquire_yields h hready hpending hb) ?_
  rintro ⟨i, missed⟩ c₁ ha
  dsimp only at ha ⊢
  have hrest : ∀ c₂, Coherent pending c₂ → Faithful c c₂ → (c₂.slot i).sector = some s →
      Yields faults (do modify (updateSlot i Slot.touch); return i) c₂ fun i c' =>
        Coherent pending c' ∧ Faithful c c' ∧ (c'.slot i).sector = some s := by
    intro c₂ h₂ hf hi
    have hm := marked_touch c₂ i
    refine Yields.bind (Yields.modify (Yields.pure ⟨h₂.marked hm, hf.trans h h₂ hm.faithful, ?_⟩))
    rw [slot_updateSlot, if_pos rfl]
    exact hi
  cases missed with
  | false =>
    have hself := ha.hit rfl
    exact hrest c₁ (hself ▸ ha.coherent) (hself ▸ ha.faithful) ha.sector
  | true =>
    have hs₁ : s.block < c₁.device.blockCount := ha.coherent.onDevice i s
      (by rw [slot_fillSlot, if_pos rfl]; exact ha.sector)
    refine Yields.andThen (fill_yields hs₁ (ha.miss rfl) ha.coherent) ?_
    rintro - c₂ ⟨h₂, hf, hslot⟩
    refine hrest c₂ h₂ (ha.faithful.trans h ha.coherent hf) ?_
    rw [hslot, slot_fillSlot, if_pos rfl]
    exact ha.sector

/-- Reading a sector hands out its current contents. -/
theorem readSector_yields : Yields faults (readSector s) c fun b' c' => b' = b ∧
    Coherent pending c' ∧ Faithful c c' := by
  have hs : s.block < c.device.blockCount := by
    by_contra hge
    rw [h.current_eq_none (Nat.not_lt.mp hge)] at hb
    cases hb
  refine Yields.andThen (prefetch_yields h hready hpending hb) ?_
  rintro i c₁ ⟨h₁, hf, hi⟩
  refine Yields.bind (Yields.get (Yields.pure ⟨?_, h₁, hf⟩))
  have hcur := h₁.current_cached hi
  rw [hf.current s hs, hb] at hcur
  exact (Option.some.inj hcur).symm

theorem read_yields {offset count : Nat} (hrange : offset + count ≤ sectorSize) :
    Yields faults (read s offset count) c fun bytes c' => bytes = Block.slice b offset count ∧
      Coherent pending c' ∧ Faithful c c' := by
  refine Yields.bind (Yields.ofExcept (checkRange_eq_ok hrange) ?_)
  refine Yields.andThen (readSector_yields h hready hpending hb) ?_
  rintro b' c₁ ⟨rfl, h₁, hf⟩
  exact Yields.pure ⟨rfl, h₁, hf⟩

/-- Writing lays the bytes over the current contents of one sector and makes it dirty. -/
theorem write_yields {offset : Nat} {bytes : Bytes}
    (hrange : offset + bytes.length ≤ sectorSize) :
    Yields faults (write s offset bytes) c fun _ c' => Coherent pending c' ∧
      Changes {s}
        (fun t => if t = s then some (Block.overlay b offset bytes) else c.current t) c c' ∧
      c'.Dirty s := by
  have hs : s.block < c.device.blockCount := by
    by_contra hge
    rw [h.current_eq_none (Nat.not_lt.mp hge)] at hb
    cases hb
  refine Yields.bind (Yields.ofExcept (checkRange_eq_ok hrange) ?_)
  refine Yields.andThen (acquire_yields h hready hpending hb) ?_
  rintro ⟨i, missed⟩ c₁ ha
  dsimp only at ha ⊢
  -- what is left to do once the slot holds what was current
  have hstore : ∀ c₂, Coherent pending c₂ → Faithful c c₂ → (c₂.slot i).sector = some s →
      Coherent pending (updateSlot i (·.store offset bytes) c₂) ∧ Changes {s}
        (fun t => if t = s then some (Block.overlay b offset bytes) else c.current t) c
        (updateSlot i (·.store offset bytes) c₂) ∧
      (updateSlot i (·.store offset bytes) c₂).Dirty s := by
    intro c₂ h₂ hf hi
    have hwritten : Changes {s} (fun t => if t = s then
          (c₂.current s).map (Block.overlay · offset bytes) else c₂.current t) c₂
        (updateSlot i (·.store offset bytes) c₂) := h₂.changes_stored hi
    have hchanges := hf.changes h h₂ hwritten
    refine ⟨h₂.stored, { hchanges with current := fun t ht => ?_ }, i, ?_⟩
    · rw [hchanges.current t ht, hf.current s hs, hb, hf.current t ht]
      rfl
    · rw [slot_updateSlot, if_pos rfl]
      exact ⟨hi, rfl⟩
  by_cases hfill : (missed && (decide (0 < offset) || decide (bytes.length < sectorSize))) = true
  · rw [if_pos hfill]
    have hmiss : missed = true := (Bool.and_eq_true_iff.mp hfill).1
    have hs₁ : s.block < c₁.device.blockCount := ha.coherent.onDevice i s
      (by rw [slot_fillSlot, if_pos rfl]; exact ha.sector)
    refine Yields.andThen (fill_yields hs₁ (ha.miss hmiss) ha.coherent) ?_
    rintro - c₂ ⟨h₂, hf, hslot⟩
    refine Yields.modify (hstore c₂ h₂ (ha.faithful.trans h ha.coherent hf) ?_)
    rw [hslot, slot_fillSlot, if_pos rfl]
    exact ha.sector
  · rw [if_neg hfill]
    refine Yields.modify ?_
    have hsame : updateSlot i (·.store offset bytes) (fillSlot i b c₁) =
        updateSlot i (·.store offset bytes) c₁ := by
      cases missed with
      | false => rw [ha.hit rfl]
      | true =>
        have hwhole : offset = 0 ∧ sectorSize ≤ bytes.length := by
          simp only [Bool.true_and, Bool.or_eq_true, decide_eq_true_eq, not_or, Nat.not_lt] at hfill
          exact ⟨by omega, hfill.2⟩
        rw [hwhole.1]
        exact updateSlot_store_fillSlot hwhole.2
    rw [← hsame]
    refine hstore _ ha.coherent ha.faithful ?_
    rw [slot_fillSlot, if_pos rfl]
    exact ha.sector

theorem writeSector_yields (contents : Block) :
    Yields faults (writeSector s contents) c fun _ c' => Coherent pending c' ∧
      Changes {s} (fun t => if t = s then some contents else c.current t) c c' ∧ c'.Dirty s := by
  unfold writeSector
  refine (write_yields h hready hpending hb (by simp)).mono ?_
  rintro - c' ⟨h', hch, hdirty⟩
  rw [Block.overlay_toList] at hch
  exact ⟨h', hch, hdirty⟩

theorem zero_yields : Yields faults (zero s) c fun _ c' => Coherent pending c' ∧
    Changes {s} (fun t => if t = s then some Block.zero else c.current t) c c' ∧ c'.Dirty s := by
  unfold zero
  exact writeSector_yields h hready hpending hb Block.zero

end Access

/-- Forgetting a sector leaves it with what the device holds. -/
theorem invalidate_yields (h : Coherent pending c) (s : Sector) :
    Yields faults (invalidate s) c fun _ c' => Coherent pending c' ∧ ¬ c'.Dirty s ∧
      Changes ∅ (fun t => if t = s then c.device.block? s.block else c.current t) c c' ∧
      c'.device = c.device := by
  refine Yields.modify ?_
  split
  · rename_i i hfind
    have hi := h.find?_eq_some_iff.mp hfind
    refine ⟨h.cleared, ?_, h.changes_cleared hi, rfl⟩
    rintro ⟨j, hj, -⟩
    rw [slot_clearSlot] at hj
    split at hj
    · cases hj
    · rename_i hij
      exact hij (h.unique i j s hi hj)
  · rename_i hfind
    have hun := h.find?_eq_none_iff.mp hfind
    refine ⟨h, fun ⟨j, hj, _⟩ => hun j hj, ⟨rfl, rfl, fun _ => rfl, fun t _ => ?_,
      fun _ => .inl rfl, fun t ht => .inl ht⟩, rfl⟩
    split
    · rename_i hts
      rw [hts, h.current_uncached hun]
    · rfl

theorem flushSlots_yields (h : Coherent ∅ c) (is : List (Fin n)) :
    Yields faults (is.forM flushSlot) c fun _ c' => Coherent ∅ c' ∧ Faithful c c' ∧
      (∀ j, (c'.slot j).sector = (c.slot j).sector) ∧
      (∀ j, (c.slot j).dirty = false → (c'.slot j).dirty = false) ∧
      ∀ j ∈ is, (c'.slot j).sector ≠ none → (c'.slot j).dirty = false := by
  induction is generalizing c with
  | nil => exact Yields.pure ⟨h, Faithful.refl c, fun _ => rfl, fun _ => id, by simp⟩
  | cons i is ih =>
    change Yields faults (flushSlot i >>= fun _ => is.forM flushSlot) c _
    refine Yields.andThen (flushSlot_yields h) ?_
    rintro - c₁ ⟨h₁, hf₁, hw⟩
    refine (ih h₁).mono ?_
    rintro - c₂ ⟨h₂, hf₂, hsector, hkept, hdone⟩
    refine ⟨h₂, hf₁.trans h h₁ hf₂, fun j => (hsector j).trans (hw.sector j),
      fun j hj => hkept j (hw.clean j hj), fun j hj hne => ?_⟩
    rcases List.mem_cons.mp hj with rfl | hj
    · exact hkept j (hw.done (by rwa [hsector] at hne))
    · exact hdone j hj hne

/-- After a flush nothing is dirty. -/
theorem flushAll_yields (h : Coherent ∅ c) : Yields faults flushAll c fun _ c' =>
    Coherent ∅ c' ∧ Faithful c c' ∧ ∀ t, ¬ c'.Dirty t := by
  refine (flushSlots_yields h (List.finRange n)).mono ?_
  rintro - c' ⟨h', hf, -, -, hdone⟩
  refine ⟨h', hf, ?_⟩
  rintro t ⟨j, hj, hd⟩
  rw [hdone j (List.mem_finRange j) (by simp [hj])] at hd
  cases hd

/-- There is nothing to write back of a slot that is empty or clean, whatever the device is. -/
theorem flushSlot_eq_self (hclean : (c.slot i).sector ≠ none → (c.slot i).dirty = false) :
    flushSlot i c = .ok () c := by
  have hget : (get : CacheM n (Cache n)) c = .ok c c := rfl
  cases hs : (c.slot i).sector with
  | none => simp only [flushSlot, bind, EStateM.bind, hget, hs, pure, EStateM.pure]
  | some s =>
    have hd : ¬ (c.slot i).dirty = true := by simp [hclean, hs]
    simp only [flushSlot, bind, EStateM.bind, hget, hs, if_neg hd, pure, EStateM.pure]

/-- Flushing a cache in which nothing is dirty does nothing, whatever the device is. -/
theorem flushAll_eq_self (hclean : ∀ t, ¬ c.Dirty t) : flushAll c = .ok () c := by
  have hidle : ∀ i, flushSlot i c = .ok () c := by
    intro i
    refine flushSlot_eq_self fun hne => ?_
    obtain ⟨s, hs⟩ := Option.ne_none_iff_exists'.mp hne
    simpa using fun hd => hclean s ⟨i, hs, hd⟩
  have hslots : ∀ is : List (Fin n), is.forM flushSlot c = .ok () c := by
    intro is
    induction is with
    | nil => rfl
    | cons i is ih =>
      change (flushSlot i >>= fun _ => is.forM flushSlot) c = _
      simp only [bind, EStateM.bind, hidle, ih]
  exact hslots _

/-! ### The queue of sectors to bring in -/

/-- The cache with another queue. -/
def withQueue (q : ReadAhead) (c : Cache n) : Cache n := { c with readAhead := q }

theorem Coherent.withQueue (h : Coherent pending c) (q : ReadAhead) :
    Coherent pending (withQueue q c) :=
  ⟨h.sound, h.tags, h.unique, h.onDevice, h.clean⟩

theorem Faithful.withQueue (h : Faithful c c') (q : ReadAhead) :
    Faithful (withQueue q c) (withQueue q c') :=
  ⟨h.blockCount, rfl, h.evictable, h.current, h.device, h.dirty⟩

theorem mem_pending_request {q : ReadAhead} (ht : t ∈ (q.request s).pending) :
    t ∈ q.pending ∨ t = s := by
  unfold ReadAhead.request at ht
  split at ht
  · exact .inl ht
  · split at ht
    · exact .inl ht
    · simpa using ht

/-- The queue without some sectors. -/
def ReadAhead.without (q : ReadAhead) (served : List Sector) : ReadAhead :=
  { q with pending := q.pending.filter (· ∉ served) }

/-- Serving requests changes no contents and takes them off the queue. -/
theorem serveRequests_yields (h : Coherent ∅ c) (hready : c.Ready) (served : List Sector)
    (hserved : ∀ s ∈ served, s.block < c.device.blockCount) :
    Yields faults (served.forM serveRequest) c fun _ c' => Coherent ∅ c' ∧
      Faithful (withQueue (ReadAhead.without c.readAhead served) c) c' := by
  induction served generalizing c with
  | nil =>
    refine Yields.pure ⟨h, ?_⟩
    have hqueue : ReadAhead.without c.readAhead [] = c.readAhead := by
      have hall : c.readAhead.pending.filter (· ∉ ([] : List Sector)) = c.readAhead.pending :=
        List.filter_eq_self.mpr (by simp)
      simp only [ReadAhead.without, hall]
    have hsame : withQueue (ReadAhead.without c.readAhead []) c = c := by
      rw [hqueue]
      rfl
    rw [hsame]
    exact Faithful.refl c
  | cons s rest ih =>
    change Yields faults (serveRequest s >>= fun _ => rest.forM serveRequest) c _
    obtain ⟨b, hb⟩ := h.exists_current (hserved s List.mem_cons_self)
    refine Yields.bind (Yields.andThen (prefetch_yields h hready (by simp) hb) ?_)
    rintro - c₁ ⟨h₁, hf, -⟩
    refine Yields.modify ?_
    let q : ReadAhead := { c₁.readAhead with pending := c₁.readAhead.pending.filter (· ≠ s) }
    refine (ih (c := withQueue q c₁) (h₁.withQueue q) (hf.ready hready) fun t ht => ?_).mono ?_
    · exact hf.blockCount ▸ hserved t (List.mem_cons_of_mem _ ht)
    · rintro - c₂ ⟨h₂, hf₂⟩
      refine ⟨h₂, Faithful.trans (h.withQueue _) (h₁.withQueue _)
        (hf.withQueue (ReadAhead.without c.readAhead (s :: rest))) ?_⟩
      have hqueue : ReadAhead.without q rest = ReadAhead.without c.readAhead (s :: rest) := by
        simp [ReadAhead.without, q, hf.readAhead, List.filter_filter, Bool.and_comm]
      rw [← hqueue]
      exact hf₂

end Cache
end TieredVolume
