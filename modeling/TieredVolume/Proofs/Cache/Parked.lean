import TieredVolume.Proofs.Cache.BringingIn
import TieredVolume.Proofs.Cache.Spared

/-!
Reads that wait for the device. Between its two halves a read holds a slot that is bound and locked
but has no contents yet. Every use for another sector is answered as if nobody waited, and the
second half finds the slot as the first left it.
-/
namespace TieredVolume
namespace Cache

variable {n blocks : Nat} {c c' : Cache n} {pending pending' : Set (Fin n)} {g s : Sector}
  {i j : Fin n} {b : Block} {u : Use} {count offset : Nat} {bytes : Bytes} {device : Device}
  {faults : Fault → Prop}

/-! ### The two halves of a read -/

/-- Slots other than those in `pending'` may hold what they held, or what the device holds. -/
theorem Coherent.reslot (h : Coherent pending c) (hsound : c'.device.Sound)
    (hcount : c'.device.blockCount = c.device.blockCount)
    (hblock : ∀ k, c'.device.block? k = c.device.block? k) (htags : c'.tags = c.tags)
    (hsector : ∀ j, (c'.slot j).sector = (c.slot j).sector)
    (hslot : ∀ j, j ∉ pending' → j ∉ pending ∧ c'.slot j = c.slot j ∨
      ∀ s, (c'.slot j).sector = some s → c'.device.block? s.block = some (c'.slot j).data) :
    Coherent pending' c' where
  sound := hsound
  tags := fun j => by rw [htags, h.tags, hsector]
  unique := fun j k s hj hk => h.unique j k s (hsector j ▸ hj) (hsector k ▸ hk)
  onDevice := fun j s hj => by
    rw [hcount]
    exact h.onDevice j s (hsector j ▸ hj)
  clean := fun j s hj hs hd => by
    rcases hslot j hj with ⟨hp, heq⟩ | hdevice
    · rw [heq] at hs hd ⊢
      rw [hblock]
      exact h.clean j s hp hs hd
    · exact hdevice s hs

/-- A read of `g`, of which the device holds `b`, waits with slot `i`; no other slot is held. -/
structure Parked (blocks : Nat) (i : Fin n) (g : Sector) (b : Block) (c : Cache n) : Prop where
  coherent : Coherent {i} c
  blockCount : c.device.blockCount = blocks
  queue : ∀ s ∈ c.readAhead.pending, s.block < blocks
  slot : ∃ old, c.slot i = { sector := some g, locked := true, data := old }
  evictable : ∀ j, j ≠ i → (c.slot j).evictable = true
  block : c.device.block? g.block = some b

/-- No slot is held by anyone. -/
structure Idle (blocks : Nat) (c : Cache n) : Prop extends Usable blocks c where
  evictable : ∀ j, (c.slot j).evictable = true

theorem Idle.step (h : Idle blocks c) (hu : u.Fits blocks) (hrun : u.run c = .ok bytes c') :
    Idle blocks c' := by
  obtain ⟨husable, -, hstep⟩ := (Use.run_yields h.toUsable hu).of_ok hrun
  exact ⟨husable, fun j => by rw [hstep.evictable, h.evictable]⟩

/-- The cache with slot `i` bound to `g` and locked. -/
def boundLocked (i : Fin n) (g : Sector) (c : Cache n) : Cache n :=
  updateSlot i ({ · with locked := true }) (bindSlot i g c)

theorem slot_boundLocked (c : Cache n) (i j : Fin n) (g : Sector) :
    (boundLocked i g c).slot j =
      if i = j then { sector := some g, locked := true, data := (c.slot j).data }
      else c.slot j := by
  rw [boundLocked, slot_updateSlot, slot_bindSlot]
  split <;> rfl

/-- The cache over the device `d` with `b` in slot `i`, which nobody holds any more. -/
def released (i : Fin n) (b : Block) (d : Device) (c : Cache n) : Cache n :=
  updateSlot i (fun s => { s.touch with locked := false })
    (updateSlot i ({ · with data := b }) { c with device := d })

theorem find?_eq_none_of_contains (hmiss : c.contains g = false) : c.find? g = none := by
  cases hf : c.find? g with
  | none => rfl
  | some j =>
    rw [contains, hf] at hmiss
    cases hmiss

/-- A slot that was given to `g` and locked, while its contents are still on the device. -/
theorem Coherent.boundLocked (h : Coherent ∅ c) (hevict : (c.slot i).evictable)
    (hclean : (c.slot i).sector ≠ none → (c.slot i).dirty = false)
    (hun : ∀ j, (c.slot j).sector ≠ some g) (hb : c.device.block? g.block = some b) :
    Coherent {i} (Cache.boundLocked i g c) ∧ ∀ t, t ≠ g → t.block < c.device.blockCount →
      (Cache.boundLocked i g c).current t = c.current t := by
  have hbound : Coherent ∅ (fillSlot i b (bindSlot i g c)) := h.bound hun hb
  have hfaithful := h.faithful_bound (Set.notMem_empty i) hevict hclean hun hb
  have hsector : ∀ j, ((Cache.boundLocked i g c).slot j).sector =
      ((fillSlot i b (bindSlot i g c)).slot j).sector := by
    intro j
    rw [slot_boundLocked, slot_fillSlot_bindSlot]
    split <;> rfl
  have hother : ∀ j, i ≠ j →
      (Cache.boundLocked i g c).slot j = (fillSlot i b (bindSlot i g c)).slot j := by
    intro j hij
    rw [slot_boundLocked, slot_fillSlot_bindSlot, if_neg hij, if_neg hij]
  have hlocked : Coherent {i} (Cache.boundLocked i g c) :=
    hbound.reslot h.sound rfl (fun _ => rfl) rfl hsector fun j hj =>
      .inl ⟨Set.notMem_empty j, hother j fun hij => hj hij.symm⟩
  refine ⟨hlocked, fun t ht hrange => ?_⟩
  rw [← hfaithful.current t hrange]
  refine hbound.current_congr hlocked (fun j => by rw [hsector]) (fun j hj => ?_) fun _ => rfl
  have hij : i ≠ j := by
    intro hij
    rw [slot_fillSlot_bindSlot, if_pos hij] at hj
    exact ht (Option.some.inj hj).symm
  rw [hother j hij]

/-- The first half changes no contents of other sectors. -/
theorem Idle.start_yields (h : Idle blocks c) (hg : g.block < blocks)
    (hmiss : c.contains g = false) :
    Yields faults (startRead g) c fun i c' => ∃ b, Parked blocks i g b c' ∧ c.current g = some b ∧
      ∀ t, t ≠ g → c'.current t = c.current t := by
  have hfind := find?_eq_none_of_contains hmiss
  have hun := h.coherent.find?_eq_none_iff.mp hfind
  have hg' : g.block < c.device.blockCount := h.blockCount ▸ hg
  obtain ⟨b, hb⟩ := h.coherent.exists_current hg'
  refine Yields.bind (Yields.bind (Yields.get ?_))
  rw [hfind]
  refine Yields.andThen (evict_yields h.coherent h.ready (by simp)) ?_
  rintro i c₁ ⟨h₁, hf, -, hevict, hclean, hsub⟩
  refine Yields.bind (Yields.modify (Yields.pure (Yields.bind (Yields.modify (Yields.pure ?_)))))
  change ∃ b, Parked blocks i g b (boundLocked i g c₁) ∧ c.current g = some b ∧
    ∀ t, t ≠ g → (boundLocked i g c₁).current t = c.current t
  have hun₁ : ∀ j, (c₁.slot j).sector ≠ some g := fun j hj => hun j (hsub j g hj)
  have hb₁ : c₁.device.block? g.block = some b := by
    rw [← h₁.current_uncached hun₁, hf.current g hg', hb]
  obtain ⟨hlocked, hcurrent⟩ := h₁.boundLocked hevict hclean hun₁ hb₁
  refine ⟨b, ⟨hlocked, hf.blockCount.trans h.blockCount, ?_, ⟨(c₁.slot i).data, ?_⟩, ?_, hb₁⟩,
    hb, ?_⟩
  · intro s hs
    exact h.queue s (hf.readAhead ▸ hs)
  · rw [slot_boundLocked, if_pos rfl]
  · intro j hj
    rw [slot_boundLocked, if_neg fun hij => hj hij.symm, hf.evictable, h.evictable]
  · intro t ht
    by_cases hrange : t.block < c.device.blockCount
    · rw [hcurrent t ht (hf.blockCount ▸ hrange), hf.current t hrange]
    · rw [h.coherent.current_eq_none (Nat.not_lt.mp hrange), hlocked.current_eq_none]
      exact hf.blockCount ▸ Nat.not_lt.mp hrange

/-- Nothing is read from the device before the second half. -/
theorem Idle.start_reads (h : Idle blocks c) :
    Yields anyFault (startRead g) c fun _ c' => c'.device.counts.1 = c.device.counts.1 := by
  refine Yields.andThen (acquire_bringsIn h.ready) fun r c₁ hr => ?_
  exact Yields.bind (Yields.modify (Yields.pure hr.2.reads.counts))

namespace Parked

variable (h : Parked blocks i g b c)

include h

theorem bound : (c.slot i).sector = some g := by
  obtain ⟨old, hold⟩ := h.slot
  rw [hold]

/-- The other uses find a slot that they can take. -/
theorem ready (hn : 2 ≤ n) : c.Ready := by
  by_cases hi : i.val = 0
  · exact ⟨⟨1, hn⟩, h.evictable _ fun heq => by rw [← heq] at hi; cases hi⟩
  · exact ⟨⟨0, by omega⟩, h.evictable _ fun heq => hi (by rw [← heq])⟩

/-- A use for another sector is answered, and the read goes on waiting. -/
theorem use_yields (hn : 2 ≤ n) (hs : u.sector? = some s) (hne : s ≠ g) (hu : u.Fits blocks) :
    Yields never u.run c fun bytes c' => Parked blocks i g b c' ∧ u.answer c = some bytes ∧
      ∀ t, c'.current t = u.next c t := by
  obtain ⟨old, hold⟩ := h.slot
  have hbusy : (c.slot i).evictable = false := by
    rw [hold]
    rfl
  have hclean : (c.slot i).dirty = false := by rw [hold]
  rw [← h.blockCount] at hu
  have hpending : ∀ j ∈ ({i} : Set (Fin n)), (c.slot j).evictable = false := fun j hj => by
    rw [Set.mem_singleton_iff.mp hj]
    exact hbusy
  have hspares := Use.spares h.coherent h.bound hclean (h.ready hn) hbusy hne hs
  refine ((Use.sector_yields h.coherent (h.ready hn) hpending hs hu).and hspares).mono ?_
  rintro bytes c' ⟨⟨hc, hanswer, hch⟩, hspared⟩
  have hstep := hch.stepped hc fun t ht => Use.next_eq_none h.coherent hu ht
  refine ⟨⟨hc, hch.blockCount.trans h.blockCount, ?_, ⟨old, hspared.slot.trans hold⟩, ?_, ?_⟩,
    hanswer, hstep.current⟩
  · intro t ht
    exact h.queue t (hch.readAhead ▸ ht)
  · intro j hj
    rw [hch.evictable, h.evictable j hj]
  · rw [hspared.block, h.block]

theorem slot_released (d : Device) (j : Fin n) : (released i b d c).slot j =
    if i = j then { sector := some g, data := b } else c.slot j := by
  obtain ⟨old, hold⟩ := h.slot
  rw [released, slot_updateSlot, slot_updateSlot]
  by_cases hij : i = j
  · subst hij
    have hslot : ({ c with device := d } : Cache n).slot i = c.slot i := rfl
    rw [if_pos rfl, if_pos rfl, if_pos rfl, hslot, hold]
    rfl
  · rw [if_neg hij, if_neg hij, if_neg hij]
    rfl

/-- The slot is let go with what the device holds. -/
theorem idle_released {d : Device} (hsound : d.Sound) (hcount : d.blockCount = c.device.blockCount)
    (hblock : ∀ k, d.block? k = c.device.block? k) : Idle blocks (released i b d c) ∧
      ∀ t, t ≠ g → (released i b d c).current t = c.current t := by
  have hslot := h.slot_released d
  have hsector : ∀ j, ((released i b d c).slot j).sector = (c.slot j).sector := by
    intro j
    rw [hslot]
    by_cases hij : i = j
    · rw [if_pos hij, ← hij, h.bound]
    · rw [if_neg hij]
  have hcoherent : Coherent ∅ (released i b d c) := by
    refine h.coherent.reslot hsound hcount hblock rfl hsector fun j _ => ?_
    rw [hslot]
    by_cases hij : i = j
    · rw [if_pos hij]
      refine .inr fun s hs => ?_
      rw [← Option.some.inj hs]
      exact (hblock g.block).trans h.block
    · rw [if_neg hij]
      exact .inl ⟨fun hj => hij hj.symm, rfl⟩
  have hevictable : ∀ j, ((released i b d c).slot j).evictable = true := by
    intro j
    rw [hslot]
    by_cases hij : i = j
    · rw [if_pos hij]
      rfl
    · rw [if_neg hij]
      exact h.evictable j fun hji => hij hji.symm
  refine ⟨⟨⟨hcoherent, ⟨i, hevictable i⟩, hcount.trans h.blockCount, h.queue⟩, hevictable⟩, ?_⟩
  intro t ht
  refine h.coherent.current_congr hcoherent (fun j => by rw [hsector]) (fun j hj => ?_)
    fun _ => hblock t.block
  have hij : i ≠ j := by
    intro hij
    rw [← hij, h.bound] at hj
    exact ht (Option.some.inj hj).symm
  rw [hslot, if_neg hij]

/-- The second half brings in what the device holds, with one read, and lets go of the slot. -/
theorem finish_yields : Yields faults (finishRead i g offset count) c fun bytes c' =>
    bytes = Block.slice b offset count ∧ Idle blocks c' ∧ c'.device = c.device.afterRead ∧
      c'.slot i = { sector := some g, data := b } ∧ ∀ t, t ≠ g → c'.current t = c.current t := by
  have hg : g.block < c.device.blockCount := h.coherent.onDevice i g h.bound
  have hyields : Yields never (Device.readBlock g.block) c.device _ :=
    Device.readBlock_yields h.coherent.sound hg
  obtain ⟨b', d, hread, hb', hsound, hcount, hblock⟩ := hyields.ok_of_never
  have hbb : b' = b := Option.some.inj (hb'.symm.trans h.block)
  subst hbb
  refine Yields.bind (Yields.bind (Yields.onDevice (Yields.intro_ok hread ?_)))
  refine Yields.modify (Yields.bind (Yields.modify (Yields.bind (Yields.get (Yields.pure ?_)))))
  change Block.slice ((released i b' d c).slot i).data offset count = _ ∧
    Idle blocks (released i b' d c) ∧ d = _ ∧ (released i b' d c).slot i = _ ∧
      ∀ t, t ≠ g → (released i b' d c).current t = _
  have hslot : (released i b' d c).slot i = { sector := some g, data := b' } := by
    rw [h.slot_released, if_pos rfl]
  obtain ⟨hidle, hcurrent⟩ := h.idle_released hsound hcount hblock
  exact ⟨by rw [hslot], hidle, Device.readBlock_leaves hread, hslot, hcurrent⟩

end Parked

theorem updateSlot_updateSlot (f f' : Slot → Slot) :
    updateSlot i f (updateSlot i f' c) = updateSlot i (f ∘ f') c := by
  refine ext_slot (fun j => ?_) rfl
  rw [slot_updateSlot, slot_updateSlot, slot_updateSlot]
  split <;> rfl

/-- A slot that was locked for a while is filled like one that was not. -/
theorem released_boundLocked (c : Cache n) (i : Fin n) (g : Sector) (b : Block) (d : Device) :
    released i b d (boundLocked i g c) =
      updateSlot i Slot.touch (updateSlot i ({ · with data := b })
        { bindSlot i g c with device := d }) := by
  have hbind : ∀ c : Cache n, { bindSlot i g c with device := d } = updateSlot i (·.bind g)
      { c with device := d, tags := c.tags.set i (some g) } := fun c => rfl
  have hlocked : ∀ c : Cache n, { boundLocked i g c with device := d } =
      updateSlot i ({ · with locked := true }) { bindSlot i g c with device := d } := fun c => rfl
  rw [released, hlocked, hbind]
  simp only [updateSlot_updateSlot]
  rfl

/-- The two halves one after the other bring a sector in as one does that does not wait. -/
theorem Usable.halves (h : Usable blocks c) (hg : g.block < blocks) (hmiss : c.contains g = false) :
    ∃ i c₁ c₂, startRead g c = .ok i c₁ ∧ c₁.readAhead = c.readAhead ∧ prefetch g c = .ok i c₂ ∧
      ∀ offset count,
        finishRead i g offset count c₁ = .ok (Block.slice (c₂.slot i).data offset count) c₂ := by
  have hfind := find?_eq_none_of_contains hmiss
  have hevicts : Yields never evict c _ := evict_yields h.coherent h.ready (by simp)
  obtain ⟨i, e, hevict, he, hf, -⟩ := hevicts.ok_of_never
  have hg' : g.block < e.device.blockCount := by rwa [hf.blockCount, h.blockCount]
  have hreads : Yields never (Device.readBlock g.block) e.device _ :=
    Device.readBlock_yields he.sound hg'
  obtain ⟨b, d, hread, -⟩ := hreads.ok_of_never
  have hstart : Yields never (startRead g) c fun j c' => j = i ∧ c' = boundLocked i g e := by
    refine Yields.bind (Yields.bind (Yields.get ?_))
    rw [hfind]
    refine Yields.bind (Yields.intro_ok hevict (Yields.bind (Yields.modify (Yields.pure ?_))))
    exact Yields.bind (Yields.modify (Yields.pure ⟨rfl, rfl⟩))
  have hwhole : Yields never (prefetch g) c fun j c' =>
      j = i ∧ c' = released i b d (boundLocked i g e) := by
    refine Yields.bind (Yields.bind (Yields.get ?_))
    rw [hfind]
    refine Yields.bind (Yields.intro_ok hevict (Yields.bind (Yields.modify (Yields.pure ?_))))
    refine Yields.bind (Yields.bind (Yields.onDevice (Yields.intro_ok hread ?_)))
    refine Yields.modify (Yields.bind (Yields.modify (Yields.pure ⟨rfl, ?_⟩)))
    rw [released_boundLocked]
  have hfinish : ∀ offset count, Yields never (finishRead i g offset count) (boundLocked i g e)
      fun bytes c' => bytes = Block.slice (c'.slot i).data offset count ∧
        c' = released i b d (boundLocked i g e) := by
    intro offset count
    refine Yields.bind (Yields.bind (Yields.onDevice (Yields.intro_ok hread ?_)))
    exact Yields.modify (Yields.bind (Yields.modify (Yields.bind (Yields.get
      (Yields.pure ⟨rfl, rfl⟩)))))
  obtain ⟨_, _, hstarts, rfl, rfl⟩ := hstart.ok_of_never
  obtain ⟨_, _, hreadsWhole, rfl, rfl⟩ := hwhole.ok_of_never
  refine ⟨_, _, _, hstarts, hf.readAhead, hreadsWhole, fun offset count => ?_⟩
  obtain ⟨_, _, hfinishes, rfl, rfl⟩ := (hfinish offset count).ok_of_never
  exact hfinishes

/-- The two halves one after the other are the whole read. -/
theorem Usable.halves_eq_read (h : Usable blocks c) (hg : g.block < blocks)
    (hmiss : c.contains g = false) (hrange : offset + count ≤ sectorSize) :
    (do let i ← startRead g; finishRead i g offset count) c = read g offset count c := by
  obtain ⟨i, c₁, c₂, hstart, -, hwhole, hfinish⟩ := h.halves hg hmiss
  have hread : Yields never (read g offset count) c fun bytes c' =>
      bytes = Block.slice (c₂.slot i).data offset count ∧ c' = c₂ := by
    refine Yields.bind (Yields.ofExcept (checkRange_eq_ok hrange) ?_)
    refine Yields.bind (Yields.bind (Yields.intro_ok hwhole ?_))
    exact Yields.bind (Yields.get (Yields.pure (Yields.pure ⟨rfl, rfl⟩)))
  obtain ⟨bytes, c', hread, rfl, rfl⟩ := hread.ok_of_never
  simp only [bind, EStateM.bind, hstart, hfinish, hread]

/-! ### Caches that are used while a read waits -/

/-- The caches to which uses for sectors other than `g` lead. -/
inductive Meanwhile (blocks : Nat) (g : Sector) (c : Cache n) : Cache n → Prop where
  | start : Meanwhile blocks g c c
  | use {c' c'' : Cache n} {u : Use} {s : Sector} {bytes : Bytes} :
    Meanwhile blocks g c c' → u.sector? = some s → s ≠ g → u.Fits blocks →
    u.run c' = .ok bytes c'' → Meanwhile blocks g c c''

/-- The caches that come of a fresh one over `device` by uses that fit, some of them while a read of
a sector that was not cached waits for the device. -/
inductive Worked (device : Device) : Cache n → Prop where
  | fresh {c : Cache n} : Cache.fresh n device = .ok c → Worked device c
  | use {c c' : Cache n} {u : Use} {bytes : Bytes} :
    Worked device c → u.Fits device.blockCount → u.run c = .ok bytes c' → Worked device c'
  | wait {c c₁ c₂ c₃ : Cache n} {g : Sector} {i : Fin n} {offset count : Nat} {bytes : Bytes} :
    2 ≤ n → Worked device c → g.block < device.blockCount → c.contains g = false →
    startRead g c = .ok i c₁ → Meanwhile device.blockCount g c₁ c₂ →
    finishRead i g offset count c₂ = .ok bytes c₃ → Worked device c₃

theorem Parked.meanwhile (h : Parked blocks i g b c) (hn : 2 ≤ n)
    (hbetween : Meanwhile blocks g c c') : Parked blocks i g b c' := by
  induction hbetween with
  | start => exact h
  | use _ hs hne hu hrun ih => exact ((ih.use_yields hn hs hne hu).of_ok hrun).1

theorem Worked.idle (hd : device.Sound) (h : Worked device c) : Idle device.blockCount c := by
  induction h with
  | fresh hc => exact ⟨(usable_fresh hd hc).1, fun j => by rw [slot_fresh hc]; rfl⟩
  | use _ hu hrun ih => exact ih.step hu hrun
  | @wait c c₁ c₂ c₃ g i offset count bytes hn _ hg hmiss hstart hbetween hfinish ih =>
    have hstarts : Yields never (startRead g) c _ := ih.start_yields hg hmiss
    obtain ⟨b, hparked, -⟩ := hstarts.of_ok hstart
    have hfinishes : Yields never (finishRead i g offset count) c₂ _ :=
      (hparked.meanwhile hn hbetween).finish_yields
    exact (hfinishes.of_ok hfinish).2.1


theorem contains_fresh (hd : device.Sound) (hc : Cache.fresh n device = .ok c) (s : Sector) :
    c.contains s = false := by
  have hfind : c.find? s = none := (usable_fresh hd hc).1.coherent.find?_eq_none_iff.mpr fun j hj => by
    rw [slot_fresh hc] at hj
    cases hj
  rw [contains, hfind]
  rfl

/-- A read of a sector that is not cached waits for the device, while others use the cache of two
slots or more for other sectors. Its slot stays bound to it and locked, and no other slot is held;
every use in between is answered and does what the current contents say. Then the device is read
once, the bytes are the device's, and the slot is left clean and free. -/
theorem Worked.parked_read (hd : device.Sound) (hn : 2 ≤ n) (h : Worked device c)
    (hg : g.block < device.blockCount) (hmiss : c.contains g = false) :
    ∃ i c₁ b, startRead g c = .ok i c₁ ∧ c₁.device.counts.1 = c.device.counts.1 ∧
      c.current g = some b ∧ (∀ t, t ≠ g → c₁.current t = c.current t) ∧
      ∀ c₂, Meanwhile device.blockCount g c₁ c₂ →
        (c₂.slot i).locked = true ∧ (∀ j, (c₂.slot j).sector = some g ↔ j = i) ∧
        (∀ j, j ≠ i → (c₂.slot j).locked = false ∧ (c₂.slot j).readers = 0) ∧
        (∀ j k s, (c₂.slot j).sector = some s → (c₂.slot k).sector = some s → j = k) ∧
        (∀ (u : Use) s, u.sector? = some s → s ≠ g → u.Fits device.blockCount →
          ∃ bytes c', u.run c₂ = .ok bytes c' ∧ u.answer c₂ = some bytes ∧
            ∀ t, c'.current t = u.next c₂ t) ∧
        c₂.device.block? g.block = some b ∧
        ∀ offset count, offset + count ≤ sectorSize → ∃ c₃,
          finishRead i g offset count c₂ = .ok (Block.slice b offset count) c₃ ∧
          c₃.device = c₂.device.afterRead ∧ c₃.slot i = { sector := some g, data := b } ∧
          (∀ t, t ≠ g → c₃.current t = c₂.current t) ∧
          ∀ j k s, (c₃.slot j).sector = some s → (c₃.slot k).sector = some s → j = k := by
  have hidle := h.idle hd
  obtain ⟨i, c₁, hstart, ⟨b, hparked, hb, hothers⟩, hreads⟩ :=
    ((hidle.start_yields hg hmiss).and hidle.start_reads).ok_of_never
  refine ⟨i, c₁, b, hstart, hreads, hb, hothers, fun c₂ hbetween => ?_⟩
  have hp := hparked.meanwhile hn hbetween
  have hunique : ∀ j, (c₂.slot j).sector = some g ↔ j = i := fun j =>
    ⟨fun hj => hp.coherent.unique j i g hj hp.bound, fun hj => hj ▸ hp.bound⟩
  have hfree : ∀ j, j ≠ i → (c₂.slot j).locked = false ∧ (c₂.slot j).readers = 0 := by
    intro j hj
    have hevict := hp.evictable j hj
    simpa [Slot.evictable] using hevict
  refine ⟨?_, hunique, hfree, hp.coherent.unique, fun u s hs hne hu => ?_, hp.block,
    fun offset count _ => ?_⟩
  · obtain ⟨old, hold⟩ := hp.slot
    rw [hold]
  · obtain ⟨bytes, c', hrun, -, hanswer, hcurrent⟩ := (hp.use_yields hn hs hne hu).ok_of_never
    exact ⟨bytes, c', hrun, hanswer, hcurrent⟩
  · obtain ⟨bytes, c₃, hrun, rfl, hidle₃, hdevice, hslot, hcurrent⟩ :=
      hp.finish_yields.ok_of_never
    exact ⟨c₃, hrun, hdevice, hslot, hcurrent, hidle₃.coherent.unique⟩

/-- On a cache of two slots over three blank blocks, block 1 is read last although it came first. -/
theorem Worked.parked_read_blank : ∃ c : Cache 2,
    Cache.fresh 2 (.memory (MemoryDisk.blank 3)) = .ok c ∧
    ∃ i c₁ b, startRead (Sector.ofNat 1) c = .ok i c₁ ∧
      ∀ c₂, Meanwhile 3 (Sector.ofNat 1) c₁ c₂ → ∃ c₃,
        finishRead i (Sector.ofNat 1) 0 512 c₂ = .ok (Block.slice b 0 512) c₃ ∧
        c₃.device = c₂.device.afterRead := by
  have hsound : (Device.memory (MemoryDisk.blank 3)).Sound := trivial
  refine ⟨_, rfl, ?_⟩
  obtain ⟨i, c₁, b, hstart, -, -, -, hwaits⟩ := Worked.parked_read hsound (Nat.le_refl 2) (.fresh rfl)
    (g := Sector.ofNat 1) (by decide) (contains_fresh hsound rfl _)
  refine ⟨i, c₁, b, hstart, fun c₂ hbetween => ?_⟩
  obtain ⟨-, -, -, -, -, -, hfinish⟩ := hwaits c₂ hbetween
  obtain ⟨c₃, hrun, hdevice, -⟩ := hfinish 0 512 (Nat.le_refl 512)
  exact ⟨c₃, hrun, hdevice⟩

end Cache
end TieredVolume
