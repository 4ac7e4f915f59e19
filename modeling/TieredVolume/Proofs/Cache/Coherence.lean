import Mathlib.Data.Set.Insert
import TieredVolume.Cache.ReadAhead
import TieredVolume.Proofs.Device
import TieredVolume.Proofs.Cache.Clock

/-!
Coherence of a cache with its device. The tags agree with the slots, no two slots hold one sector,
and a clean slot holds what the device holds, unless its contents have still to come. The small
changes that operations are made of keep this, and with it the current contents of every sector.
-/
namespace TieredVolume
namespace Cache

variable {n : Nat} {c c' c'' : Cache n} {pending : Set (Fin n)} {s t : Sector} {i j : Fin n}

/-- A coherent cache; the slots in `pending` are bound but have no contents yet. -/
structure Coherent (pending : Set (Fin n)) (c : Cache n) : Prop where
  sound : c.device.Sound
  tags : ∀ i, c.tags.get i = (c.slot i).sector
  unique : ∀ i j s, (c.slot i).sector = some s → (c.slot j).sector = some s → i = j
  onDevice : ∀ i s, (c.slot i).sector = some s → s.block < c.device.blockCount
  clean : ∀ i s, i ∉ pending → (c.slot i).sector = some s → (c.slot i).dirty = false →
    c.device.block? s.block = some (c.slot i).data

/-- A sector whose contents have still to be written to the device. -/
def Dirty (c : Cache n) (s : Sector) : Prop :=
  ∃ i, (c.slot i).sector = some s ∧ (c.slot i).dirty = true

/-- Some slot can be given away. -/
def Ready (c : Cache n) : Prop := ∃ i, (c.slot i).evictable

/-- The tags tell where a sector is if they agree with the slots and it is in one slot only. -/
theorem find?_eq_some_iff_of (htags : ∀ i, c.tags.get i = (c.slot i).sector)
    (hunique : ∀ i j, (c.slot i).sector = some s → (c.slot j).sector = some s → i = j) :
    c.find? s = some i ↔ (c.slot i).sector = some s := by
  have hget : ∀ j : Fin n, c.tags.toArray[j.val] = (c.slot j).sector := fun j => htags j
  simp only [find?, Vector.finIdxOf?, Option.map_eq_some_iff, Array.finIdxOf?_eq_some_iff]
  constructor
  · rintro ⟨k, ⟨hk, -⟩, rfl⟩
    rw [← hk]
    exact (hget (k.cast _)).symm
  · intro hi
    refine ⟨i.cast (by simp), ⟨(hget i).trans hi, fun j hj hs => ?_⟩, rfl⟩
    have hji := hunique (j.cast (by simp)) i ((hget (j.cast (by simp))).symm.trans hs) hi
    subst hji
    exact absurd hj (Nat.lt_irrefl _)

theorem Coherent.find?_eq_some_iff (h : Coherent pending c) :
    c.find? s = some i ↔ (c.slot i).sector = some s :=
  find?_eq_some_iff_of h.tags fun i j => h.unique i j s

theorem Coherent.find?_eq_none_iff (h : Coherent pending c) :
    c.find? s = none ↔ ∀ i, (c.slot i).sector ≠ some s := by
  constructor
  · intro hnone i hi
    rw [h.find?_eq_some_iff.mpr hi] at hnone
    cases hnone
  · intro hnone
    cases hfind : c.find? s with
    | none => rfl
    | some i => exact absurd (h.find?_eq_some_iff.mp hfind) (hnone i)

theorem Coherent.current_cached (h : Coherent pending c) (hi : (c.slot i).sector = some s) :
    c.current s = some (c.slot i).data := by
  simp only [current, h.find?_eq_some_iff.mpr hi]

theorem Coherent.current_uncached (h : Coherent pending c) (hs : ∀ i, (c.slot i).sector ≠ some s) :
    c.current s = c.device.block? s.block := by
  simp only [current, h.find?_eq_none_iff.mpr hs]

theorem Coherent.exists_current (h : Coherent pending c) (hs : s.block < c.device.blockCount) :
    ∃ b, c.current s = some b := by
  by_cases hcached : ∃ i, (c.slot i).sector = some s
  · obtain ⟨i, hi⟩ := hcached
    exact ⟨_, h.current_cached hi⟩
  · rw [h.current_uncached fun i hi => hcached ⟨i, hi⟩]
    exact Device.block?_isSome h.sound hs

/-- What is current of a sector that is not dirty is what the device holds. -/
theorem Coherent.current_eq_block? (h : Coherent ∅ c) (hs : ¬ c.Dirty s) :
    c.current s = c.device.block? s.block := by
  by_cases hcached : ∃ i, (c.slot i).sector = some s
  · obtain ⟨i, hi⟩ := hcached
    have hclean : (c.slot i).dirty = false := by
      cases hd : (c.slot i).dirty with
      | false => rfl
      | true => exact absurd ⟨i, hi, hd⟩ hs
    rw [h.current_cached hi, h.clean i s (by simp) hi hclean]
  · exact h.current_uncached fun i hi => hcached ⟨i, hi⟩

/-- A step that changes no contents. The device may take over what was current before. -/
structure Faithful (c c' : Cache n) : Prop where
  blockCount : c'.device.blockCount = c.device.blockCount
  readAhead : c'.readAhead = c.readAhead
  evictable : ∀ i, (c'.slot i).evictable = (c.slot i).evictable
  current : ∀ t, t.block < c.device.blockCount → c'.current t = c.current t
  device : ∀ t : Sector, c'.device.block? t.block = c.device.block? t.block ∨
    c'.device.block? t.block = c.current t
  dirty : ∀ t, c'.Dirty t → c.Dirty t

theorem Faithful.refl (c : Cache n) : Faithful c c :=
  ⟨rfl, rfl, fun _ => rfl, fun _ _ => rfl, fun _ => .inl rfl, fun _ => id⟩

theorem Faithful.ready (h : Faithful c c') (hr : c.Ready) : c'.Ready := by
  obtain ⟨i, hi⟩ := hr
  exact ⟨i, (h.evictable i).trans hi⟩

/-- A sector past the end has no contents. -/
theorem Coherent.current_eq_none (h : Coherent pending c) (ht : c.device.blockCount ≤ t.block) :
    c.current t = none := by
  rw [h.current_uncached, Device.block?_eq_none ht]
  intro i hi
  exact absurd (h.onDevice i t hi) (Nat.not_lt.mpr ht)

theorem Faithful.trans (hc : Coherent pending c) (hc' : Coherent pending c') (h : Faithful c c')
    (h' : Faithful c' c'') : Faithful c c'' where
  blockCount := h'.blockCount.trans h.blockCount
  readAhead := h'.readAhead.trans h.readAhead
  evictable := fun i => (h'.evictable i).trans (h.evictable i)
  current := fun t ht => (h'.current t (by rwa [h.blockCount])).trans (h.current t ht)
  device := fun t => by
    have hcur : c'.current t = c.current t := by
      by_cases ht : t.block < c.device.blockCount
      · exact h.current t ht
      · rw [hc.current_eq_none (by omega), hc'.current_eq_none (by rw [h.blockCount]; omega)]
    cases h'.device t with
    | inl hdev => rw [hdev]; exact h.device t
    | inr hdev => rw [hdev, hcur]; exact .inr rfl
  dirty := fun t ht => h.dirty t (h'.dirty t ht)

/-! ### The hand and the second chances -/

theorem Coherent.marked (h : Coherent pending c) (hm : Marked c c') : Coherent pending c' := by
  have hsector : ∀ i, (c'.slot i).sector = (c.slot i).sector := fun i => by
    obtain ⟨b, hb⟩ := hm.slot i
    rw [hb]
  refine ⟨hm.device ▸ h.sound, fun i => ?_, fun i j s hi hj => ?_, fun i s hi => ?_,
    fun i s hp hi hd => ?_⟩
  · rw [hm.tags, hsector, h.tags]
  · exact h.unique i j s ((hsector i) ▸ hi) ((hsector j) ▸ hj)
  · rw [hm.device]
    exact h.onDevice i s ((hsector i) ▸ hi)
  · obtain ⟨b, hb⟩ := hm.slot i
    rw [hb] at hi hd ⊢
    rw [hm.device]
    exact h.clean i s hp hi hd

theorem Marked.faithful (hm : Marked c c') : Faithful c c' where
  blockCount := by rw [hm.device]
  readAhead := hm.readAhead
  evictable := hm.evictable
  current := fun t _ => by
    simp only [Cache.current, find?, hm.tags, hm.device]
    split
    · rename_i i _
      obtain ⟨b, hb⟩ := hm.slot i
      rw [hb]
    · rfl
  device := fun t => .inl (by rw [hm.device])
  dirty := fun t ⟨i, hi, hd⟩ => by
    obtain ⟨b, hb⟩ := hm.slot i
    rw [hb] at hi hd
    exact ⟨i, hi, hd⟩

theorem marked_touch (c : Cache n) (i : Fin n) : Marked c (updateSlot i Slot.touch c) where
  device := rfl
  tags := rfl
  readAhead := rfl
  slot := fun j => by
    rw [slot_updateSlot]
    split
    · exact ⟨false, rfl⟩
    · exact ⟨_, rfl⟩

/-! ### Changes of one slot -/

/-- The cache with other contents in a slot. -/
def fillSlot (i : Fin n) (b : Block) (c : Cache n) : Cache n :=
  updateSlot i ({ · with data := b }) c

/-- Caches are equal if they are so slot by slot and in all that is not a slot. -/
theorem ext_slot (hslot : ∀ j, c.slot j = c'.slot j) (hrest : { c with slots := c'.slots } = c') :
    c = c' := by
  have hslots : c.slots = c'.slots := Vector.ext fun k hk => hslot ⟨k, hk⟩
  rw [← hrest, ← hslots]

theorem updateSlot_eq_self {f : Slot → Slot} (h : f (c.slot i) = c.slot i) :
    updateSlot i f c = c := by
  refine ext_slot (fun j => ?_) rfl
  rw [slot_updateSlot]
  split
  · rename_i hij
    rw [← hij, h]
  · rfl

theorem slot_fillSlot (c : Cache n) (i j : Fin n) (b : Block) :
    (fillSlot i b c).slot j = if i = j then { c.slot j with data := b } else c.slot j :=
  slot_updateSlot c i j _

theorem slot_bindSlot (c : Cache n) (i j : Fin n) (s : Sector) :
    (bindSlot i s c).slot j = if i = j then (c.slot j).bind s else c.slot j :=
  slot_updateSlot _ i j _

theorem get_tags_set (c : Cache n) (i j : Fin n) (tag : Option Sector) :
    (c.tags.set i tag i.isLt).get j = if i = j then tag else c.tags.get j := by
  simp only [Vector.get, Vector.toArray_set, Array.getElem_set, Fin.ext_iff]
  rfl

/-- Two coherent caches agree on a sector that sits in the same slot of both, with the same data,
or in no slot of either, with the same block below. -/
theorem Coherent.current_congr {pending' : Set (Fin n)} (h : Coherent pending c)
    (h' : Coherent pending' c')
    (hsector : ∀ i, (c'.slot i).sector = some t ↔ (c.slot i).sector = some t)
    (hdata : ∀ i, (c.slot i).sector = some t → (c'.slot i).data = (c.slot i).data)
    (hdevice : (∀ i, (c.slot i).sector ≠ some t) →
      c'.device.block? t.block = c.device.block? t.block) :
    c'.current t = c.current t := by
  by_cases hcached : ∃ i, (c.slot i).sector = some t
  · obtain ⟨i, hi⟩ := hcached
    rw [h.current_cached hi, h'.current_cached ((hsector i).mpr hi), hdata i hi]
  · have hun : ∀ i, (c.slot i).sector ≠ some t := fun i hi => hcached ⟨i, hi⟩
    rw [h.current_uncached hun, h'.current_uncached fun i hi => hun i ((hsector i).mp hi),
      hdevice hun]

/-! ### Writing a slot back -/

theorem Yields.onDevice {α : Type} {faults : Fault → Prop} {x : EStateM Fault Device α}
    {post : α → Cache n → Prop}
    (h : Yields faults x c.device fun a d => post a { c with device := d }) :
    Yields faults (onDevice x) c post := by
  unfold Yields at h ⊢
  simp only [Cache.onDevice]
  cases hx : x c.device with
  | ok a d => simpa only [hx] using h
  | error e d => simpa only [hx] using h

/-- The cache after slot `i` was written to its sector, which left the device `d`. -/
def flushedSlot (i : Fin n) (d : Device) (c : Cache n) : Cache n :=
  updateSlot i ({ · with dirty := false }) { c with device := d }

theorem slot_flushedSlot (c : Cache n) (i j : Fin n) (d : Device) :
    (flushedSlot i d c).slot j = if i = j then { c.slot j with dirty := false } else c.slot j :=
  slot_updateSlot _ i j _

section Flush

variable {d : Device} (h : Coherent pending c) (hs : (c.slot i).sector = some s)
  (hsound : d.Sound) (hcount : d.blockCount = c.device.blockCount)
  (hblock : ∀ k, d.block? k = if k = s.block then some (c.slot i).data else c.device.block? k)

include h hs hsound hcount hblock

theorem Coherent.flushedSlot : Coherent pending (flushedSlot i d c) := by
  have hsector : ∀ j, ((Cache.flushedSlot i d c).slot j).sector = (c.slot j).sector := fun j => by
    rw [slot_flushedSlot]
    split <;> rfl
  refine ⟨hsound, fun j => ?_, fun j k t hj hk => ?_, fun j t hj => ?_, fun j t hp hj hd => ?_⟩
  · rw [hsector]
    exact h.tags j
  · exact h.unique j k t (hsector j ▸ hj) (hsector k ▸ hk)
  · exact hcount ▸ h.onDevice j t (hsector j ▸ hj)
  · have hj' := hsector j ▸ hj
    simp only [Cache.flushedSlot]
    change d.block? t.block = _
    rw [hblock, ← Cache.flushedSlot, slot_flushedSlot]
    by_cases hji : i = j
    · subst hji
      have hst : s = t := Option.some.inj (hs.symm.trans hj')
      rw [if_pos rfl, if_pos (by rw [hst])]
    · have hne : ¬ t.block = s.block := fun heq =>
        hji (h.unique i j s hs (by rw [hj', Sector.block_injective heq]))
      rw [slot_flushedSlot, if_neg hji] at hd
      rw [if_neg hji, if_neg hne]
      exact h.clean j t hp hj' hd

theorem Coherent.faithful_flushedSlot : Faithful c (Cache.flushedSlot i d c) where
  blockCount := hcount
  readAhead := rfl
  evictable := fun j => by
    rw [slot_flushedSlot]
    split <;> rfl
  current := fun t _ => by
    refine h.current_congr (h.flushedSlot hs hsound hcount hblock) (fun j => ?_) (fun j _ => ?_)
      fun hun => ?_
    · rw [slot_flushedSlot]
      split <;> rfl
    · rw [slot_flushedSlot]
      split <;> rfl
    · have hne : ¬ t.block = s.block := fun heq =>
        hun i (by rw [hs, Sector.block_injective heq])
      exact (hblock t.block).trans (if_neg hne)
  device := fun t => by
    change d.block? t.block = _ ∨ d.block? t.block = _
    rw [hblock]
    split
    · rename_i heq
      rw [Sector.block_injective heq, h.current_cached hs]
      exact .inr rfl
    · exact .inl rfl
  dirty := fun t ⟨j, hj, hd⟩ => by
    rw [slot_flushedSlot] at hj hd
    split at hd
    · cases hd
    · rename_i hji
      rw [if_neg hji] at hj
      exact ⟨j, hj, hd⟩

end Flush

/-- What is left of a cache after slot `i` was written back if it was dirty. -/
structure WrittenBack (i : Fin n) (c c' : Cache n) : Prop where
  sector : ∀ j, (c'.slot j).sector = (c.slot j).sector
  data : ∀ j, (c'.slot j).data = (c.slot j).data
  clean : ∀ j, (c.slot j).dirty = false → (c'.slot j).dirty = false
  done : (c'.slot i).sector ≠ none → (c'.slot i).dirty = false
  idle : ((c.slot i).sector ≠ none → (c.slot i).dirty = false) → c' = c

theorem flushSlot_yields {faults : Fault → Prop} (h : Coherent pending c) :
    Yields faults (flushSlot i) c fun _ c' =>
      Coherent pending c' ∧ Faithful c c' ∧ WrittenBack i c c' := by
  refine Yields.bind (Yields.get ?_)
  dsimp only
  split
  · rename_i s hs
    by_cases hd : (c.slot i).dirty = true
    · rw [if_pos hd]
      refine Yields.bind (Yields.onDevice ((Device.writeBlock_yields h.sound (h.onDevice i s hs)
        (c.slot i).data).mono ?_))
      rintro - d ⟨hsound, hcount, hblock⟩
      refine Yields.modify ⟨h.flushedSlot hs hsound hcount hblock,
        h.faithful_flushedSlot hs hsound hcount hblock, ?_⟩
      change WrittenBack i c (flushedSlot i d c)
      refine ⟨fun j => ?_, fun j => ?_, fun j hj => ?_, fun _ => ?_, fun hclean => ?_⟩
      · rw [slot_flushedSlot]
        split <;> rfl
      · rw [slot_flushedSlot]
        split <;> rfl
      · rw [slot_flushedSlot]
        split
        · rfl
        · exact hj
      · rw [slot_flushedSlot, if_pos rfl]
      · rw [hclean (by simp [hs])] at hd
        cases hd
    · rw [if_neg hd]
      exact Yields.pure ⟨h, Faithful.refl c, fun _ => rfl, fun _ => rfl, fun _ => id,
        fun _ => by simpa using hd, fun _ => rfl⟩
  · rename_i hs
    exact Yields.pure ⟨h, Faithful.refl c, fun _ => rfl, fun _ => rfl, fun _ => id,
      fun hn => absurd hs hn, fun _ => rfl⟩

/-! ### Giving a slot to another sector -/

section Bind

variable {b : Block} (h : Coherent pending c) (hi : i ∉ pending) (hevict : (c.slot i).evictable)
  (hclean : (c.slot i).sector ≠ none → (c.slot i).dirty = false)
  (hun : ∀ j, (c.slot j).sector ≠ some s) (hb : c.device.block? s.block = some b)

theorem slot_fillSlot_bindSlot (c : Cache n) (i j : Fin n) (s : Sector) (b : Block) :
    (fillSlot i b (bindSlot i s c)).slot j =
      if i = j then { sector := some s, data := b } else c.slot j := by
  rw [slot_fillSlot, slot_bindSlot]
  split <;> rfl

include h in
theorem Coherent.tags_bindSlot (j : Fin n) :
    (bindSlot i s c).tags.get j = ((bindSlot i s c).slot j).sector := by
  change (c.tags.set i (some s)).get j = _
  rw [slot_bindSlot, get_tags_set, h.tags]
  split <;> rfl

include h hun in
theorem Coherent.unique_bindSlot (j k : Fin n) (t : Sector)
    (hj : ((bindSlot i s c).slot j).sector = some t)
    (hk : ((bindSlot i s c).slot k).sector = some t) : j = k := by
  rw [slot_bindSlot] at hj hk
  split at hj <;> split at hk
  · rename_i hij hik
    exact hij.symm.trans hik
  · exact absurd ((Option.some.inj hj) ▸ hk) (hun k)
  · exact absurd ((Option.some.inj hk) ▸ hj) (hun j)
  · exact h.unique j k t hj hk

include h hun hb in
/-- A slot that was given to a sector and filled from the device. -/
theorem Coherent.bound : Coherent pending (fillSlot i b (bindSlot i s c)) := by
  have hsector : ∀ j, ((fillSlot i b (bindSlot i s c)).slot j).sector =
      ((bindSlot i s c).slot j).sector := fun j => by
    rw [slot_fillSlot]
    split <;> rfl
  refine ⟨h.sound, fun j => ?_, fun j k t hj hk => ?_, fun j t hj => ?_, fun j t hp hj hd => ?_⟩
  · rw [hsector]
    exact h.tags_bindSlot j
  · exact h.unique_bindSlot hun j k t (hsector j ▸ hj) (hsector k ▸ hk)
  · rw [slot_fillSlot_bindSlot] at hj
    split at hj
    · cases hj
      by_contra hge
      have hnone := Device.block?_eq_none (d := c.device) (Nat.not_lt.mp hge)
      rw [hb] at hnone
      cases hnone
    · exact h.onDevice j t hj
  · rw [slot_fillSlot_bindSlot] at hj hd ⊢
    change c.device.block? t.block = _
    split at hj
    · rename_i hij
      cases hj
      rw [if_pos hij]
      exact hb
    · rename_i hij
      rw [if_neg hij] at hd ⊢
      exact h.clean j t hp hj hd

include h hi hevict hclean hun hb in
theorem Coherent.faithful_bound : Faithful c (fillSlot i b (bindSlot i s c)) where
  blockCount := rfl
  readAhead := rfl
  evictable := fun j => by
    rw [slot_fillSlot_bindSlot]
    split
    · rename_i hij
      rw [← hij, hevict]
      rfl
    · rfl
  current := fun t _ => by
    have hbound := h.bound (i := i) hun hb
    by_cases hts : t = s
    · subst hts
      rw [h.current_uncached hun, hbound.current_cached (i := i) (by simp [slot_fillSlot_bindSlot]),
        hb, slot_fillSlot_bindSlot, if_pos rfl]
    by_cases hti : (c.slot i).sector = some t
    · have hun' : ∀ j, ((fillSlot i b (bindSlot i s c)).slot j).sector ≠ some t := by
        intro j hj
        rw [slot_fillSlot_bindSlot] at hj
        split at hj
        · exact hts (Option.some.inj hj).symm
        · rename_i hij
          exact hij (h.unique i j t hti hj)
      rw [h.current_cached hti, hbound.current_uncached hun']
      exact h.clean i t hi hti (hclean (by simp [hti]))
    · refine h.current_congr hbound (fun j => ?_) (fun j hj => ?_) fun _ => rfl
      · rw [slot_fillSlot_bindSlot]
        split
        · rename_i hij
          subst hij
          simp [hti, Ne.symm hts]
        · exact Iff.rfl
      · rw [slot_fillSlot_bindSlot, if_neg]
        rintro rfl
        exact hti hj
  device := fun t => .inl rfl
  dirty := fun t ⟨j, hj, hd⟩ => by
    rw [slot_fillSlot_bindSlot] at hj hd
    split at hd
    · cases hd
    · rename_i hij
      rw [if_neg hij] at hj
      exact ⟨j, hj, hd⟩

end Bind

/-! ### Contents that change -/

/-- The current contents become `next`; a sector can be dirty that was so or is in `touched`. -/
structure Changes (touched : Set Sector) (next : Sector → Option Block) (c c' : Cache n) :
    Prop where
  blockCount : c'.device.blockCount = c.device.blockCount
  readAhead : c'.readAhead = c.readAhead
  evictable : ∀ i, (c'.slot i).evictable = (c.slot i).evictable
  current : ∀ t, t.block < c.device.blockCount → c'.current t = next t
  device : ∀ t : Sector, c'.device.block? t.block = c.device.block? t.block ∨
    c'.device.block? t.block = c.current t
  dirty : ∀ t, c'.Dirty t → c.Dirty t ∨ t ∈ touched

theorem Changes.mono {touched touched' : Set Sector} {next : Sector → Option Block}
    (h : Changes touched next c c') (hsub : touched ⊆ touched') : Changes touched' next c c' :=
  { h with dirty := fun t ht => (h.dirty t ht).imp_right fun hin => hsub hin }

theorem Faithful.changes {touched : Set Sector} {next : Sector → Option Block}
    (hc : Coherent pending c) (hc' : Coherent pending c') (h : Faithful c c')
    (h' : Changes touched next c' c'') : Changes touched next c c'' where
  blockCount := h'.blockCount.trans h.blockCount
  readAhead := h'.readAhead.trans h.readAhead
  evictable := fun i => (h'.evictable i).trans (h.evictable i)
  current := fun t ht => h'.current t (by rwa [h.blockCount])
  device := fun t => by
    have hcur : c'.current t = c.current t := by
      by_cases ht : t.block < c.device.blockCount
      · exact h.current t ht
      · rw [hc.current_eq_none (by omega), hc'.current_eq_none (by rw [h.blockCount]; omega)]
    cases h'.device t with
    | inl hdev => rw [hdev]; exact h.device t
    | inr hdev => rw [hdev, hcur]; exact .inr rfl
  dirty := fun t ht => (h'.dirty t ht).imp_left (h.dirty t)

section Store

variable {offset : Nat} {bytes : Bytes} (h : Coherent pending c)
  (hs : (c.slot i).sector = some s)

theorem Coherent.stored (h : Coherent pending c) :
    Coherent pending (updateSlot i (·.store offset bytes) c) := by
  have hsector : ∀ j, ((updateSlot i (·.store offset bytes) c).slot j).sector =
      (c.slot j).sector := fun j => by
    rw [slot_updateSlot]
    split <;> rfl
  refine ⟨h.sound, fun j => ?_, fun j k t hj hk => ?_, fun j t hj => ?_, fun j t hp hj hd => ?_⟩
  · rw [hsector]
    exact h.tags j
  · exact h.unique j k t (hsector j ▸ hj) (hsector k ▸ hk)
  · exact h.onDevice j t (hsector j ▸ hj)
  · rw [slot_updateSlot] at hj hd ⊢
    split at hd
    · cases hd
    · rename_i hij
      rw [if_neg hij] at hj ⊢
      exact h.clean j t hp hj hd

include h hs in
/-- Laying bytes over a slot changes its sector and no other. -/
theorem Coherent.changes_stored : Changes {s}
    (fun t => if t = s then (c.current s).map (Block.overlay · offset bytes) else c.current t)
    c (updateSlot i (·.store offset bytes) c) where
  blockCount := rfl
  readAhead := rfl
  evictable := fun j => by
    rw [slot_updateSlot]
    split <;> rfl
  current := fun t _ => by
    have hstored : Coherent pending (updateSlot i (·.store offset bytes) c) := h.stored
    split
    · rename_i hts
      subst hts
      rw [h.current_cached hs,
        hstored.current_cached (i := i) (by rw [slot_updateSlot, if_pos rfl]; exact hs),
        slot_updateSlot, if_pos rfl]
      rfl
    · rename_i hts
      refine h.current_congr hstored (fun j => ?_) (fun j hj => ?_) fun _ => rfl
      · rw [slot_updateSlot]
        split <;> exact Iff.rfl
      · rw [slot_updateSlot, if_neg]
        rintro rfl
        exact hts (Option.some.inj (hj.symm.trans hs))
  device := fun t => .inl rfl
  dirty := fun t ⟨j, hj, hd⟩ => by
    rw [slot_updateSlot] at hj hd
    split at hj
    · rename_i hij
      subst hij
      exact .inr (Option.some.inj (hj.symm.trans hs))
    · rename_i hij
      rw [if_neg hij] at hd
      exact .inl ⟨j, hj, hd⟩

/-- Bytes that fill the sector leave nothing of what was in the slot. -/
theorem updateSlot_store_fillSlot {b : Block} (hfull : sectorSize ≤ bytes.length) :
    updateSlot i (·.store 0 bytes) (fillSlot i b c) = updateSlot i (·.store 0 bytes) c := by
  have hdata : ∀ b b' : Block, Block.overlay b 0 bytes = Block.overlay b' 0 bytes := by
    intro b b'
    apply Vector.ext
    intro k hk
    have hin : 0 ≤ k ∧ k < 0 + bytes.length := ⟨by omega, by simp only [sectorSize] at hfull; omega⟩
    rw [Block.getElem_overlay, Block.getElem_overlay, dif_pos hin, dif_pos hin]
  refine ext_slot (fun j => ?_) rfl
  rw [slot_updateSlot, slot_updateSlot, slot_fillSlot]
  split
  · simp only [Slot.store, hdata b (c.slot j).data]
  · rfl

end Store

section Clear

variable (h : Coherent pending c) (hs : (c.slot i).sector = some s)

theorem slot_clearSlot (c : Cache n) (i j : Fin n) :
    (clearSlot i c).slot j = if i = j then (c.slot j).clear else c.slot j :=
  slot_updateSlot _ i j _

theorem Coherent.cleared (h : Coherent pending c) : Coherent pending (clearSlot i c) := by
  have hsub : ∀ j t, ((clearSlot i c).slot j).sector = some t → i ≠ j ∧ (c.slot j).sector = some t := by
    intro j t hj
    rw [slot_clearSlot] at hj
    split at hj
    · cases hj
    · exact ⟨by assumption, hj⟩
  refine ⟨h.sound, fun j => ?_, fun j k t hj hk => ?_, fun j t hj => ?_, fun j t hp hj hd => ?_⟩
  · rw [slot_clearSlot]
    change (c.tags.set i none).get j = _
    rw [get_tags_set, h.tags]
    split <;> rfl
  · exact h.unique j k t (hsub j t hj).2 (hsub k t hk).2
  · exact h.onDevice j t (hsub j t hj).2
  · obtain ⟨hij, hj⟩ := hsub j t hj
    rw [slot_clearSlot, if_neg hij] at hd ⊢
    exact h.clean j t hp hj hd

include h hs in
/-- Forgetting a slot leaves its sector with what the device holds. -/
theorem Coherent.changes_cleared : Changes ∅
    (fun t => if t = s then c.device.block? s.block else c.current t) c (clearSlot i c) where
  blockCount := rfl
  readAhead := rfl
  evictable := fun j => by
    rw [slot_clearSlot]
    split <;> rfl
  current := fun t _ => by
    have hcleared := h.cleared (i := i)
    split
    · rename_i hts
      subst hts
      rw [hcleared.current_uncached]
      · rfl
      · intro j hj
        rw [slot_clearSlot] at hj
        split at hj
        · cases hj
        · rename_i hij
          exact hij (h.unique i j t hs hj)
    · rename_i hts
      refine h.current_congr hcleared (fun j => ?_) (fun j hj => ?_) fun _ => rfl
      · rw [slot_clearSlot]
        split
        · rename_i hij
          subst hij
          simp [hs, Slot.clear, Ne.symm hts]
        · exact Iff.rfl
      · rw [slot_clearSlot, if_neg]
        rintro rfl
        exact hts (Option.some.inj (hj.symm.trans hs))
  device := fun t => .inl rfl
  dirty := fun t ⟨j, hj, hd⟩ => by
    rw [slot_clearSlot] at hj hd
    split at hj
    · cases hj
    · rename_i hij
      rw [if_neg hij] at hd
      exact .inl ⟨j, hj, hd⟩

end Clear

end Cache
end TieredVolume
