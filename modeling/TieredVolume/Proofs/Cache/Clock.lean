import TieredVolume.Cache.Clock

/-!
What the clock does to a cache. A sweep goes over the slots in the order of the ring; the slots that
it passes by change at most their second chance. Where some slot is evictable, the first sweep finds
every evictable slot taken, marked or dirty, the second leaves them all marked, and the third takes
one, so that the search always ends with a victim.
-/
namespace TieredVolume

variable {n : Nat}

/-- The position `k` steps further on a ring. -/
def onRing (i : Fin n) (k : Nat) : Fin n :=
  ⟨(i.val + k) % n, Nat.mod_lt _ (Nat.lt_of_le_of_lt (Nat.zero_le _) i.isLt)⟩

@[simp] theorem onRing_zero (i : Fin n) : onRing i 0 = i := by
  apply Fin.ext
  simp [onRing, Nat.mod_eq_of_lt i.isLt]

theorem onRing_nextOnRing (i : Fin n) (k : Nat) : onRing (nextOnRing i) k = onRing i (k + 1) := by
  apply Fin.ext
  simp only [onRing, nextOnRing, Nat.mod_add_mod]
  congr 1
  omega

theorem val_onRing {i : Fin n} {k : Nat} (hk : k < n) :
    (onRing i k).val = if i.val + k < n then i.val + k else i.val + k - n := by
  have hi := i.isLt
  split
  · exact Nat.mod_eq_of_lt (by assumption)
  · have hge : n ≤ i.val + k := by omega
    exact (Nat.mod_eq_sub_mod hge).trans (Nat.mod_eq_of_lt (by omega))

theorem onRing_injective {i : Fin n} {j k : Nat} (hj : j < n) (hk : k < n)
    (h : onRing i j = onRing i k) : j = k := by
  have hval := congrArg Fin.val h
  rw [val_onRing hj, val_onRing hk] at hval
  have hi := i.isLt
  split at hval <;> split at hval <;> omega

theorem ne_onRing_succ {i : Fin n} {k : Nat} (hk : k + 1 < n) : i ≠ onRing i (k + 1) := by
  intro h
  have hzero : onRing i 0 = onRing i (k + 1) := by simpa using h
  have := onRing_injective (by omega) hk hzero
  omega

/-- How many steps the hand at `i` has to go to be at `j`. -/
def stepsTo (i j : Fin n) : Nat := if i.val ≤ j.val then j.val - i.val else n + j.val - i.val

theorem stepsTo_lt (i j : Fin n) : stepsTo i j < n := by
  unfold stepsTo
  split <;> omega

@[simp] theorem onRing_stepsTo (i j : Fin n) : onRing i (stepsTo i j) = j := by
  apply Fin.ext
  rw [val_onRing (stepsTo_lt i j), stepsTo]
  split <;> split <;> omega

theorem stepsTo_onRing {i : Fin n} {k : Nat} (hk : k < n) : stepsTo i (onRing i k) = k :=
  onRing_injective (stepsTo_lt i _) hk (onRing_stepsTo i _)

theorem exists_onRing (i j : Fin n) : ∃ k < n, onRing i k = j :=
  ⟨stepsTo i j, stepsTo_lt i j, onRing_stepsTo i j⟩

namespace Cache

variable {c c' c'' : Cache n} {first : Bool}

theorem slot_set (c : Cache n) (i j : Fin n) (s : Slot) (hand : Fin n) :
    ({ c with hand, slots := c.slots.set i s i.isLt } : Cache n).slot j =
      if i = j then s else c.slot j := by
  simp only [slot, Vector.get, Vector.toArray_set, Array.getElem_set, Fin.ext_iff]
  rfl

/-- The hand has gone over `k` slots, none of which was taken. -/
structure Swept (first : Bool) (k : Nat) (c c' : Cache n) : Prop where
  device : c'.device = c.device
  tags : c'.tags = c.tags
  readAhead : c'.readAhead = c.readAhead
  hand : c'.hand = onRing c.hand k
  passed : ∀ j < k, (c.slot (onRing c.hand j)).passedBy first = some (c'.slot (onRing c.hand j))
  rest : ∀ i, (∀ j < k, i ≠ onRing c.hand j) → c'.slot i = c.slot i

theorem Swept.refl (first : Bool) (c : Cache n) : Swept first 0 c c where
  device := rfl
  tags := rfl
  readAhead := rfl
  hand := by simp
  passed := fun j hj => absurd hj (Nat.not_lt_zero j)
  rest := fun _ _ => rfl

/-- The hand passes by the slot it is at and then goes over `k` more. -/
theorem Swept.cons {s : Slot} {k : Nat} (hk : k < n)
    (hs : (c.slot c.hand).passedBy first = some s)
    (h : Swept first k { c with hand := nextOnRing c.hand, slots := c.slots.set c.hand s } c') :
    Swept first (k + 1) c c' where
  device := h.device
  tags := h.tags
  readAhead := h.readAhead
  hand := by rw [h.hand, onRing_nextOnRing]
  passed := by
    intro j hj
    cases j with
    | zero =>
      have hfar : ∀ j < k, c.hand ≠ onRing (nextOnRing c.hand) j := by
        intro j hj
        rw [onRing_nextOnRing]
        exact ne_onRing_succ (by omega)
      rw [onRing_zero, h.rest c.hand hfar, slot_set, if_pos rfl, hs]
    | succ j =>
      have hne : c.hand ≠ onRing c.hand (j + 1) := ne_onRing_succ (by omega)
      have hj := h.passed j (by omega)
      rwa [slot_set, onRing_nextOnRing, if_neg hne] at hj
  rest := by
    intro i hi
    have hne : c.hand ≠ i := by
      intro heq
      exact hi 0 (by omega) (by simpa using heq.symm)
    rw [h.rest i, slot_set, if_neg hne]
    intro j hj
    rw [onRing_nextOnRing]
    exact hi (j + 1) (by omega)

/-- A sweep takes the first slot that is not passed by, or passes by all. -/
theorem sweep_cases (first : Bool) (c : Cache n) {count : Nat} (hcount : count ≤ n) :
    (∃ c', sweep first count c = (none, c') ∧ Swept first count c c') ∨
    ∃ k < count, ∃ c', Swept first k c c' ∧ (c.slot (onRing c.hand k)).passedBy first = none ∧
      sweep first count c =
        (some (onRing c.hand k), { c' with hand := onRing c.hand (k + 1) }) := by
  induction count generalizing c with
  | zero => exact .inl ⟨c, rfl, Swept.refl first c⟩
  | succ count ih =>
    cases hs : (c.slot c.hand).passedBy first with
    | none =>
      refine .inr ⟨0, by omega, c, Swept.refl first c, by simpa using hs, ?_⟩
      simp only [sweep, hs, onRing_zero, ← onRing_nextOnRing]
    | some s =>
      have hstep : sweep first (count + 1) c = sweep first count
          { c with hand := nextOnRing c.hand, slots := c.slots.set c.hand s } := by
        simp only [sweep, hs]
      rw [hstep]
      obtain ⟨c', hc', hswept⟩ | ⟨k, hk, c', hswept, htaken, hc'⟩ :=
        ih (c := { c with hand := nextOnRing c.hand, slots := c.slots.set c.hand s }) (by omega)
      · exact .inl ⟨c', hc', hswept.cons (by omega) hs⟩
      · refine .inr ⟨k + 1, by omega, c', hswept.cons (by omega) hs, ?_, ?_⟩
        · have hne : c.hand ≠ onRing c.hand (k + 1) := ne_onRing_succ (by omega)
          rwa [slot_set, onRing_nextOnRing, if_neg hne] at htaken
        · rw [hc']
          simp only [onRing_nextOnRing]

/-- A sweep without a victim has passed by every slot. -/
theorem Swept.passed_all (h : Swept first n c c') (i : Fin n) :
    (c.slot i).passedBy first = some (c'.slot i) := by
  obtain ⟨k, hk, rfl⟩ := exists_onRing c.hand i
  exact h.passed k hk

/-- Two caches that differ in the hand and in second chances only. -/
structure Marked (c c' : Cache n) : Prop where
  device : c'.device = c.device
  tags : c'.tags = c.tags
  readAhead : c'.readAhead = c.readAhead
  slot : ∀ i, ∃ b, c'.slot i = { c.slot i with secondChance := b }

theorem Marked.trans (h : Marked c c') (h' : Marked c' c'') : Marked c c'' where
  device := h'.device.trans h.device
  tags := h'.tags.trans h.tags
  readAhead := h'.readAhead.trans h.readAhead
  slot := fun i => by
    obtain ⟨b, hb⟩ := h.slot i
    obtain ⟨b', hb'⟩ := h'.slot i
    exact ⟨b', by rw [hb', hb]⟩

theorem passedBy_marks {s s' : Slot} (h : s.passedBy first = some s') :
    ∃ b, s' = { s with secondChance := b } := by
  unfold Slot.passedBy at h
  split at h
  · exact ⟨_, (Option.some.inj h).symm⟩
  split at h
  · cases h
  split at h
  · exact ⟨_, (Option.some.inj h).symm⟩
  · exact ⟨true, (Option.some.inj h).symm⟩

theorem Swept.marked {k : Nat} (h : Swept first k c c') : Marked c c' where
  device := h.device
  tags := h.tags
  readAhead := h.readAhead
  slot := fun i => by
    by_cases hi : ∃ j < k, i = onRing c.hand j
    · obtain ⟨j, hj, rfl⟩ := hi
      exact passedBy_marks (h.passed j hj)
    · refine ⟨(c.slot i).secondChance, h.rest i fun j hj heq => hi ⟨j, hj, heq⟩⟩

theorem Marked.evictable (h : Marked c c') (i : Fin n) :
    (c'.slot i).evictable = (c.slot i).evictable := by
  obtain ⟨b, hb⟩ := h.slot i
  rw [hb]
  rfl

theorem swept_of_sweep (h : sweep first n c = (none, c')) : Swept first n c c' := by
  obtain ⟨c₁, hc₁, hswept⟩ | ⟨k, -, c₁, -, -, hc₁⟩ := sweep_cases first c (Nat.le_refl n)
  · rw [hc₁] at h
    cases h
    exact hswept
  · rw [hc₁] at h
    cases h

/-- The slot that a sweep takes was not passed by. -/
theorem sweep_taken {i : Fin n} (h : sweep first n c = (some i, c')) :
    Marked c c' ∧ (c.slot i).passedBy first = none := by
  obtain ⟨c₁, hc₁, -⟩ | ⟨k, -, c₁, hswept, htaken, hc₁⟩ := sweep_cases first c (Nat.le_refl n)
  · rw [hc₁] at h
    cases h
  · rw [hc₁] at h
    cases h
    exact ⟨⟨hswept.device, hswept.tags, hswept.readAhead, hswept.marked.slot⟩, htaken⟩

theorem evictable_of_sweep {i : Fin n} (h : sweep first n c = (some i, c')) :
    (c'.slot i).evictable := by
  obtain ⟨hm, htaken⟩ := sweep_taken h
  rw [hm.evictable]
  exact (Slot.passedBy_eq_none_iff.mp htaken).1

/-- A later sweep without a victim leaves every evictable slot marked. -/
theorem Swept.marks (h : Swept false n c c') {i : Fin n} (hi : (c'.slot i).evictable) :
    (c'.slot i).secondChance := by
  have hp := h.passed_all i
  have he := h.marked.evictable i ▸ hi
  unfold Slot.passedBy at hp
  rw [if_neg (by simp [he])] at hp
  split at hp
  · cases hp
  · rw [if_neg (by simp)] at hp
    rw [← Option.some.inj hp]

/-- With an evictable slot the search ends, within three sweeps, with one that can be given away. -/
theorem findVictim_spec (h : ∃ i, (c.slot i).evictable) :
    ∃ i c', findVictim c = (some i, c') ∧ Marked c c' ∧ (c'.slot i).evictable := by
  cases h₁ : sweep true n c with
  | mk o₁ c₁ =>
  cases o₁ with
  | some i =>
    exact ⟨i, c₁, by simp only [findVictim, sweeps, h₁], (sweep_taken h₁).1,
      evictable_of_sweep h₁⟩
  | none =>
  have m₁ := (swept_of_sweep h₁).marked
  cases h₂ : sweep false n c₁ with
  | mk o₂ c₂ =>
  cases o₂ with
  | some i =>
    exact ⟨i, c₂, by simp only [findVictim, maxSkipSweeps, sweeps, h₁, h₂],
      m₁.trans (sweep_taken h₂).1, evictable_of_sweep h₂⟩
  | none =>
  have m₂ := m₁.trans (swept_of_sweep h₂).marked
  cases h₃ : sweep false n c₂ with
  | mk o₃ c₃ =>
  cases o₃ with
  | some i =>
    exact ⟨i, c₃, by simp only [findVictim, maxSkipSweeps, sweeps, h₁, h₂, h₃],
      m₂.trans (sweep_taken h₃).1, evictable_of_sweep h₃⟩
  | none =>
    obtain ⟨i, hi⟩ := h
    rw [← m₂.evictable] at hi
    have hmarked := (swept_of_sweep h₂).marks hi
    have hp := (swept_of_sweep h₃).passed_all i
    rw [Slot.passedBy_eq_none_iff.mpr ⟨hi, .inr hmarked⟩] at hp
    cases hp

end Cache

end TieredVolume
