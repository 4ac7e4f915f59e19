import TieredVolume.Proofs.Cache.Access

/-!
Which slot the clock gives up, told by the slots as the search finds them. A sweep takes the first
slot that is empty or has its second chance set; if there is none, it marks what the next one takes.
So the victim is the first such slot from the hand on, else the first clean one, else the first of
all that can be taken, and three sweeps are enough for each of these.
-/
namespace TieredVolume

variable {n : Nat}

namespace Slot

/-- The clock takes such a slot wherever it meets it. -/
def Prompt (s : Slot) : Prop := s.evictable = true ∧ (s.sector = none ∨ s.secondChance = true)

/-- The slot with its second chance set, if `b` says so. -/
def flag (s : Slot) (b : Bool) : Slot := if b then { s with secondChance := true } else s

/-- Whether a sweep marks a slot that it passes by. -/
def marks (first : Bool) (s : Slot) : Bool := s.evictable && !(s.dirty && first)

variable {s s' : Slot} {first : Bool}

@[simp] theorem sector_flag (s : Slot) (b : Bool) : (s.flag b).sector = s.sector := by
  cases b <;> rfl

@[simp] theorem dirty_flag (s : Slot) (b : Bool) : (s.flag b).dirty = s.dirty := by
  cases b <;> rfl

@[simp] theorem data_flag (s : Slot) (b : Bool) : (s.flag b).data = s.data := by
  cases b <;> rfl

@[simp] theorem evictable_flag (s : Slot) (b : Bool) : (s.flag b).evictable = s.evictable := by
  cases b <;> rfl

@[simp] theorem secondChance_flag (s : Slot) (b : Bool) :
    (s.flag b).secondChance = (b || s.secondChance) := by
  cases b <;> rfl

@[simp] theorem marks_flag (s : Slot) (b : Bool) : (s.flag b).marks first = s.marks first := by
  simp [marks]

@[simp] theorem flag_flag (s : Slot) (a b : Bool) : (s.flag a).flag b = s.flag (a || b) := by
  cases a <;> cases b <;> rfl

theorem passedBy_eq_some_iff :
    s.passedBy first = some s' ↔ ¬ s.Prompt ∧ s' = s.flag (s.marks first) := by
  unfold passedBy Prompt flag marks
  cases s.evictable <;> cases s.sector <;> cases s.secondChance <;> cases s.dirty <;> cases first <;>
    simp [eq_comm]

/-- A slot that was passed by is taken the next time just if it was marked. -/
theorem prompt_flag_iff {b : Bool} (h : ¬ s.Prompt) :
    (s.flag b).Prompt ↔ s.evictable = true ∧ b = true := by
  simp only [Prompt, evictable_flag, sector_flag, secondChance_flag, Bool.or_eq_true] at h ⊢
  grind

end Slot

namespace Cache

variable {c c' c'' : Cache n} {first : Bool}

/-- The hand comes to `j` before it comes to `i`. -/
def before (c : Cache n) (j i : Fin n) : Bool := decide (stepsTo c.hand j < stepsTo c.hand i)

/-- Slot `i` is the first from the hand on of those that are as `p` says. -/
structure First (c : Cache n) (p : Slot → Prop) (i : Fin n) : Prop where
  holds : p (c.slot i)
  least : ∀ j, p (c.slot j) → c.before j i = false

/-- The hand has moved to `hand`, and the slots in `marked` have their second chance set. -/
structure Passed (hand : Fin n) (marked : Fin n → Bool) (c c' : Cache n) : Prop where
  device : c'.device = c.device
  tags : c'.tags = c.tags
  readAhead : c'.readAhead = c.readAhead
  hand : c'.hand = hand
  slot : ∀ j, c'.slot j = (c.slot j).flag (marked j)

theorem Passed.trans {hand hand' : Fin n} {marked marked' : Fin n → Bool}
    (h : Passed hand marked c c') (h' : Passed hand' marked' c' c'') :
    Passed hand' (fun j => marked j || marked' j) c c'' where
  device := h'.device.trans h.device
  tags := h'.tags.trans h.tags
  readAhead := h'.readAhead.trans h.readAhead
  hand := h'.hand
  slot := fun j => by simp [h'.slot, h.slot]

theorem Passed.congr {hand : Fin n} {marked marked' : Fin n → Bool}
    (h : Passed hand marked c c') (heq : ∀ j, marked j = marked' j) : Passed hand marked' c c' where
  device := h.device
  tags := h.tags
  readAhead := h.readAhead
  hand := h.hand
  slot := fun j => by rw [← heq, h.slot]

theorem Swept.not_prompt {k : Nat} (h : Swept first k c c') {j : Fin n}
    (hj : stepsTo c.hand j < k) : ¬ (c.slot j).Prompt := by
  have hpassed := h.passed _ hj
  rw [onRing_stepsTo] at hpassed
  exact (Slot.passedBy_eq_some_iff.mp hpassed).1

theorem Swept.slot {k : Nat} (h : Swept first k c c') (j : Fin n) :
    c'.slot j = (c.slot j).flag (decide (stepsTo c.hand j < k) && (c.slot j).marks first) := by
  by_cases hj : stepsTo c.hand j < k
  · have hpassed := h.passed _ hj
    rw [onRing_stepsTo] at hpassed
    simpa [hj] using (Slot.passedBy_eq_some_iff.mp hpassed).2
  · rw [h.rest]
    · simp [hj, Slot.flag]
    · intro m hm heq
      subst heq
      by_cases hmn : m < n
      · rw [stepsTo_onRing hmn] at hj
        exact hj hm
      · have := stepsTo_lt c.hand (onRing c.hand m)
        omega

/-- A whole sweep takes the first slot that is prompt, or marks what it passes by and comes back. -/
theorem sweep_first (first : Bool) (c : Cache n) :
    (∃ c', sweep first n c = (none, c') ∧ (∀ j, ¬ (c.slot j).Prompt) ∧
      Passed c.hand (fun j => (c.slot j).marks first) c c') ∨
    ∃ i c', sweep first n c = (some i, c') ∧ First c Slot.Prompt i ∧
      Passed (nextOnRing i) (fun j => c.before j i && (c.slot j).marks first) c c' := by
  obtain ⟨c', hsweep, hswept⟩ | ⟨k, hk, c', hswept, htaken, hsweep⟩ :=
    sweep_cases first c (Nat.le_refl n)
  · left
    refine ⟨c', hsweep, fun j => hswept.not_prompt (stepsTo_lt c.hand j), hswept.device,
      hswept.tags, hswept.readAhead, ?_, fun j => ?_⟩
    · rw [hswept.hand]
      apply Fin.ext
      simp [onRing, Nat.mod_eq_of_lt c.hand.isLt]
    · simp [hswept.slot, stepsTo_lt]
  · right
    have hsteps : stepsTo c.hand (onRing c.hand k) = k := stepsTo_onRing hk
    refine ⟨_, _, hsweep, ⟨Slot.passedBy_eq_none_iff.mp htaken, fun j hj => ?_⟩, hswept.device,
      hswept.tags, hswept.readAhead, ?_, fun j => ?_⟩
    · rw [before, hsteps, decide_eq_false_iff_not]
      intro hlt
      exact hswept.not_prompt hlt hj
    · simp [nextOnRing, onRing, Nat.add_assoc]
    · rw [before, hsteps]
      exact hswept.slot j

/-- The slot that the clock gives up and the slots that get their second chance on the way, told by
the slots as the search finds them. -/
inductive Picks (c : Cache n) : Fin n → (Fin n → Bool) → Prop where
  /-- The first slot that is empty or has its second chance; clean ones before it are marked. -/
  | prompt {i : Fin n} : First c (fun s => s.evictable = true ∧
      (s.sector = none ∨ s.secondChance = true)) i →
    Picks c i fun j => c.before j i && ((c.slot j).evictable && !(c.slot j).dirty)
  /-- Else the first clean slot; all clean ones and the dirty ones before it are marked. -/
  | clean {i : Fin n} : (∀ j, (c.slot j).evictable = true →
      (c.slot j).sector ≠ none ∧ (c.slot j).secondChance = false) →
    First c (fun s => s.evictable = true ∧ s.dirty = false) i →
    Picks c i fun j => (c.slot j).evictable && (!(c.slot j).dirty || c.before j i)
  /-- Else the first slot; all are marked. -/
  | dirty {i : Fin n} : (∀ j, (c.slot j).evictable = true → (c.slot j).sector ≠ none ∧
      (c.slot j).secondChance = false ∧ (c.slot j).dirty = true) →
    First c (fun s => s.evictable = true) i →
    Picks c i fun j => (c.slot j).evictable

theorem not_prompt_iff {s : Slot} : ¬ s.Prompt ↔
    (s.evictable = true → s.sector ≠ none ∧ s.secondChance = false) := by
  simp [Slot.Prompt]

/-- What a sweep without a victim marks is what the next sweep takes. -/
theorem Passed.first_of {marked : Fin n → Bool} {i : Fin n} (h : Passed c.hand marked c c')
    (hnone : ∀ j, ¬ (c.slot j).Prompt) (hi : First c' Slot.Prompt i) {p : Slot → Prop}
    (hp : ∀ j, p (c.slot j) ↔ (c.slot j).evictable = true ∧ marked j = true) : First c p i := by
  have hprompt : ∀ j, (c'.slot j).Prompt ↔ p (c.slot j) := by
    intro j
    rw [h.slot, Slot.prompt_flag_iff (hnone j), hp]
  refine ⟨(hprompt i).mp hi.holds, fun j hj => ?_⟩
  have hleast := hi.least j ((hprompt j).mpr hj)
  simpa only [before, h.hand] using hleast

/-- With a slot that can be taken, three sweeps find the victim, and longer searches end there. -/
theorem sweeps_pick (h : ∃ i, (c.slot i).evictable = true) : ∃ i marked c', Picks c i marked ∧
    Passed (nextOnRing i) marked c c' ∧ ∀ more, sweeps true (more + 3) c = (some i, c') := by
  obtain ⟨c₁, h₁, hnone, hp₁⟩ | ⟨i, c₁, h₁, hi, hp₁⟩ := sweep_first true c
  case inr =>
    refine ⟨i, _, c₁, .prompt hi, hp₁.congr fun j => ?_, fun more => ?_⟩
    · simp [Slot.marks]
    · simp only [sweeps, h₁]
  -- nothing was taken at once, and the clean slots are marked
  obtain ⟨c₂, h₂, hnone₂, hp₂⟩ | ⟨i, c₂, h₂, hi, hp₂⟩ := sweep_first false c₁
  case inr =>
    refine ⟨i, _, c₂, .clean (fun j => not_prompt_iff.mp (hnone j))
      (hp₁.first_of hnone hi fun j => ?_), (hp₁.trans hp₂).congr fun j => ?_, fun more => ?_⟩
    · simp [Slot.marks]
    · have hbefore : c₁.before j i = c.before j i := by simp only [before, hp₁.hand]
      rw [hbefore, hp₁.slot, Slot.marks_flag]
      cases hev : (c.slot j).evictable <;> simp [Slot.marks, hev]
    · simp only [sweeps, h₁, h₂]
  -- nothing was clean either, and now all are marked
  have hdirty : ∀ j, (c.slot j).evictable = true → (c.slot j).dirty = true := by
    intro j hj
    have hleft := hnone₂ j
    rw [hp₁.slot, Slot.prompt_flag_iff (hnone j)] at hleft
    simpa [Slot.marks, hj] using hleft
  have hall : Passed c.hand (fun j => (c.slot j).evictable) c c₂ := by
    rw [hp₁.hand] at hp₂
    refine (hp₁.trans hp₂).congr fun j => ?_
    rw [hp₁.slot, Slot.marks_flag]
    cases hev : (c.slot j).evictable <;> simp [Slot.marks, hev]
  obtain ⟨c₃, h₃, hnone₃, hp₃⟩ | ⟨i, c₃, h₃, hi, hp₃⟩ := sweep_first false c₂
  case inr =>
    refine ⟨i, _, c₃, .dirty (fun j hj => ?_) (hall.first_of hnone hi fun j => by simp),
      (hall.trans hp₃).congr fun j => ?_, fun more => ?_⟩
    · obtain ⟨hsector, hchance⟩ := not_prompt_iff.mp (hnone j) hj
      exact ⟨hsector, hchance, hdirty j hj⟩
    · rw [hall.slot, Slot.marks_flag]
      cases hev : (c.slot j).evictable <;> simp [Slot.marks, hev]
    · simp only [sweeps, h₁, h₂, h₃]
  -- the third sweep takes what the second has marked
  obtain ⟨i, hi⟩ := h
  refine absurd ?_ (hnone₃ i)
  rw [hall.slot, Slot.prompt_flag_iff (hnone i)]
  exact ⟨hi, hi⟩

/-- A slot with unwritten contents is written to the device once, whatever comes of it. -/
theorem flushSlot_of_dirty {i : Fin n} {s : Sector} (hs : (c.slot i).sector = some s)
    (hd : (c.slot i).dirty = true) : flushSlot i c =
      match Device.writeBlock s.block (c.slot i).data c.device with
      | .ok _ d => .ok () (flushedSlot i d c)
      | .error e d => .error e { c with device := d } := by
  have hget : (get : CacheM n (Cache n)) c = .ok c c := rfl
  simp only [flushSlot, bind, EStateM.bind, hget, hs, if_pos hd, onDevice]
  cases Device.writeBlock s.block (c.slot i).data c.device with
  | ok _ d => rfl
  | error e d => rfl

theorem evict_eq {i : Fin n} (h : findVictim c = (some i, c')) :
    evict c = (do flushSlot i; return i) c' := by
  have hmodify : (modifyGet findVictim : CacheM n (Option (Fin n))) c = .ok (some i) c' := by
    change EStateM.Result.ok (findVictim c).1 (findVictim c).2 = _
    rw [h]
  simp only [evict, bind, EStateM.bind, hmodify]

/-- The clock with a slot that can be taken. The search is over within three sweeps, so that it
never comes to the last of those it is given. The victim is the first slot from the hand on that is
empty or has its second chance, else the first clean one, else the first; the marks on the way are
all that changes in the other slots, and the hand is left just past the victim. If the victim has
unwritten contents, they are written to the device once, and nothing else goes there. -/
theorem evict_picks (h : ∃ i, (c.slot i).evictable = true) :
    ∃ i marked c', Picks c i marked ∧
      (∀ more, sweeps true (more + 3) c = (some i, c')) ∧ findVictim c = (some i, c') ∧
      c'.device = c.device ∧ c'.tags = c.tags ∧ c'.readAhead = c.readAhead ∧
      c'.hand = nextOnRing i ∧
      (∀ j, c'.slot j = if marked j then { c.slot j with secondChance := true } else c.slot j) ∧
      ((c.slot i).sector = none ∨ (c.slot i).dirty = false → evict c = .ok i c') ∧
      ∀ s, (c.slot i).sector = some s → (c.slot i).dirty = true → evict c =
        match Device.writeBlock s.block (c.slot i).data c.device with
        | .ok _ d => .ok i (updateSlot i ({ · with dirty := false }) { c' with device := d })
        | .error e d => .error e { c' with device := d } := by
  obtain ⟨i, marked, c', hpicks, hpassed, hsweeps⟩ := sweeps_pick h
  have hfind : findVictim c = (some i, c') := hsweeps 3
  have hslot : (c'.slot i).sector = (c.slot i).sector ∧ (c'.slot i).dirty = (c.slot i).dirty ∧
      (c'.slot i).data = (c.slot i).data := by simp [hpassed.slot]
  refine ⟨i, marked, c', hpicks, hsweeps, hfind, hpassed.device, hpassed.tags, hpassed.readAhead,
    hpassed.hand, hpassed.slot, fun hclean => ?_, fun s hs hd => ?_⟩
  · have hidle : flushSlot i c' = .ok () c' := by
      refine flushSlot_eq_self fun hne => ?_
      rw [hslot.1] at hne
      rw [hslot.2.1]
      exact hclean.resolve_left hne
    simp only [evict_eq hfind, bind, EStateM.bind, hidle, pure, EStateM.pure]
  · have hflush := flushSlot_of_dirty (hslot.1.trans hs) (hslot.2.1.trans hd)
    rw [hslot.2.2, hpassed.device] at hflush
    simp only [evict_eq hfind, bind, EStateM.bind, hflush]
    cases Device.writeBlock s.block (c.slot i).data c.device with
    | ok _ d => rfl
    | error e d => rfl

/-- Three slots with the hand at the second, which is locked; the others are dirty, so the third is
taken when the hand comes to it for the third time. -/
theorem evict_picks_dirty :
    let c : Cache 3 := {
      device := .memory (MemoryDisk.blank 3)
      tags := #v[some ⟨0⟩, some ⟨1⟩, some ⟨2⟩]
      slots := #v[{ sector := some ⟨0⟩, dirty := true }, { sector := some ⟨1⟩, locked := true },
        { sector := some ⟨2⟩, dirty := true }]
      hand := 1 }
    (∃ i, (c.slot i).evictable = true) ∧ ∃ marked c', Picks c 2 marked ∧
      findVictim c = (some 2, c') ∧ c'.hand = 0 := by
  intro c
  have hready : ∃ i, (c.slot i).evictable = true := ⟨0, rfl⟩
  obtain ⟨i, marked, c', hpicks, -, hfind, -, -, -, hhand, -⟩ := evict_picks hready
  have hvictim : (findVictim c).1 = some 2 := by decide
  rw [hfind] at hvictim
  obtain rfl : i = 2 := Option.some.inj hvictim
  exact ⟨hready, marked, c', hpicks, hfind, hhand⟩

end Cache

end TieredVolume
