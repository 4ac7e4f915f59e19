import Mathlib.Data.Finset.Card
import Mathlib.Order.Interval.Finset.Nat
import TieredVolume.Space.FreeMap
import TieredVolume.Proofs.Outcome

/-!
The free map as a set of sectors: what setting and clearing bits does to it, and that the search
finds the first run of free sectors that is long enough, if there is one.
-/
namespace TieredVolume
namespace FreeMap

variable {m m' : FreeMap} {count start index : Nat} {value : Bool}

@[simp] theorem total_setUsed : (m.setUsed index value).total = m.total := rfl

theorem isUsed_setUsed (h : index < m.total) (i : Nat) :
    (m.setUsed index value).isUsed i = if i = index then value else m.isUsed i := by
  have hbits := Nat.lt_of_lt_of_le h (le_mapBits m.total)
  unfold isUsed setUsed
  by_cases hi : i < mapBits m.total
  · simp only [dif_pos hi, Vector.getElem_setIfInBounds, eq_comm]
  · have hne : ¬ i = index := fun heq => hi (heq ▸ hbits)
    simp only [dif_neg hi, if_neg hne]

@[simp] theorem total_take : (take start count m).total = m.total := by
  induction count generalizing m start with
  | zero => rfl
  | succ count ih => rw [take, ih, total_setUsed]

theorem isUsed_take (h : start + count ≤ m.total) (i : Nat) :
    (take start count m).isUsed i =
      if start ≤ i ∧ i < start + count then true else m.isUsed i := by
  induction count generalizing m start with
  | zero => rw [take, if_neg (by omega)]
  | succ count ih =>
    rw [take, ih (by rw [total_setUsed]; omega), isUsed_setUsed (by omega)]
    grind

theorem isUsed?_eq (h : index < m.total) : m.isUsed? index = some (m.isUsed index) := by
  have hbits := Nat.lt_of_lt_of_le h (le_mapBits m.total)
  rw [isUsed?, isUsed, dif_pos hbits, Vector.getElem?_eq_getElem hbits]

/-- Giving back sectors in use clears their bits. -/
theorem giveBack_yields (h : start + count ≤ m.total)
    (hused : ∀ i, start ≤ i → i < start + count → m.isUsed i = true) :
    Yields never (giveBack start count) m fun _ m' => m'.total = m.total ∧
      ∀ i, m'.isUsed i = if start ≤ i ∧ i < start + count then false else m.isUsed i := by
  induction count generalizing m start with
  | zero => exact Yields.pure ⟨rfl, fun i => by rw [if_neg (by omega)]⟩
  | succ count ih =>
    have hstep : giveBack start (count + 1) m =
        giveBack (start + 1) count (m.setUsed start false) := by
      have hbit : m.isUsed? start = some true := by
        rw [isUsed?_eq (by omega), hused start (Nat.le_refl _) (by omega)]
      simp only [giveBack, hbit]
    have hroom : start + 1 + count ≤ (m.setUsed start false).total := by
      rw [total_setUsed]
      omega
    have hrest : Yields never _ _ _ := ih hroom fun i hi hi' => by
        rw [isUsed_setUsed (by omega), if_neg (by omega), hused i (by omega) (by omega)]
    obtain ⟨u, m', hrun, htotal, hbits⟩ := hrest.ok_of_never
    refine Yields.intro_ok (hstep.trans hrun) ⟨htotal, fun i => ?_⟩
    rw [hbits, isUsed_setUsed (by omega)]
    grind

/-- No bit is set that belongs to no sector. -/
def Tidy (m : FreeMap) : Prop := ∀ i, m.total ≤ i → i < mapBits m.total → m.isUsed i = false

theorem isUsed_ofReserved {total reserved i : Nat} (hi : i < mapBits total) :
    (ofReserved total reserved).isUsed i = decide (i < reserved) := by
  simp [isUsed, ofReserved, hi]

theorem tidy_ofReserved {total reserved : Nat} (hroom : reserved ≤ total) :
    (ofReserved total reserved).Tidy := fun i hi hbits => by
  have hlt : i < mapBits total := hbits
  rw [isUsed_ofReserved hlt, decide_eq_false (Nat.not_lt.mpr (Nat.le_trans hroom hi))]

/-- Only bits of sectors are changed. -/
theorem Tidy.of_bits (h : m.Tidy) (htotal : m'.total = m.total)
    (hbits : ∀ i, m.total ≤ i → m'.isUsed i = m.isUsed i) : m'.Tidy := fun i hi hi' => by
  rw [htotal] at hi hi'
  rw [hbits i hi, h i hi hi']

/-- A map is told by its bits. -/
theorem eq_of_isUsed (htotal : m'.total = m.total)
    (hbits : ∀ i < mapBits m.total, m'.isUsed i = m.isUsed i) : m' = m := by
  cases m with
  | mk total used =>
  cases m' with
  | mk total' used' =>
  obtain rfl : total' = total := htotal
  refine congrArg (mk total') (Vector.ext fun i hi => ?_)
  simpa only [isUsed, dif_pos hi] using hbits i hi

/-- Two maps without stray bits are equal if the same sectors are in use. -/
theorem Tidy.eq_of_isUsed (h : m.Tidy) (h' : m'.Tidy) (htotal : m'.total = m.total)
    (hused : ∀ i < m.total, m'.isUsed i = m.isUsed i) : m' = m := by
  refine FreeMap.eq_of_isUsed htotal fun i hi => ?_
  by_cases hlt : i < m.total
  · exact hused i hlt
  · rw [h i (Nat.not_lt.mp hlt) hi, h' i (htotal ▸ Nat.not_lt.mp hlt) (htotal ▸ hi)]

/-! ### Counting -/

theorem countFree_eq (m : FreeMap) (left index sum : Nat) :
    m.countFree left index sum =
      sum + (List.range' index left).countP fun i => !m.isUsed i := by
  induction left generalizing index sum with
  | zero => rfl
  | succ left ih =>
    rw [countFree, ih, List.range'_succ, List.countP_cons]
    cases m.isUsed index with
    | true => simp
    | false => simp; omega

/-- The sectors that are free. -/
def free (m : FreeMap) : Finset Nat := (Finset.range m.total).filter fun i => m.isUsed i = false

@[simp] theorem mem_free {i : Nat} : i ∈ m.free ↔ i < m.total ∧ m.isUsed i = false := by
  rw [free, Finset.mem_filter, Finset.mem_range]

theorem freeCount_eq_card (m : FreeMap) : m.freeCount = m.free.card := by
  have hbits : (fun i => !m.isUsed i) = fun i => decide (m.isUsed i = false) := by
    funext i
    cases m.isUsed i <;> rfl
  rw [freeCount, countFree_eq, Nat.zero_add, ← List.range_eq_range', List.countP_eq_length_filter,
    hbits]
  rfl

/-! ### Searching -/

/-- From `start` on, `count` sectors are free. -/
def FreeRun (m : FreeMap) (count start : Nat) : Prop :=
  start + count ≤ m.total ∧ ∀ i, start ≤ i → i < start + count → m.isUsed i = false

/-- The bits behind the last sector are of no account. -/
theorem freeRun_congr (htotal : m'.total = m.total)
    (hbits : ∀ i < m.total, m'.isUsed i = m.isUsed i) :
    m'.FreeRun count start ↔ m.FreeRun count start := by
  unfold FreeRun
  rw [htotal]
  refine and_congr_right fun hend => forall_congr' fun i => ?_
  exact imp_congr_right fun _ => forall_congr' fun hi => by
    rw [hbits i (Nat.lt_of_lt_of_le hi hend)]

/-- What a request for `count` sectors is to be answered: where the first free run starts, or that
there is none. -/
def Fits (m : FreeMap) (count : Nat) : Except Refusal Sector → Prop
  | .ok s => m.FreeRun count s.block ∧ ∀ s' < s.block, ¬ m.FreeRun count s'
  | .error why => why = .noSpace ∧ ∀ s, ¬ m.FreeRun count s

theorem Fits.congr {answer : Except Refusal Sector} (h : m.Fits count answer)
    (htotal : m'.total = m.total) (hbits : ∀ i < m.total, m'.isUsed i = m.isUsed i) :
    m'.Fits count answer := by
  cases answer with
  | ok s =>
    exact ⟨(freeRun_congr htotal hbits).mpr h.1, fun s' hs' hrun =>
      h.2 s' hs' ((freeRun_congr htotal hbits).mp hrun)⟩
  | error why => exact ⟨h.1, fun s hrun => h.2 s ((freeRun_congr htotal hbits).mp hrun)⟩

/-- There is only one such answer. -/
theorem Fits.unique {a b : Except Refusal Sector} (h : m.Fits count a) (h' : m.Fits count b) :
    a = b := by
  cases a with
  | error why =>
    cases b with
    | error why' => rw [h.1, h'.1]
    | ok s' => exact absurd h'.1 (h.2 s'.block)
  | ok s =>
    cases b with
    | error why' => exact absurd h.1 (h'.2 s.block)
    | ok s' =>
      refine congrArg Except.ok (Sector.block_injective (Nat.le_antisymm ?_ ?_))
      · exact Nat.not_lt.mp fun hlt => h.2 _ hlt h'.1
      · exact Nat.not_lt.mp fun hlt => h'.2 _ hlt h.1

/-- The search looks at sectors in order; the `run` sectors before `index` are free, and no run that
is long enough starts before those. -/
theorem findRun_spec {left run : Nat} (hleft : index + left = m.total) (hrun : run < count)
    (hle : run ≤ index) (hfree : ∀ i, index - run ≤ i → i < index → m.isUsed i = false)
    (hnone : ∀ s, s < index - run → ¬ m.FreeRun count s) :
    match m.findRun count left index run with
    | some s => m.FreeRun count s ∧ ∀ s' < s, ¬ m.FreeRun count s'
    | none => ∀ s, ¬ m.FreeRun count s := by
  induction left generalizing index run with
  | zero =>
    intro s hs
    by_cases hlt : s < index - run
    · exact hnone s hlt hs
    · have hend := hs.1
      omega
  | succ left ih =>
    rw [findRun]
    by_cases hused : m.isUsed index = true
    · rw [if_pos hused]
      refine ih (by omega) (by omega) (Nat.zero_le _) (fun i hi hi' => by omega) fun s hs hfit => ?_
      by_cases hlt : s < index - run
      · exact hnone s hlt hfit
      · rw [hfit.2 index (by omega) (by omega)] at hused
        cases hused
    · have hclear : m.isUsed index = false := by simpa using hused
      have hfree' : ∀ i, index - run ≤ i → i < index + 1 → m.isUsed i = false := fun i hi hi' => by
        by_cases heq : i = index
        · rw [heq, hclear]
        · exact hfree i hi (by omega)
      rw [if_neg hused]
      by_cases hfound : run + 1 = count
      · rw [if_pos hfound]
        have hstart : index + 1 - count = index - run := by omega
        simp only [hstart]
        exact ⟨⟨by omega, fun i hi hi' => hfree' i hi (by omega)⟩, hnone⟩
      · rw [if_neg hfound]
        exact ih (by omega) (by omega) (by omega) (fun i hi hi' => hfree' i (by omega) hi')
          fun s hs => hnone s (by omega)

theorem firstFit_spec (hcount : 0 < count) :
    match m.firstFit count with
    | some s => m.FreeRun count s ∧ ∀ s' < s, ¬ m.FreeRun count s'
    | none => ∀ s, ¬ m.FreeRun count s :=
  findRun_spec (by omega) hcount (Nat.le_refl _) (fun i hi hi' => by omega)
    fun s hs => absurd hs (by omega)

end FreeMap
end TieredVolume
