import TieredVolume.Disk.Record

/-!
The way from a file header to a logical sector. The first 11 sectors of a file hang on the header,
the next 65 * 64 on index blocks, the last 3 * 64 * 64 on index blocks of index blocks; within a
tier the number of a sector, written in base 64, spells its way. `locate?` and `logical` are inverse
to each other, so every way leads to one logical sector and every logical sector has one way.
-/
namespace TieredVolume

/-- Logical sectors that the first two tiers reach. -/
abbrev indirectReach : Nat := 4171

/-- Logical sectors that a header reaches. -/
abbrev maxSectors : Nat := 16459

theorem indirectReach_eq : indirectReach = directLinks + indirectLinks * blockLinks := rfl

theorem maxSectors_eq : maxSectors = indirectReach + doublyLinks * blockLinks * blockLinks := rfl

/-- A position in the index of a file. -/
inductive IndexPath where
  | direct (slot : Fin 11)
  | indirect (slot : Fin 65) (child : Fin 64)
  | doubly (slot : Fin 3) (mid leaf : Fin 64)
  deriving DecidableEq, Repr

namespace IndexPath

/-- The way to a logical sector, if the index reaches it. -/
def locate? (n : Nat) : Option IndexPath :=
  if h : n < 11 then some (.direct ⟨n, h⟩)
  else if h' : n < 4171 then
    some (.indirect ⟨(n - 11) / 64, by omega⟩ ⟨(n - 11) % 64, by omega⟩)
  else if h'' : n < 16459 then
    some (.doubly ⟨(n - 4171) / 4096, by omega⟩ ⟨(n - 4171) / 64 % 64, by omega⟩
      ⟨(n - 4171) % 64, by omega⟩)
  else none

/-- The way to a logical sector; one that no index reaches is a fault. -/
def locate (n : Nat) : Except Fault IndexPath :=
  match locate? n with
  | some path => .ok path
  | none => .error (.pastIndex maxSectors)

/-- The logical sector to which a way leads. -/
def logical : IndexPath → Nat
  | direct slot => slot.val
  | indirect slot child => 11 + 64 * slot.val + child.val
  | doubly slot mid leaf => 4171 + 4096 * slot.val + 64 * mid.val + leaf.val

/-- The link of the header at which a way starts. -/
def slot : IndexPath → Nat
  | direct slot => slot.val
  | indirect slot _ => 11 + slot.val
  | doubly slot _ _ => 76 + slot.val

/-- The children to take in the index blocks on a way. -/
def steps : IndexPath → List (Fin 64)
  | direct _ => []
  | indirect _ child => [child]
  | doubly _ mid leaf => [mid, leaf]

/-- How many index blocks lie between link `slot` of a header and the data sectors behind it. -/
def depthOf (slot : Nat) : Nat :=
  if slot < 11 then 0 else if slot < 76 then 1 else 2

@[simp] theorem depthOf_slot (p : IndexPath) : depthOf p.slot = p.steps.length := by
  rcases p with ⟨s, hs⟩ | ⟨⟨s, hs⟩, c⟩ | ⟨⟨s, hs⟩, m, l⟩ <;>
    simp only [depthOf, slot, steps, List.length_nil, List.length_cons] <;> grind

theorem slot_lt (p : IndexPath) : p.slot < 79 := by
  rcases p with ⟨s, hs⟩ | ⟨⟨s, hs⟩, c⟩ | ⟨⟨s, hs⟩, m, l⟩ <;> simp only [slot] <;> omega

theorem logical_lt (p : IndexPath) : p.logical < 16459 := by
  rcases p with ⟨s, hs⟩ | ⟨⟨s, hs⟩, c, hc⟩ | ⟨⟨s, hs⟩, ⟨m, hm⟩, l, hl⟩ <;>
    simp only [logical] <;> omega

theorem locate?_eq_some_iff {n : Nat} {p : IndexPath} : locate? n = some p ↔ p.logical = n := by
  constructor
  · intro h
    unfold locate? at h
    split at h
    · cases h; rfl
    split at h
    · cases h; simp only [logical]; omega
    split at h
    · cases h; simp only [logical]; omega
    · cases h
  · intro h
    unfold locate?
    rcases p with ⟨s, hs⟩ | ⟨⟨s, hs⟩, c, hc⟩ | ⟨⟨s, hs⟩, ⟨m, hm⟩, l, hl⟩ <;> simp only [logical] at h
    · rw [dif_pos (by omega)]
      simp [h]
    · rw [dif_neg (by omega), dif_pos (by omega)]
      simp only [Option.some.injEq, indirect.injEq, Fin.mk.injEq]
      omega
    · rw [dif_neg (by omega), dif_neg (by omega), dif_pos (by omega)]
      simp only [Option.some.injEq, doubly.injEq, Fin.mk.injEq]
      omega

theorem locate?_eq_none_iff {n : Nat} : locate? n = none ↔ maxSectors ≤ n := by
  unfold locate?
  grind

end IndexPath

end TieredVolume
