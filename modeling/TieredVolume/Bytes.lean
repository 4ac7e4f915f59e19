/-!
Byte strings, little-endian words, and blocks of one sector. A block is looked at through `slice`
and changed through `overlay`, which touches exactly the bytes it is given.
-/
namespace TieredVolume

abbrev Bytes := List UInt8

/-- Bytes in a sector. -/
abbrev sectorSize : Nat := 512

/-- Byte `i` of a word, counted from the lowest. -/
def wordByte (w : UInt32) : Nat → UInt8
  | 0 => UInt8.ofNat w.toNat
  | 1 => UInt8.ofNat (w.toNat / 256)
  | 2 => UInt8.ofNat (w.toNat / 65536)
  | _ => UInt8.ofNat (w.toNat / 16777216)

/-- The word whose bytes, lowest first, are the four given. -/
def wordOf (a b c d : UInt8) : UInt32 :=
  UInt32.ofNat (a.toNat + 256 * b.toNat + 65536 * c.toNat + 16777216 * d.toNat)

@[simp] theorem wordOf_wordByte (w : UInt32) :
    wordOf (wordByte w 0) (wordByte w 1) (wordByte w 2) (wordByte w 3) = w := by
  apply UInt32.toNat_inj.mp
  have h := w.toNat_lt
  simp only [wordOf, wordByte, UInt32.toNat_ofNat', UInt8.toNat_ofNat']
  omega

theorem toNat_wordOf (a b c d : UInt8) : (wordOf a b c d).toNat =
    a.toNat + 256 * b.toNat + 65536 * c.toNat + 16777216 * d.toNat := by
  have ha := a.toNat_lt
  have hb := b.toNat_lt
  have hc := c.toNat_lt
  have hd := d.toNat_lt
  simp only [wordOf, UInt32.toNat_ofNat']
  omega

@[simp] theorem wordByte_wordOf_zero (a b c d : UInt8) : wordByte (wordOf a b c d) 0 = a := by
  apply UInt8.toNat_inj.mp
  have ha := a.toNat_lt
  simp only [wordByte, toNat_wordOf, UInt8.toNat_ofNat']
  omega

@[simp] theorem wordByte_wordOf_one (a b c d : UInt8) : wordByte (wordOf a b c d) 1 = b := by
  apply UInt8.toNat_inj.mp
  have ha := a.toNat_lt
  have hb := b.toNat_lt
  simp only [wordByte, toNat_wordOf, UInt8.toNat_ofNat']
  omega

@[simp] theorem wordByte_wordOf_two (a b c d : UInt8) : wordByte (wordOf a b c d) 2 = c := by
  apply UInt8.toNat_inj.mp
  have ha := a.toNat_lt
  have hb := b.toNat_lt
  have hc := c.toNat_lt
  simp only [wordByte, toNat_wordOf, UInt8.toNat_ofNat']
  omega

@[simp] theorem wordByte_wordOf_three (a b c d : UInt8) : wordByte (wordOf a b c d) 3 = d := by
  apply UInt8.toNat_inj.mp
  have ha := a.toNat_lt
  have hb := b.toNat_lt
  have hc := c.toNat_lt
  have hd := d.toNat_lt
  simp only [wordByte, toNat_wordOf, UInt8.toNat_ofNat']
  omega

/-- The four bytes of a word, lowest first. -/
def wordBytes (w : UInt32) : Bytes := [wordByte w 0, wordByte w 1, wordByte w 2, wordByte w 3]

/-- The contents of one sector. -/
abbrev Block := Vector UInt8 512

namespace Block

/-- The block of zeros. -/
def zero : Block := Vector.replicate 512 0

/-- The `count` bytes from `offset` on, as far as the block reaches. -/
def slice (b : Block) (offset count : Nat) : Bytes :=
  (b.toArray.extract offset (offset + count)).toList

theorem slice_eq (b : Block) (offset count : Nat) :
    slice b offset count = (b.toList.drop offset).take count := by
  simp [slice, Vector.toList]

/-- The block with `bytes` laid over it from `offset` on; what sticks out is dropped. -/
def overlay (b : Block) (offset : Nat) : Bytes → Block
  | [] => b
  | x :: xs => overlay (b.setIfInBounds offset x) (offset + 1) xs

theorem getElem_overlay (b : Block) (offset : Nat) (bytes : Bytes) (i : Nat)
    (hi : i < 512) : (overlay b offset bytes)[i] =
      if h : offset ≤ i ∧ i < offset + bytes.length then bytes[i - offset] else b[i] := by
  induction bytes generalizing b offset with
  | nil =>
    rw [overlay, dif_neg]
    simp only [List.length_nil, Nat.add_zero]
    omega
  | cons x xs ih =>
    rw [overlay, ih, Vector.getElem_setIfInBounds]
    by_cases hlt : i < offset
    · simp [show ¬ offset + 1 ≤ i by omega, show ¬ offset ≤ i by omega, show offset ≠ i by omega]
    · by_cases heq : offset = i
      · subst heq
        have h₁ : ¬ (offset + 1 ≤ offset ∧ offset < offset + 1 + xs.length) := by omega
        have h₂ : offset ≤ offset ∧ offset < offset + (x :: xs).length := ⟨by omega, by simp⟩
        simp only [dif_neg h₁, dif_pos h₂, if_true, Nat.sub_self, List.getElem_cons_zero]
      · have hsub : i - offset = (i - (offset + 1)) + 1 := by omega
        by_cases hin : i < offset + 1 + xs.length
        · have h₁ : offset + 1 ≤ i ∧ i < offset + 1 + xs.length := ⟨by omega, hin⟩
          have h₂ : offset ≤ i ∧ i < offset + (x :: xs).length := ⟨by omega, by simp; omega⟩
          simp only [dif_pos h₁, dif_pos h₂, hsub, List.getElem_cons_succ]
        · have h₁ : ¬ (offset + 1 ≤ i ∧ i < offset + 1 + xs.length) := by omega
          have h₂ : ¬ (offset ≤ i ∧ i < offset + (x :: xs).length) := by simp; omega
          simp only [dif_neg h₁, dif_neg h₂, if_neg heq]

/-- A whole block laid over another leaves nothing of that. -/
@[simp] theorem overlay_toList (b b' : Block) : overlay b 0 b'.toList = b' := by
  apply Vector.ext
  intro i hi
  rw [getElem_overlay, dif_pos ⟨by omega, by simp; omega⟩]
  simp

/-- The block made of a byte string, if that is exactly one sector long. -/
def ofBytes? (bytes : Bytes) : Option Block :=
  if h : bytes.length = 512 then some ⟨bytes.toArray, by simpa using h⟩ else none

/-- Word `k` of a block. -/
def word (b : Block) (k : Nat) (h : k < 128 := by omega) : UInt32 :=
  wordOf b[4 * k] b[4 * k + 1] b[4 * k + 2] b[4 * k + 3]

/-- The block that holds the given words. -/
def ofWords (words : Vector UInt32 128) : Block :=
  Vector.ofFn fun i => wordByte words[i.val / 4] (i.val % 4)

theorem word_ofWords (words : Vector UInt32 128) (k : Nat) (h : k < 128) :
    (ofWords words).word k h = words[k] := by
  have h₀ : (4 * k) / 4 = k := by omega
  have h₁ : (4 * k + 1) / 4 = k := by omega
  have h₂ : (4 * k + 2) / 4 = k := by omega
  have h₃ : (4 * k + 3) / 4 = k := by omega
  have m₀ : (4 * k) % 4 = 0 := by omega
  have m₁ : (4 * k + 1) % 4 = 1 := by omega
  have m₂ : (4 * k + 2) % 4 = 2 := by omega
  have m₃ : (4 * k + 3) % 4 = 3 := by omega
  simp only [word, ofWords, Vector.getElem_ofFn, h₀, h₁, h₂, h₃, m₀, m₁, m₂, m₃, wordOf_wordByte]

theorem ofWords_word (b : Block) :
    ofWords (Vector.ofFn fun k : Fin 128 => b.word k.val k.isLt) = b := by
  ext i hi
  simp only [ofWords, Vector.getElem_ofFn, word]
  have hm : i % 4 = 0 ∨ i % 4 = 1 ∨ i % 4 = 2 ∨ i % 4 = 3 := by omega
  rcases hm with h | h | h | h
  · have : 4 * (i / 4) = i := by omega
    simp [h, this]
  · have : 4 * (i / 4) + 1 = i := by omega
    simp [h, this]
  · have : 4 * (i / 4) + 2 = i := by omega
    simp [h, this]
  · have : 4 * (i / 4) + 3 = i := by omega
    simp [h, this]

end Block

end TieredVolume
