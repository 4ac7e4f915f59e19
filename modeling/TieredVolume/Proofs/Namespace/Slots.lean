import TieredVolume.Proofs.Disk.Entry
import TieredVolume.Proofs.Inode.Shelf

/-!
The slots of a directory. The bytes of a directory are cut into entries; as long as no two of those
in use carry the same name, they are a map from names to inodes, and putting an entry into a slot
changes this map at one name.
-/
namespace TieredVolume

/-- The entries that a byte string spells. -/
def slotsOf (bytes : Bytes) : List Entry := (List.range (bytes.length / entrySize)).map fun i =>
  Entry.ofBytes (Vector.ofFn fun j => bytes.getD (i * entrySize + j.val) 0)

/-- The slots with an entry put into one of them, or behind the last. -/
def putSlot (es : List Entry) (i : Nat) (e : Entry) : List Entry :=
  if i < es.length then es.set i e else es ++ [e]

variable {bytes : Bytes} {es : List Entry} {e e' : Entry} {i j k : Nat} {name name' : String}
  {s : Sector} {isDir : Bool}

/-! ### Slots as bytes -/

theorem length_slotsOf : (slotsOf bytes).length = bytes.length / entrySize := by
  simp only [slotsOf, List.length_map, List.length_range]

theorem length_slots_mul (hwhole : entrySize ∣ bytes.length) :
    (slotsOf bytes).length * entrySize = bytes.length := by
  rw [length_slotsOf, Nat.div_mul_cancel hwhole]

theorem getElem?_slotsOf : (slotsOf bytes)[i]? = if i < bytes.length / entrySize then
    some (Entry.ofBytes (Vector.ofFn fun j => bytes.getD (i * entrySize + j.val) 0)) else none := by
  rw [slotsOf, List.getElem?_map]
  by_cases hi : i < bytes.length / entrySize
  · rw [if_pos hi, List.getElem?_range hi, Option.map_some]
  · rw [if_neg hi, List.getElem?_eq_none (by rw [List.length_range]; omega), Option.map_none]

/-- What lies at the offset of a slot spells its entry. -/
theorem ofBytes?_slot : Entry.ofBytes? ((bytes.drop (i * entrySize)).take entrySize) =
    (slotsOf bytes)[i]? := by
  have hlen : ((bytes.drop (i * entrySize)).take entrySize).length =
      min entrySize (bytes.length - i * entrySize) := by
    rw [List.length_take, List.length_drop]
  rw [getElem?_slotsOf, Entry.ofBytes?]
  by_cases hi : i < bytes.length / entrySize
  · have hwhole : ((bytes.drop (i * entrySize)).take entrySize).length = 32 := by
      simp only [entrySize] at hlen hi ⊢
      omega
    rw [if_pos hi, dif_pos hwhole]
    refine congrArg (fun b => some (Entry.ofBytes b)) (Vector.ext fun j hj => ?_)
    rw [Vector.getElem_ofFn, Vector.getElem_mk, List.getElem_toArray, List.getElem_take,
      List.getElem_drop, List.getD_eq_getElem]
  · rw [if_neg hi, dif_neg]
    simp only [entrySize] at hlen hi ⊢
    omega

theorem getElem?_putSlot (hi : i ≤ es.length) :
    (putSlot es i e)[k]? = if k = i then some e else es[k]? := by
  unfold putSlot
  by_cases hlt : i < es.length
  · rw [if_pos hlt, List.getElem?_set]
    by_cases hk : k = i
    · rw [if_pos hk.symm, if_pos hk, if_pos (hk ▸ hlt)]
    · rw [if_neg (Ne.symm hk), if_neg hk]
  · have heq : i = es.length := by omega
    rw [if_neg hlt, heq]
    by_cases hk : k = es.length
    · rw [if_pos hk, hk, List.getElem?_concat_length]
    · rw [if_neg hk]
      by_cases hin : k < es.length
      · rw [List.getElem?_append_left hin]
      · rw [List.getElem?_eq_none (by rw [List.length_append, List.length_singleton]; omega),
          List.getElem?_eq_none (by omega)]

/-- What is in a slot afterwards is the entry that was put there, or was there before. -/
theorem putSlot_cases (hi : i ≤ es.length) (hk : (putSlot es i e)[k]? = some e') :
    k = i ∧ e' = e ∨ k ≠ i ∧ es[k]? = some e' := by
  rw [getElem?_putSlot hi] at hk
  by_cases hki : k = i
  · rw [if_pos hki] at hk
    exact .inl ⟨hki, (Option.some.inj hk).symm⟩
  · rw [if_neg hki] at hk
    exact .inr ⟨hki, hk⟩

/-- What is in use after an entry was put that is not was in use before. -/
theorem used_putSlot (hi : i ≤ es.length) (hgone : e.isInUse = false)
    (hk : (putSlot es i e)[k]? = some e') (hu : e'.isInUse = true) : k ≠ i ∧ es[k]? = some e' := by
  rcases putSlot_cases hi hk with ⟨-, rfl⟩ | hold
  · rw [hgone] at hu
    cases hu
  · exact hold

/-- An entry in use that is put into the first free slot is one more of those in use. -/
theorem countP_putSlot (hfree : ∀ e', es[i]? = some e' → e'.isInUse = false)
    (huse : e.isInUse = true) :
    (putSlot es i e).countP (·.isInUse) = es.countP (·.isInUse) + 1 := by
  unfold putSlot
  by_cases hlt : i < es.length
  · have hunused : es[i].isInUse = false := hfree es[i] (List.getElem?_eq_getElem hlt)
    rw [if_pos hlt, List.countP_set hlt, hunused, huse]
    simp
  · rw [if_neg hlt, List.countP_append, List.countP_singleton, if_pos huse]

/-- The first slot that is not in use, or the one behind the last if all are. -/
structure FirstFree (es : List Entry) (i : Nat) : Prop where
  le : i ≤ es.length
  free : ∀ e, es[i]? = some e → e.isInUse = false
  before : ∀ (k : Nat) e, k < i → es[k]? = some e → e.isInUse = true

/-- There is a slot more only if all were in use. -/
theorem FirstFree.length_putSlot (h : FirstFree es i) :
    (putSlot es i e).length = max es.length (es.countP (·.isInUse) + 1) := by
  unfold putSlot
  by_cases hlt : i < es.length
  · have hfew : es.countP (·.isInUse) < es.length := by
      refine lt_of_le_of_ne List.countP_le_length fun hall => ?_
      have hused := List.countP_eq_length.mp hall es[i] (List.getElem_mem hlt)
      rw [h.free es[i] (List.getElem?_eq_getElem hlt)] at hused
      cases hused
    rw [if_pos hlt, List.length_set]
    omega
  · have hall : es.countP (·.isInUse) = es.length := List.countP_eq_length.mpr fun e' he => by
      obtain ⟨k, hk⟩ := List.getElem?_of_mem he
      have hlen := (List.getElem?_eq_some_iff.mp hk).1
      exact h.before k e' (by omega) hk
    rw [if_neg hlt, List.length_append, List.length_singleton, hall]
    omega

theorem slotsOf_splice (hwhole : entrySize ∣ bytes.length)
    (hi : i ≤ bytes.length / entrySize) :
    slotsOf (splice bytes (i * entrySize) e.toBytes) = putSlot (slotsOf bytes) i e := by
  refine List.ext_getElem? fun k => ?_
  rw [getElem?_putSlot (by rw [length_slotsOf]; exact hi), getElem?_slotsOf, getElem?_slotsOf,
    length_splice, Entry.length_toBytes]
  by_cases hk : k = i
  · subst hk
    rw [if_pos rfl, if_pos (by simp only [entrySize] at *; omega)]
    have hwindow : (Vector.ofFn fun j : Fin 32 =>
        (splice bytes (k * entrySize) e.toBytes).getD (k * entrySize + j.val) 0) =
        ⟨e.toBytes.toArray, by simp⟩ := by
      refine Vector.ext fun j hj => ?_
      rw [Vector.getElem_ofFn, getD_splice, if_pos (by rw [Entry.length_toBytes, entrySize]; omega),
        Nat.add_sub_cancel_left, Vector.getElem_mk, List.getElem_toArray,
        List.getD_eq_getElem _ _ (by rw [Entry.length_toBytes]; exact hj)]
    rw [hwindow]
    have hback := Entry.ofBytes?_toBytes e
    rwa [Entry.ofBytes?, dif_pos (Entry.length_toBytes e)] at hback
  · rw [if_neg hk]
    obtain ⟨m, hm⟩ := hwhole
    simp only [entrySize] at hm hi ⊢
    refine if_congr (by omega) (congrArg (fun b => some (Entry.ofBytes b))
      (Vector.ext fun j hj => ?_)) rfl
    rw [Vector.getElem_ofFn, Vector.getElem_ofFn, getD_splice,
      if_neg (by rw [Entry.length_toBytes, entrySize]; omega)]

theorem slotsOf_zeros (count : Nat) :
    slotsOf (List.replicate (count * entrySize) 0) = List.replicate count Entry.empty := by
  refine List.ext_getElem? fun k => ?_
  rw [getElem?_slotsOf, List.length_replicate, Nat.mul_div_cancel _ (by decide),
    List.getElem?_replicate]
  refine if_congr Iff.rfl ?_ rfl
  simp only [getD_zeros]
  rfl

/-! ### Slots as a map -/

/-- The inode that a name stands for, and whether it is a directory. -/
def findSlot (es : List Entry) (name : String) : Option (Sector × Bool) :=
  (es.find? fun e => e.isInUse && e.name == name).map fun e => (e.sector, e.isDir)

/-- Slots as they are in a directory: no two in use have the same name, and the names are valid. -/
structure Orderly (es : List Entry) : Prop where
  distinct : ∀ (i j : Nat) (e e' : Entry), es[i]? = some e → es[j]? = some e' → e.isInUse = true →
    e'.isInUse = true → e.name = e'.name → i = j
  named : ∀ (i : Nat) (e : Entry), es[i]? = some e → e.isInUse = true →
    isValidName e.name = true ∧ e.name ≠ "." ∧ e.name ≠ ".."

theorem exists_of_findSlot {x : Sector × Bool} (h : findSlot es name = some x) :
    ∃ (i : Nat) (e : Entry), es[i]? = some e ∧ e.isInUse = true ∧ e.name = name ∧
      x = (e.sector, e.isDir) := by
  obtain ⟨e, he, rfl⟩ := Option.map_eq_some_iff.mp h
  obtain ⟨i, hi⟩ := List.getElem?_of_mem (List.mem_of_find?_eq_some he)
  have hp := List.find?_some he
  simp only [Bool.and_eq_true, beq_iff_eq] at hp
  exact ⟨i, e, hi, hp.1, hp.2, rfl⟩

/-- A name is found in slot `i`. -/
structure FoundAt (es : List Entry) (name : String) (i : Nat) (e : Entry) : Prop where
  slot : es[i]? = some e
  used : e.isInUse = true
  named : e.name = name
  find : findSlot es name = some (e.sector, e.isDir)

theorem findSlot_eq_none_iff : findSlot es name = none ↔
    ∀ (i : Nat) (e : Entry), es[i]? = some e → e.isInUse = true → e.name ≠ name := by
  simp only [findSlot, Option.map_eq_none_iff, List.find?_eq_none, Bool.and_eq_true, beq_iff_eq,
    not_and]
  exact ⟨fun h i e he => h e (List.mem_of_getElem? he), fun h e he => by
    obtain ⟨i, hi⟩ := List.getElem?_of_mem he
    exact h i e hi⟩

namespace Orderly

theorem findSlot_eq (h : Orderly es) (he : es[i]? = some e) (huse : e.isInUse = true) :
    findSlot es e.name = some (e.sector, e.isDir) := by
  cases hfind : findSlot es e.name with
  | none => exact absurd rfl (findSlot_eq_none_iff.mp hfind i e he huse)
  | some x =>
    obtain ⟨j, e', he', huse', hname, rfl⟩ := exists_of_findSlot hfind
    have hij := h.distinct j i e' e he' he huse' huse hname
    subst hij
    rw [he'] at he
    rw [Option.some.inj he]

/-- An entry in a free slot, or behind the last, adds its name. -/
theorem put (h : Orderly es) (hi : i ≤ es.length)
    (hfree : ∀ e', es[i]? = some e' → e'.isInUse = false) (huse : e.isInUse = true)
    (hnew : findSlot es e.name = none) (hname : isValidName e.name = true)
    (hdot : e.name ≠ ".") (hdots : e.name ≠ "..") : Orderly (putSlot es i e) ∧
      ∀ name, findSlot (putSlot es i e) name =
        if name = e.name then some (e.sector, e.isDir) else findSlot es name := by
  have hget : ∀ k, (putSlot es i e)[k]? = if k = i then some e else es[k]? := fun k =>
    getElem?_putSlot hi
  have hother := findSlot_eq_none_iff.mp hnew
  have horderly : Orderly (putSlot es i e) := by
    refine ⟨fun k l e₁ e₂ hk hl hu₁ hu₂ hsame => ?_, fun k e' hk hu => ?_⟩
    · rcases putSlot_cases hi hk with ⟨hki, rfl⟩ | ⟨-, hk⟩
      · rcases putSlot_cases hi hl with ⟨hli, -⟩ | ⟨-, hl⟩
        · rw [hki, hli]
        · exact absurd hsame.symm (hother l e₂ hl hu₂)
      · rcases putSlot_cases hi hl with ⟨-, heq⟩ | ⟨-, hl⟩
        · exact absurd (heq ▸ hsame) (hother k e₁ hk hu₁)
        · exact h.distinct k l e₁ e₂ hk hl hu₁ hu₂ hsame
    · rcases putSlot_cases hi hk with ⟨-, rfl⟩ | ⟨-, hk⟩
      · exact ⟨hname, hdot, hdots⟩
      · exact h.named k e' hk hu
  refine ⟨horderly, fun name => ?_⟩
  by_cases hn : name = e.name
  · rw [if_pos hn, hn]
    exact horderly.findSlot_eq ((hget i).trans (if_pos rfl)) huse
  · rw [if_neg hn]
    cases hold : findSlot es name with
    | none =>
      refine findSlot_eq_none_iff.mpr fun k e' hk hu => ?_
      rcases putSlot_cases hi hk with ⟨-, rfl⟩ | ⟨-, hk⟩
      · exact Ne.symm hn
      · exact findSlot_eq_none_iff.mp hold k e' hk hu
    | some x =>
      obtain ⟨k, e', hk, hu, rfl, rfl⟩ := exists_of_findSlot hold
      have hki : k ≠ i := fun hki => by
        rw [hfree e' (hki ▸ hk)] at hu
        cases hu
      exact horderly.findSlot_eq (((hget k).trans (if_neg hki)).trans hk) hu

/-- A tombstone in the slot of an entry takes its name out. -/
theorem take (h : Orderly es) (he : es[i]? = some e) (huse : e.isInUse = true)
    (hgone : e'.isInUse = false) : Orderly (putSlot es i e') ∧
      ∀ name, findSlot (putSlot es i e') name =
        if name = e.name then none else findSlot es name := by
  have hi : i < es.length := (List.getElem?_eq_some_iff.mp he).1
  have hget : ∀ k, (putSlot es i e')[k]? = if k = i then some e' else es[k]? := fun k =>
    getElem?_putSlot (Nat.le_of_lt hi)
  have hused : ∀ k e₁, (putSlot es i e')[k]? = some e₁ → e₁.isInUse = true →
      k ≠ i ∧ es[k]? = some e₁ := fun _ _ => used_putSlot (Nat.le_of_lt hi) hgone
  have horderly : Orderly (putSlot es i e') := by
    refine ⟨fun k l e₁ e₂ hk hl hu₁ hu₂ => ?_, fun k e₁ hk hu => ?_⟩
    · exact h.distinct k l e₁ e₂ (hused k e₁ hk hu₁).2 (hused l e₂ hl hu₂).2 hu₁ hu₂
    · exact h.named k e₁ (hused k e₁ hk hu).2 hu
  refine ⟨horderly, fun name => ?_⟩
  by_cases hn : name = e.name
  · rw [if_pos hn]
    refine findSlot_eq_none_iff.mpr fun k e₁ hk hu hsame => ?_
    obtain ⟨hki, hk⟩ := hused k e₁ hk hu
    exact hki (h.distinct k i e₁ e hk he hu huse (hsame.trans hn))
  · rw [if_neg hn]
    cases hold : findSlot es name with
    | none =>
      exact findSlot_eq_none_iff.mpr fun k e₁ hk hu =>
        findSlot_eq_none_iff.mp hold k e₁ (hused k e₁ hk hu).2 hu
    | some x =>
      obtain ⟨k, e₁, hk, hu, rfl, rfl⟩ := exists_of_findSlot hold
      have hki : k ≠ i := fun hki => by
        rw [hki, he] at hk
        exact hn (by rw [Option.some.inj hk])
      exact horderly.findSlot_eq (((hget k).trans (if_neg hki)).trans hk) hu

end Orderly

/-- No slot of zeros is in use. -/
theorem countP_empty (count : Nat) :
    (List.replicate count Entry.empty).countP (·.isInUse) = 0 := by
  rw [List.countP_replicate, Entry.isInUse_empty]
  rfl

/-- Slots of zeros carry no name. -/
theorem orderly_empty (count : Nat) : Orderly (List.replicate count Entry.empty) ∧
    ∀ name, findSlot (List.replicate count Entry.empty) name = none := by
  have hfree : ∀ (i : Nat) (e : Entry), (List.replicate count Entry.empty)[i]? = some e →
      e.isInUse ≠ true := fun i e he => by
    rw [List.eq_of_mem_replicate (List.mem_of_getElem? he), Entry.isInUse_empty]
    nofun
  exact ⟨⟨fun i _ e _ he _ hu => absurd hu (hfree i e he),
    fun i e he hu => absurd hu (hfree i e he)⟩,
    fun name => findSlot_eq_none_iff.mpr fun i e he hu => absurd hu (hfree i e he)⟩

end TieredVolume
