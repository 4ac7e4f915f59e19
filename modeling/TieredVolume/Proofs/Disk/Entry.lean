import TieredVolume.Disk.Entry

/-!
What an entry answers that was made for a name, and the entries that a byte string spells.
-/
namespace TieredVolume

/-- Only the zero character has a zero byte in UTF-8. -/
theorem utf8_ne_zero {c : Char} (hc : c ≠ '\x00') : ∀ b ∈ String.utf8EncodeChar c, b ≠ 0 := by
  have hv : c.val.toNat ≠ 0 := fun h => hc (Char.ext (UInt32.toNat_inj.mp h))
  have hmod : ∀ k : Nat, k % 256 ≠ 0 → UInt8.ofNat k ≠ 0 := fun k hk h => hk (by
    have hzero := congrArg UInt8.toNat h
    simpa using hzero)
  intro b hb
  simp only [String.utf8EncodeChar] at hb
  split at hb
  · simp only [List.mem_singleton] at hb
    exact hb ▸ hmod _ (by omega)
  split at hb
  · simp only [List.mem_cons, List.not_mem_nil, or_false] at hb
    rcases hb with rfl | rfl <;> exact hmod _ (by omega)
  split at hb
  · simp only [List.mem_cons, List.not_mem_nil, or_false] at hb
    rcases hb with rfl | rfl | rfl <;> exact hmod _ (by omega)
  · simp only [List.mem_cons, List.not_mem_nil, or_false] at hb
    rcases hb with rfl | rfl | rfl | rfl <;> exact hmod _ (by omega)

theorem toUTF8_toList (name : String) :
    name.toUTF8.data.toList = name.toList.flatMap String.utf8EncodeChar := by
  conv => lhs; rw [← String.ofList_toList (s := name)]
  rw [String.toUTF8_eq_toByteArray, String.toByteArray_ofList, List.utf8Encode,
    List.toList_data_toByteArray]

namespace Entry

variable {name : String} {s : Sector} {isDir : Bool} {e : Entry}

theorem make_eq_ok (hname : isValidName name) : make name s isDir =
    .ok ⟨nameField name, if isDir then 3 else 1, s⟩ := by
  rw [make, if_pos hname]

theorem takeWhile_ofFn (bytes : Array UInt8) (hlen : bytes.size ≤ 26)
    (hne : ∀ b ∈ bytes.toList, b ≠ 0) :
    (Vector.ofFn fun i : Fin 27 => bytes.getD i.val 0).toList.takeWhile (· ≠ 0) =
      bytes.toList := by
  have hfield : (Vector.ofFn fun i : Fin 27 => bytes.getD i.val 0).toList = bytes.toList ++
      List.replicate (27 - bytes.size) 0 := by
    refine List.ext_getElem ?_ fun i hi hi' => ?_
    · simp only [Vector.length_toList, List.length_append, List.length_replicate,
        Array.length_toList]
      omega
    · rw [Vector.getElem_toList, Vector.getElem_ofFn, Array.getD_eq_getD_getElem?]
      by_cases hin : i < bytes.size
      · rw [List.getElem_append_left (by simpa using hin), Array.getElem?_eq_getElem hin,
          Option.getD_some, Array.getElem_toList]
      · rw [List.getElem_append_right (by simpa using hin), Array.getElem?_eq_none (Nat.not_lt.mp hin),
          Option.getD_none, List.getElem_replicate]
  rw [hfield, List.takeWhile_append_of_pos (by simpa using hne), List.takeWhile_replicate]
  simp

/-- The field of a valid name spells it. -/
theorem takeWhile_nameField (hname : isValidName name) :
    (nameField name).toList.takeWhile (· ≠ 0) = name.toUTF8.data.toList := by
  simp only [isValidName, Bool.and_eq_true, decide_eq_true_eq, List.all_eq_true, nameMax] at hname
  obtain ⟨⟨-, hsize⟩, hchars⟩ := hname
  have hlen : name.toUTF8.data.size = name.utf8ByteSize := rfl
  rw [nameField]
  refine takeWhile_ofFn name.toUTF8.data (by rw [hlen]; exact hsize) fun b hb => ?_
  rw [toUTF8_toList] at hb
  obtain ⟨c, hc, hb⟩ := List.mem_flatMap.mp hb
  exact utf8_ne_zero (hchars c hc).2 b hb

theorem name_make (hname : isValidName name) (he : make name s isDir = .ok e) : e.name = name := by
  rw [make_eq_ok hname] at he
  obtain rfl := Except.ok.inj he
  have hbytes : name.toUTF8.data.toList.toByteArray = name.toByteArray := by
    rw [String.toUTF8_eq_toByteArray]
    exact ByteArray.ext (Array.toList_inj.mp List.toList_data_toByteArray)
  rw [Entry.name, takeWhile_nameField hname, hbytes, String.fromUTF8?,
    dif_pos name.isValidUTF8, Option.getD_some]
  rfl

theorem isInUse_make (hname : isValidName name) (he : make name s isDir = .ok e) :
    e.isInUse = true := by
  rw [make_eq_ok hname] at he
  obtain rfl := Except.ok.inj he
  cases isDir <;> simp only [isInUse, flags, if_true, if_false, reduceCtorEq] <;> decide

theorem isDir_make (hname : isValidName name) (he : make name s isDir = .ok e) :
    e.isDir = isDir := by
  rw [make_eq_ok hname] at he
  obtain rfl := Except.ok.inj he
  cases isDir <;> simp only [Entry.isDir, flags, if_true, if_false, reduceCtorEq] <;> decide

theorem sector_make (hname : isValidName name) (he : make name s isDir = .ok e) : e.sector = s := by
  rw [make_eq_ok hname] at he
  obtain rfl := Except.ok.inj he
  rfl

theorem isInUse_tombstone (e : Entry) : e.tombstone.isInUse = false := by
  have hmask : (3 : UInt8) &&& (2 &&& (3 &&& 1)) = 0 := by decide
  simp only [isInUse, flags, tombstone, UInt8.and_assoc, hmask, UInt8.and_zero]
  decide

theorem isInUse_empty : empty.isInUse = false := rfl

/-- Every 32 bytes spell an entry. -/
theorem toBytes_ofBytes (bytes : Vector UInt8 32) : (ofBytes bytes).toBytes = bytes.toList := by
  refine List.ext_getElem (by simp) fun i hi hi' => ?_
  rw [length_toBytes, entrySize] at hi
  simp only [toBytes, ofBytes, wordBytes, wordByte_wordOf_zero, wordByte_wordOf_one,
    wordByte_wordOf_two, wordByte_wordOf_three, Vector.getElem_toList]
  by_cases hfield : i < 27
  · rw [List.getElem_append_left (by simpa using hfield), Vector.getElem_toList,
      Vector.getElem_ofFn]
  · rw [List.getElem_append_right (by simpa using hfield)]
    have hrest : i = 27 ∨ i = 28 ∨ i = 29 ∨ i = 30 ∨ i = 31 := by omega
    rcases hrest with rfl | rfl | rfl | rfl | rfl <;> simp

end Entry
end TieredVolume
