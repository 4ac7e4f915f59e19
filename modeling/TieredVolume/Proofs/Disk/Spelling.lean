import Mathlib.Data.List.TakeWhile
import TieredVolume.Proofs.Disk.Entry

/-!
How names are spelled in their slots. An entry that was made for a valid name spells that name, its
sector and its kind, so that different names have different bytes; giving the slot up changes one bit
of it. Any 32 bytes at all spell some name: what stands before the first zero, if it is UTF-8.
-/
namespace TieredVolume
namespace Entry

variable {name text : String} {s : Sector} {isDir : Bool} {e : Entry} {raw : Vector UInt8 32}
  {p l : Bytes}

/-! ### Bytes before a zero -/

theorem ne_zero_of_notMem (hzero : 0 ∉ p) : ∀ b ∈ p, decide (b ≠ 0) = true := fun _ hb =>
  decide_eq_true fun heq => hzero (heq ▸ hb)

theorem zero_notMem_takeWhile (l : Bytes) : 0 ∉ l.takeWhile (· ≠ 0) := by
  intro hzero
  have hne := List.mem_takeWhile_imp hzero
  simp at hne

/-- What has no zero in it does not reach past the first zero. -/
theorem prefix_takeWhile (hp : p <+: l) (hzero : 0 ∉ p) : p <+: l.takeWhile (· ≠ 0) := by
  obtain ⟨rest, rfl⟩ := hp
  rw [List.takeWhile_append_of_pos (ne_zero_of_notMem hzero)]
  exact List.prefix_append ..

/-- The bytes before the first zero are those that a zero follows and that have none in them. -/
theorem takeWhile_eq_iff (hlen : p.length < l.length) :
    l.takeWhile (· ≠ 0) = p ↔ p ++ [0] <+: l ∧ 0 ∉ p := by
  constructor
  · rintro rfl
    refine ⟨?_, zero_notMem_takeWhile l⟩
    have hwhole := List.takeWhile_append_dropWhile (p := (· ≠ (0 : UInt8))) (l := l)
    obtain ⟨b, rest, hrest⟩ : ∃ b rest, l.dropWhile (· ≠ 0) = b :: rest := by
      refine List.exists_cons_of_ne_nil fun hnil => ?_
      rw [hnil, List.append_nil] at hwhole
      exact Nat.lt_irrefl _ (hwhole ▸ hlen)
    have hhead := List.head_dropWhile_not (· ≠ (0 : UInt8)) (l := l) (hrest ▸ List.cons_ne_nil b rest)
    simp only [hrest, List.head_cons, decide_eq_false_iff_not, not_not] at hhead
    rw [hrest, hhead] at hwhole
    exact ⟨rest, by rwa [List.append_assoc]⟩
  · rintro ⟨⟨rest, rfl⟩, hzero⟩
    rw [List.append_assoc, List.takeWhile_append_of_pos (ne_zero_of_notMem hzero)]
    simp

/-! ### Names -/

/-- The bytes of a name. -/
def utf8 (text : String) : Bytes := text.toUTF8.data.toList

theorem fromUTF8?_utf8 (text : String) : String.fromUTF8? (utf8 text).toByteArray = some text := by
  have hbytes : (utf8 text).toByteArray = text.toByteArray := by
    rw [utf8, String.toUTF8_eq_toByteArray]
    exact ByteArray.ext (Array.toList_inj.mp List.toList_data_toByteArray)
  rw [hbytes, String.fromUTF8?, dif_pos text.isValidUTF8]
  rfl

theorem utf8_of_fromUTF8? (h : String.fromUTF8? p.toByteArray = some text) : utf8 text = p := by
  unfold String.fromUTF8? at h
  split at h
  · rw [← Option.some.inj h, utf8, String.toUTF8_eq_toByteArray]
    exact List.toList_data_toByteArray
  · cases h

theorem length_utf8_le (hname : isValidName name) : (utf8 name).length ≤ 26 := by
  simp only [isValidName, Bool.and_eq_true, decide_eq_true_eq] at hname
  exact hname.1.2

theorem zero_notMem_utf8 (hname : isValidName name) : 0 ∉ utf8 name := by
  rw [utf8, ← takeWhile_nameField hname]
  exact zero_notMem_takeWhile _

theorem field_ofBytes (raw : Vector UInt8 32) :
    (ofBytes raw).field.toList = raw.toList.take 27 := by
  refine List.ext_getElem (by simp) fun i hi hi' => ?_
  simp [ofBytes]

/-- Which name a slot spells: all that stands in its field before the first zero, or nothing. -/
theorem name_ofBytes (raw : Vector UInt8 32) : ∃ p, p <+: raw.toList.take 27 ∧ 0 ∉ p ∧
    (∀ q, q <+: raw.toList.take 27 → 0 ∉ q → q <+: p) ∧
    (∀ text, utf8 text = p → (ofBytes raw).name = text) ∧
    ((∀ text, utf8 text ≠ p) → (ofBytes raw).name = "") := by
  refine ⟨(raw.toList.take 27).takeWhile (· ≠ 0), List.takeWhile_prefix _, zero_notMem_takeWhile _,
    fun q => prefix_takeWhile, fun text htext => ?_, fun hnone => ?_⟩
  · rw [Entry.name, field_ofBytes, ← htext, fromUTF8?_utf8, Option.getD_some]
  · rw [Entry.name, field_ofBytes]
    cases htext : String.fromUTF8? ((raw.toList.take 27).takeWhile (· ≠ 0)).toByteArray with
    | none => rfl
    | some text => exact absurd (utf8_of_fromUTF8? htext) (hnone text)

/-- A slot has a valid name just if its bytes, and a zero behind them, stand in front. -/
theorem name_ofBytes_eq_iff (hname : isValidName name) :
    (ofBytes raw).name = name ↔ utf8 name ++ [0] <+: raw.toList.take 27 := by
  have hlen : (utf8 name).length < (raw.toList.take 27).length := by
    have hle := length_utf8_le hname
    simp only [List.length_take, Vector.length_toList]
    omega
  have hzero := zero_notMem_utf8 hname
  have hspelled : (ofBytes raw).name = name ↔
      (raw.toList.take 27).takeWhile (· ≠ 0) = utf8 name := by
    rw [Entry.name, field_ofBytes]
    constructor
    · intro h
      cases htext : String.fromUTF8? ((raw.toList.take 27).takeWhile (· ≠ 0)).toByteArray with
      | none =>
        rw [htext] at h
        rw [← h] at hname
        exact absurd hname (by decide)
      | some text =>
        rw [htext] at h
        rw [← h, Option.getD_some, utf8_of_fromUTF8? htext]
    · intro h
      rw [h, fromUTF8?_utf8, Option.getD_some]
  rw [hspelled, takeWhile_eq_iff hlen]
  exact and_iff_left hzero

/-! ### Giving a slot up -/

theorem flagBits_make (hname : isValidName name) (he : make name s isDir = .ok e) :
    e.flagBits = if isDir then 3 else 1 := by
  rw [make_eq_ok hname] at he
  rw [← Except.ok.inj he]

/-- Giving up the slot of an entry that was made changes the last bit of its flags. -/
theorem tombstone_make (hname : isValidName name) (he : make name s isDir = .ok e) :
    e.tombstone = { e with flagBits := e.flagBits ^^^ 1 } := by
  have hflags : (e.flagBits &&& 3) &&& 2 = e.flagBits ^^^ 1 := by
    rw [flagBits_make hname he]
    cases isDir <;> decide
  rw [tombstone, flags, hflags]

theorem name_tombstone (e : Entry) : e.tombstone.name = e.name := rfl

theorem sector_tombstone (e : Entry) : e.tombstone.sector = e.sector := rfl

theorem isDir_tombstone (e : Entry) : e.tombstone.isDir = e.isDir := by
  have hmask : (3 : UInt8) &&& 2 = 2 := by decide
  simp only [Entry.isDir, flags, tombstone, UInt8.and_assoc, hmask, UInt8.and_self]

/-- The flags are the byte behind the name. -/
theorem toBytes_withFlags (e : Entry) (bits : UInt8) :
    ({ e with flagBits := bits } : Entry).toBytes = e.toBytes.set 27 bits := by
  rw [toBytes, toBytes, List.set_append_right 27 bits (Nat.le_of_eq Vector.length_toList),
    Vector.length_toList, Nat.sub_self, List.set_cons_zero]

theorem getElem?_toBytes_flags (e : Entry) : e.toBytes[27]? = some e.flagBits := by
  rw [toBytes, List.getElem?_append_right (Nat.le_of_eq Vector.length_toList), Vector.length_toList]
  rfl

/-! ### Entries as bytes -/

/-- What 32 bytes are read as, if they were written for this name, sector and kind. -/
structure Spells (name : String) (s : Sector) (isDir : Bool) (bytes : Bytes) (e : Entry) : Prop where
  read : ofBytes? bytes = some e
  name : e.name = name
  sector : e.sector = s
  isDir : e.isDir = isDir

/-- A slot that was given up is read as before, but for its use. -/
theorem Spells.tombstone {bytes : Bytes} (h : Spells name s isDir bytes e) :
    Spells name s isDir e.tombstone.toBytes e.tombstone :=
  ⟨ofBytes?_toBytes _, (name_tombstone e).trans h.name, (sector_tombstone e).trans h.sector,
    (isDir_tombstone e).trans h.isDir⟩

/-- The format of entries. An entry of a valid name can be made, and from its 32 bytes the name, the
sector and the kind are read again, so that no two entries have the same bytes; giving it up changes
one bit, and all but the use is still read. Any 32 bytes spell the longest name without a zero that
they begin with, or none if that is no UTF-8, and a valid name only if a zero ends it. -/
theorem spelling_exact :
    (∀ (name : String) (s : Sector) (isDir : Bool), isValidName name →
      ∃ e, make name s isDir = .ok e ∧ e.toBytes.length = 32 ∧
        Spells name s isDir e.toBytes e ∧ e.isInUse = true ∧
        Spells name s isDir e.tombstone.toBytes e.tombstone ∧ e.tombstone.isInUse = false ∧
        (∀ i, i ≠ 27 → e.tombstone.toBytes[i]? = e.toBytes[i]?) ∧
        ∃ bits, e.toBytes[27]? = some bits ∧ e.tombstone.toBytes[27]? = some (bits ^^^ 1)) ∧
    (∀ (name name' : String) (s s' : Sector) (isDir isDir' : Bool) (e e' : Entry),
      isValidName name → isValidName name' → make name s isDir = .ok e →
      make name' s' isDir' = .ok e' → e.toBytes = e'.toBytes →
      name = name' ∧ s = s' ∧ isDir = isDir') ∧
    ∀ raw : Vector UInt8 32,
      (∃ p, p <+: raw.toList.take 27 ∧ 0 ∉ p ∧
        (∀ q, q <+: raw.toList.take 27 → 0 ∉ q → q <+: p) ∧
        (∀ text, utf8 text = p → (ofBytes raw).name = text) ∧
        ((∀ text, utf8 text ≠ p) → (ofBytes raw).name = "")) ∧
      ∀ name, isValidName name →
        ((ofBytes raw).name = name ↔ utf8 name ++ [0] <+: raw.toList.take 27) := by
  refine ⟨fun name s isDir hname => ?_, ?_, fun raw => ⟨name_ofBytes raw, fun name =>
    name_ofBytes_eq_iff⟩⟩
  · obtain ⟨e, he⟩ : ∃ e, make name s isDir = .ok e := ⟨_, make_eq_ok hname⟩
    have hbytes : e.tombstone.toBytes = e.toBytes.set 27 (e.flagBits ^^^ 1) := by
      rw [tombstone_make hname he, toBytes_withFlags]
    have hlen : 27 < e.toBytes.length := by
      rw [length_toBytes]
      decide
    have hmade : Spells name s isDir e.toBytes e :=
      ⟨ofBytes?_toBytes e, name_make hname he, sector_make hname he, isDir_make hname he⟩
    refine ⟨e, he, length_toBytes e, hmade, isInUse_make hname he, hmade.tombstone,
      isInUse_tombstone e, fun i hi => ?_, e.flagBits, getElem?_toBytes_flags e, ?_⟩
    · rw [hbytes, List.getElem?_set_ne (Ne.symm hi)]
    · rw [hbytes, List.getElem?_set_self hlen]
  · intro name name' s s' isDir isDir' e e' hname hname' he he' hbytes
    have heq : e = e' := by
      have hread := congrArg ofBytes? hbytes
      rw [ofBytes?_toBytes, ofBytes?_toBytes] at hread
      exact Option.some.inj hread
    subst heq
    exact ⟨(name_make hname he).symm.trans (name_make hname' he'),
      (sector_make hname he).symm.trans (sector_make hname' he'),
      (isDir_make hname he).symm.trans (isDir_make hname' he')⟩

/-- Two names of thirteen letters that fill the field up to its last byte, and a field of which no
byte is one of a letter. -/
theorem spelling_exact_longest : ∃ e e' : Entry,
    make "ööööööööööööö" ⟨7⟩ true = .ok e ∧ e.toBytes.length = 32 ∧
    Spells "ööööööööööööö" ⟨7⟩ true e.tombstone.toBytes e.tombstone ∧
    make "ööööööööööööä" ⟨7⟩ true = .ok e' ∧ e.toBytes ≠ e'.toBytes ∧
    (ofBytes (Vector.replicate 32 255)).name ≠ "ööööööööööööö" := by
  obtain ⟨hmade, hbytes, hraw⟩ := spelling_exact
  have hname : isValidName "ööööööööööööö" := by decide
  have hname' : isValidName "ööööööööööööä" := by decide
  obtain ⟨e, he, hlen, -, -, hgone, -⟩ := hmade "ööööööööööööö" ⟨7⟩ true hname
  obtain ⟨e', he', -⟩ := hmade "ööööööööööööä" ⟨7⟩ true hname'
  refine ⟨e, e', he, hlen, hgone, he', fun heq => ?_, fun heq => ?_⟩
  · have hsame := (hbytes _ _ _ _ _ _ e e' hname hname' he he' heq).1
    exact absurd hsame (by decide)
  · have hfront := ((hraw (Vector.replicate 32 255)).2 _ hname).mp heq
    exact absurd hfront (by decide)

end Entry
end TieredVolume
