import TieredVolume.Proofs.Cache.History
import TieredVolume.Proofs.Disk.Record
import TieredVolume.Volume

/-!
How records lie in their sectors. A record and the sector that stores it say the same, whatever is in
either, and a cache hands out what it was given. Each word has its four bytes, lowest first; setting
one word leaves all other bytes, and all that is read of them.
-/
namespace TieredVolume
namespace Record

variable {r r' : Record} {k : Kind} {i w : Nat} {raw : UInt32}

/-! ### Words -/

theorem getElem_toBlock (r : Record) {j : Nat} (hj : j < 512) :
    r.toBlock[j] = wordByte r.words[j / 4] (j % 4) := by
  simp only [toBlock, Block.ofWords, Vector.getElem_ofFn]

/-- A record that differs from `r` in one word has other bytes only there. -/
theorem getElem_toBlock_of_words (hw : w < 128) (h : r'.words = r.words.set w raw hw) {j : Nat}
    (hj : j < 512) : r'.toBlock[j] =
      if 4 * w ≤ j ∧ j < 4 * w + 4 then wordByte raw (j - 4 * w) else r.toBlock[j] := by
  rw [getElem_toBlock, getElem_toBlock, h, Vector.getElem_set]
  by_cases hin : w = j / 4
  · have hmod : j % 4 = j - 4 * w := by omega
    rw [if_pos hin, if_pos (by omega), hmod]
  · rw [if_neg hin, if_neg (by omega)]

theorem words_withLength (r : Record) (length : Nat) :
    (r.withLength length).words = r.words.set 2 (UInt32.ofNat length) (by decide) := by
  ext w hw
  simp only [words, withLength, Vector.getElem_ofFn, Vector.getElem_set]
  by_cases heq : 2 = w
  · subst heq
    rfl
  · simp only [if_neg heq, if_neg (Ne.symm heq)]

/-- Behind the three header words come the links. -/
theorem words_withLink (r : Record) (hi : i < 79) (raw : UInt32) :
    ({ r with index := r.index.set i raw } : Record).words = r.words.set (3 + i) raw := by
  ext w hw
  simp only [words, Vector.getElem_ofFn, Vector.getElem_set]
  by_cases heq : 3 + i = w
  · have hslot : i = w - 3 := by omega
    rw [if_pos heq, if_neg (by omega), if_neg (by omega), if_neg (by omega), dif_pos (by omega),
      if_pos hslot]
  · rw [if_neg heq]
    by_cases hheader : w < 3
    · have hw : w = 0 ∨ w = 1 ∨ w = 2 := by omega
      rcases hw with rfl | rfl | rfl <;> rfl
    · have hslot : ¬ i = w - 3 := by omega
      simp only [if_neg hslot]

/-! ### Setting one word -/

/-- In `r'` the word at the byte `offset` is `raw`, and that is all in which it differs from `r`: the
other bytes of the sector stay, and so does what is read of any other word. -/
structure Sets (offset : Nat) (raw : UInt32) (r r' : Record) : Prop where
  bytes : ∀ j (hj : j < 512), r'.toBlock[j] =
    if offset ≤ j ∧ j < offset + 4 then wordByte raw (j - offset) else r.toBlock[j]
  parent : r'.parent = r.parent
  length : r'.length = if offset = 8 then raw else r.length
  isValid : r'.isValid = r.isValid
  kind : r'.kind = r.kind
  links : ∀ k, r'.links k = (r.links k).map fun links =>
    if 12 ≤ offset then links.set ((offset - 12) / 4) raw else links

theorem sets_withLength (r : Record) (length : Nat) :
    Sets 8 (UInt32.ofNat length) r (r.withLength length) where
  bytes := fun _ hj => getElem_toBlock_of_words (by decide) (words_withLength r length) hj
  parent := rfl
  length := rfl
  isValid := rfl
  kind := rfl
  links := fun k => by
    have hsame : (r.withLength length).links k = r.links k := rfl
    rw [hsame]
    cases r.links k <;> rfl

theorem expect_eq_ok (hk : r.kind = .ok k) : r.expect k = .ok () := by
  simp [expect, hk, bind, Except.bind]

/-- The index region is read as what it is, and as nothing else. -/
theorem links_eq_ok (hk : r.kind = .ok k) : r.links k = .ok (r.index.toList.take (linkCount k)) := by
  simp only [links, expect_eq_ok hk, bind, Except.bind, pure, Except.pure]

theorem links_eq_error (hk : r.kind ≠ .ok k) : ∃ e, r.links k = .error e := by
  unfold links expect
  cases hkind : r.kind with
  | error e => exact ⟨e, rfl⟩
  | ok k' =>
    have hne : ¬ k' = k := fun heq => hk (heq ▸ hkind)
    exact ⟨.wrongVariant, by simp only [bind, Except.bind, if_neg hne]⟩

theorem setLink_eq_ok (hk : r.kind = .ok k) (hi : i < linkCount k) (raw : UInt32) :
    r.setLink k i raw =
      .ok { r with index := r.index.set i raw (Nat.lt_of_lt_of_le hi (linkCount_le k)) } := by
  simp only [setLink, expect_eq_ok hk, bind, Except.bind, dif_pos hi, pure, Except.pure]

theorem sets_withLink (r : Record) (hi : i < 79) (raw : UInt32) :
    Sets (12 + 4 * i) raw r { r with index := r.index.set i raw } where
  bytes := fun j hj => by
    have hoffset : 4 * (3 + i) = 12 + 4 * i := by omega
    rw [getElem_toBlock_of_words (by omega) (words_withLink r hi raw) hj, hoffset]
  parent := rfl
  length := by rw [if_neg (by omega)]
  isValid := rfl
  kind := rfl
  links := fun k => by
    have hslot : (12 + 4 * i - 12) / 4 = i := by omega
    simp only [if_pos (Nat.le_add_right 12 (4 * i)), hslot, links]
    have hexpect : ({ r with index := r.index.set i raw } : Record).expect k = r.expect k := rfl
    rw [hexpect]
    cases r.expect k with
    | ok _ =>
      simp only [bind, Except.bind, pure, Except.pure, Except.map, Vector.toList_set,
        List.take_set]
    | error e => rfl

/-! ### Through a cache -/

theorem isValid_iff : r.isValid ↔ r.magic = magicWord ∧ (r.kindRaw = 0 ∨ r.kindRaw = 1) := by
  simp only [isValid, Bool.and_eq_true, beq_iff_eq, Kind.ofRaw?]
  refine and_congr_right fun _ => ?_
  split
  · simp_all
  · split <;> simp_all

section Cached

open Volume

variable {n blocks : Nat} {c : Cache n} {s : Sector} {b : Block}

/-- A sector is fetched as the record it holds, or refused if it holds none. -/
theorem exists_fetch (hc : Cache.Usable blocks c) (hb : c.current s = some b) :
    ∃ c', fetch s c =
      if (ofBlock b).isValid then .ok (ofBlock b) c' else .error (.corruptedInode s.block) c' := by
  have hread : Yields never (Cache.readSector s) c _ :=
    Cache.readSector_yields hc.coherent hc.ready (by simp) hb
  obtain ⟨_, c', hrun, rfl, -⟩ := hread.ok_of_never
  refine ⟨c', ?_⟩
  simp only [fetch, bind, EStateM.bind, hrun, validate]
  split <;> rfl

/-- What was stored is fetched again. -/
theorem exists_fetch_store (hc : Cache.Usable blocks c) (hs : s.block < blocks) (hr : r.isValid) :
    ∃ c' c'', store s r c = .ok () c' ∧ fetch s c' = .ok r c'' := by
  have hs' : s.block < c.device.blockCount := hc.blockCount ▸ hs
  obtain ⟨b, hb⟩ := hc.coherent.exists_current hs'
  have hwrite : Yields never (Cache.writeSector s r.toBlock) c _ :=
    Cache.writeSector_yields hc.coherent hc.ready (by simp) hb r.toBlock
  obtain ⟨_, c', hrun, hcoherent, hchanges, -⟩ := hwrite.ok_of_never
  have hstored : c'.current s = some r.toBlock := (hchanges.current s hs').trans (if_pos rfl)
  obtain ⟨c'', hfetch⟩ := exists_fetch (hc.of_changes hcoherent hchanges) hstored
  rw [ofBlock_toBlock, if_pos hr] at hfetch
  exact ⟨c', c'', hrun, hfetch⟩

end Cached

/-! ### The format -/

/-- The format of records. Whatever is in a sector, it is stored again as it was read; a valid record
is fetched as it was stored, and a sector is refused just if its magic word or its kind word is not
one of a record. Setting the length or a link changes one word. The index region is read as the 79
links of a file header or as the 64 of an index block, whichever the kind word says. -/
theorem format_exact :
    (∀ b : Block, toBlock (ofBlock b) = b) ∧
    (∀ {n blocks : Nat} {c : Cache n} {s : Sector}, Cache.Usable blocks c → s.block < blocks →
      (∀ r : Record, r.isValid →
        ∃ c' c'', Volume.store s r c = .ok () c' ∧ Volume.fetch s c' = .ok r c'') ∧
      ∃ b c', c.current s = some b ∧ Volume.fetch s c =
        if b.word 83 (by decide) = magicWord ∧ (b.word 82 (by decide) = 0 ∨ b.word 82 (by decide) = 1)
        then .ok (ofBlock b) c'
        else .error (.corruptedInode s.block) c') ∧
    (∀ (r : Record) (length : Nat), Sets 8 (UInt32.ofNat length) r (r.withLength length)) ∧
    (∀ (r : Record) (k : Kind) (i : Nat) (raw : UInt32), r.kind = .ok k → i < linkCount k →
      ∃ r', r.setLink k i raw = .ok r' ∧ Sets (12 + 4 * i) raw r r') ∧
    (∀ r : Record, (r.kind = .ok .data → r.links .data = .ok r.index.toList) ∧
      (r.kind = .ok .indexBlock → r.links .indexBlock = .ok (r.index.toList.take 64)) ∧
      ∀ k, r.kind ≠ .ok k → ∃ e, r.links k = .error e) := by
  refine ⟨toBlock_ofBlock, fun hc hs => ⟨fun r hr => exists_fetch_store hc hs hr, ?_⟩,
    sets_withLength, fun r k i raw hk hi => ?_, fun r => ⟨fun hk => ?_, links_eq_ok,
      fun k => links_eq_error⟩⟩
  · obtain ⟨b, hb⟩ := hc.coherent.exists_current (hc.blockCount.symm ▸ hs)
    obtain ⟨c', hfetch⟩ := exists_fetch hc hb
    exact ⟨b, c', hb, hfetch.trans (if_congr isValid_iff rfl rfl)⟩
  · exact ⟨_, setLink_eq_ok hk hi raw,
      sets_withLink r (Nat.lt_of_lt_of_le hi (linkCount_le k)) raw⟩
  · have hall : r.index.toList.take (linkCount .data) = r.index.toList :=
      List.take_of_length_le (Nat.le_of_eq Vector.length_toList)
    rw [links_eq_ok hk, hall]

/-- A header and an index block with their last links set, and stored on a disk of one sector. -/
theorem format_exact_last : ∃ (c : Cache 1) (r r' : Record),
    Cache.Usable 1 c ∧ (data ⟨9⟩ ⟨0⟩ 100).setLink .data 78 7 = .ok r ∧
    Sets 324 7 (data ⟨9⟩ ⟨0⟩ 100) r ∧ indexBlock.setLink .indexBlock 63 7 = .ok r' ∧
    Sets 264 7 indexBlock r' ∧ (∃ e, r'.links .data = .error e) ∧ r.isValid ∧
    ∃ c' c'', Volume.store ⟨0⟩ r c = .ok () c' ∧ Volume.fetch ⟨0⟩ c' = .ok r c'' := by
  obtain ⟨c, hc⟩ : ∃ c, Cache.fresh 1 (.memory (MemoryDisk.blank 1)) = .ok c := ⟨_, rfl⟩
  have hsound : (Device.memory (MemoryDisk.blank 1)).Sound := trivial
  have husable : Cache.Usable 1 c := (Cache.usable_fresh hsound hc).1
  obtain ⟨-, hcache, -, hlink, hlinks⟩ := format_exact
  obtain ⟨r, hr, hsets⟩ := hlink (data ⟨9⟩ ⟨0⟩ 100) .data 78 7 rfl (by decide)
  obtain ⟨r', hr', hsets'⟩ := hlink indexBlock .indexBlock 63 7 rfl (by decide)
  have hkind : r'.kind ≠ .ok .data := by
    rw [hsets'.kind]
    nofun
  have hvalid : r.isValid := by
    rw [hsets.isValid]
    rfl
  exact ⟨c, r, r', husable, hr, hsets, hr', hsets', (hlinks r').2.2 .data hkind, hvalid,
    (hcache husable (by decide)).1 r hvalid⟩

end Record
end TieredVolume
