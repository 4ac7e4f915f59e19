import TieredVolume.Disk.Record

/-!
What a record answers once its kind is known.
-/
namespace TieredVolume
namespace Record

variable {r : Record} {k : Kind} {i : Nat} {raw : UInt32}

/-- A record of the kind `k`. -/
structure Is (k : Kind) (r : Record) : Prop where
  magic : r.magic = magicWord
  kindRaw : r.kindRaw = k.raw

theorem Is.isValid (h : r.Is k) : r.isValid := by
  simp [Record.isValid, h.magic, h.kindRaw]

theorem Is.expect (h : r.Is k) : r.expect k = .ok () := by
  simp [Record.expect, Record.kind, h.kindRaw, bind, Except.bind]

theorem Is.links (h : r.Is k) : r.links k = .ok (r.index.toList.take (linkCount k)) := by
  simp only [Record.links, h.expect, bind, Except.bind, pure, Except.pure]

theorem Is.link (h : r.Is k) (hi : i < linkCount k) (hi' : i < 79) :
    r.link k i = .ok r.index[i] := by
  simp only [Record.link, h.expect, bind, Except.bind, dif_pos hi, pure, Except.pure]

theorem Is.setLink (h : r.Is k) (hi : i < linkCount k) (hi' : i < 79) :
    r.setLink k i raw = .ok { r with index := r.index.set i raw } := by
  simp only [Record.setLink, h.expect, bind, Except.bind, dif_pos hi, pure, Except.pure]

theorem Is.cutLinks (h : r.Is .data) :
    r.cutLinks = .ok { r with index := Vector.replicate 79 Sector.noneRaw } := by
  simp only [Record.cutLinks, h.expect, bind, Except.bind, pure, Except.pure]

theorem Is.withIndex (h : r.Is k) (index : Vector UInt32 79) : Is k { r with index } :=
  ⟨h.magic, h.kindRaw⟩

theorem Is.withLength (h : r.Is k) (length : Nat) : Is k (r.withLength length) :=
  ⟨h.magic, h.kindRaw⟩

theorem is_indexBlock : Is .indexBlock indexBlock := ⟨rfl, rfl⟩

theorem is_data (start parent : Sector) (length : Nat) : Is .data (data start parent length) :=
  ⟨rfl, rfl⟩

end Record

theorem Sector.decode_noneRaw : Sector.decode Sector.noneRaw = none := by
  rw [decode, if_pos rfl]

/-- A sector of a device that is small enough can be linked to. -/
theorem Sector.decode_raw {s : Sector} (h : s.block + 1 < sectorLimit) :
    Sector.decode s.raw = some s := by
  refine decode_eq_some_iff.mpr ⟨rfl, fun heq => ?_⟩
  rw [block, heq] at h
  exact absurd h (by decide)

end TieredVolume
