import Mathlib.Data.List.GetD
import Mathlib.Data.List.TakeWhile
import TieredVolume.Inode.Content
import TieredVolume.Proofs.Inode.Index

/-!
The bytes of a loaded file. Reading spans hands out the bytes of the range that they were cut from;
writing spans lays bytes over the range and changes nothing else.
-/
namespace TieredVolume

open View

variable {w w' w'' : View} {live spare : Set Sector} {h h' s : Sector} {p : Place} {r : Record}
  {nd : Node} {l offset count : Nat} {faults : Fault → Prop} {n : Nat}

/-! ### Stretches without holes -/

/-- The positions in a range of a file up to the first one without a sector. -/
def View.stretch (w : View) (h : Sector) (offset count : Nat) : List Nat :=
  (List.range' offset count).takeWhile fun i => (w.data h (i / sectorSize)).isSome

theorem View.stretch_congr (hlink : ∀ p, w'.link h p = w.link h p) (offset count : Nat) :
    w'.stretch h offset count = w.stretch h offset count := by
  simp only [View.stretch, data_congr hlink]

theorem View.length_stretch_le (w : View) (h : Sector) (offset count : Nat) :
    (w.stretch h offset count).length ≤ count :=
  (List.takeWhile_prefix _).length_le.trans_eq List.length_range'

theorem stretch_of_none (hs : w.data h (offset / sectorSize) = none) :
    w.stretch h offset count = [] := by
  cases count with
  | zero => rfl
  | succ count => rw [View.stretch, List.range'_succ, List.takeWhile_cons_of_neg (by simp [hs])]

theorem stretch_of_bound
    (hbound : ∀ i, offset ≤ i → i < offset + count → w.data h (i / sectorSize) ≠ none) :
    w.stretch h offset count = List.range' offset count :=
  List.takeWhile_eq_self_iff.mpr fun i hi => by
    obtain ⟨hle, hlt⟩ := List.mem_range'_1.mp hi
    exact Option.isSome_iff_ne_none.mpr (hbound i hle hlt)

/-- A sector that is bound is read through to its end. -/
theorem stretch_of_some {size : Nat} (hs : w.data h (offset / sectorSize) = some s)
    (hrange : offset % sectorSize + size ≤ sectorSize) (hle : size ≤ count) :
    w.stretch h offset count =
      List.range' offset size ++ w.stretch h (offset + size) (count - size) := by
  have hsplit : List.range' offset count =
      List.range' offset size ++ List.range' (offset + size) (count - size) := by
    rw [List.range'_append_1, Nat.add_sub_cancel' hle]
  rw [View.stretch, hsplit, List.takeWhile_append_of_pos fun i hi => ?_]
  · rfl
  · obtain ⟨hle, hlt⟩ := List.mem_range'_1.mp hi
    have hsame : i / sectorSize = offset / sectorSize := by
      simp only [sectorSize] at hrange ⊢
      omega
    rw [hsame, hs, Option.isSome_some]

/-! ### Writing to one data sector -/

section PutLeaf

variable {b : Block} (hf : Forest w live spare) (hh : h ∈ live) (hs : w.link h p = some s)
  (hleaf : p.Leaf)

include hf hh hs in
theorem header_put (hh' : h' ∈ live) : (w.put s b).header h' = w.header h' := by
  have hne : h' ≠ s := fun heq => by
    subst heq
    have hplace := (hf.unique h hh h' hh' (some p) none h' hs rfl).2
    cases hplace
  simp only [View.header, View.put, Function.update_of_ne hne]

include hf hh hs hleaf

/-- No index block is touched by a write to a data sector. -/
theorem index_ne (hh' : h' ∈ live) {q : Place} {t : Sector} (hq : ¬ q.Leaf)
    (ht : w.link h' q = some t) : t ≠ s := fun heq => by
  subst heq
  have hplace := (hf.unique h hh h' hh' (some p) (some q) t hs ht).2
  exact hq ((Option.some.inj hplace) ▸ hleaf)

theorem link_put_leaf (hh' : h' ∈ live) (q : Place) : (w.put s b).link h' q = w.link h' q :=
  trail_congr (by rw [header_put hf hh hs hh']) (fun q' t hq ht => by
    simp only [View.put, Function.update_of_ne (index_ne hf hh hs hleaf hh' hq ht)]) q.fits

theorem forest_put_leaf : Forest (w.put s b) live spare := by
  refine hf.congr rfl rfl (fun h' hh' => ?_)
    (fun h' hh' => link_put_leaf hf hh hs hleaf hh') fun h' hh' q t hq ht => ?_
  · rw [header_put hf hh hs hh']
    exact hf.header h' hh'
  · simp only [View.put, Function.update_of_ne (index_ne hf hh hs hleaf hh' hq ht)]
    exact hf.index h' hh' q t hq ht

end PutLeaf

/-- Bytes were laid over the file `h` from `offset` on. -/
structure Wrote (live : Set Sector) (h : Sector) (offset : Nat) (bytes : Bytes) (w w' : View) :
    Prop where
  total : w'.total = w.total
  used : w'.used = w.used
  node : w'.node = w.node
  loaded : w'.loaded = w.loaded
  header : w'.header h = w.header h
  link : ∀ p, w'.link h p = w.link h p
  others : ∀ h' ∈ live, h' ≠ h → Kept w w' h'
  byte : ∀ i, w'.byte h i =
    if offset ≤ i ∧ i < offset + bytes.length then bytes.getD (i - offset) 0 else w.byte h i

namespace Wrote

variable {bytes more : Bytes}

theorem data (hw : Wrote live h offset bytes w w') (l : Nat) : w'.data h l = w.data h l :=
  data_congr hw.link l

theorem stretch (hw : Wrote live h offset bytes w w') (start count : Nat) :
    w'.stretch h start count = w.stretch h start count := stretch_congr hw.link start count

theorem nil (live : Set Sector) (h : Sector) (offset : Nat) (w : View) :
    Wrote live h offset [] w w :=
  ⟨rfl, rfl, rfl, rfl, rfl, fun _ => rfl, fun h' _ _ => Kept.refl w h', fun i => by
    rw [if_neg]
    simp only [List.length_nil]
    omega⟩

/-- Two writes, one right behind the other. -/
theorem append (hw : Wrote live h offset bytes w w')
    (hw' : Wrote live h (offset + bytes.length) more w' w'') :
    Wrote live h offset (bytes ++ more) w w'' where
  total := hw'.total.trans hw.total
  used := hw'.used.trans hw.used
  node := hw'.node.trans hw.node
  loaded := hw'.loaded.trans hw.loaded
  header := hw'.header.trans hw.header
  link := fun p => (hw'.link p).trans (hw.link p)
  others := fun h' hh' hne => (hw.others h' hh' hne).trans (hw'.others h' hh' hne)
  byte := fun i => by
    rw [hw'.byte, hw.byte, List.length_append]
    by_cases hsecond : offset + bytes.length ≤ i ∧ i < offset + bytes.length + more.length
    · rw [if_pos hsecond, if_pos (by omega), List.getD_append_right _ _ _ _ (by omega)]
      congr 1
      omega
    · rw [if_neg hsecond]
      by_cases hfirst : offset ≤ i ∧ i < offset + bytes.length
      · rw [if_pos hfirst, if_pos (by omega), List.getD_append _ _ _ _ (by omega)]
      · rw [if_neg hfirst, if_neg (by omega)]

end Wrote

/-- The place of the data sector that is bound to a logical sector. -/
theorem leaf_of_data (hs : w.data h l = some s) :
    ∃ p : Place, p.Leaf ∧ w.link h p = some s ∧
      ∀ l', l' ≠ l → ∀ path, IndexPath.locate? l' = some path → path.place ≠ p := by
  obtain ⟨path, hpath, hlink⟩ := exists_place_of_data hs
  refine ⟨path.place, path.leaf_place, hlink, fun l' hne path' hpath' heq => hne ?_⟩
  have hsame := IndexPath.place_injective heq
  rw [← IndexPath.locate?_eq_some_iff.mp hpath, ← IndexPath.locate?_eq_some_iff.mp hpath', hsame]

/-- Writing inside the sector that holds a part of the file. -/
theorem wrote_put {bytes : Bytes} (hf : Forest w live spare) (hh : h ∈ live)
    (hs : w.data h (offset / sectorSize) = some s)
    (hrange : offset % sectorSize + bytes.length ≤ sectorSize) :
    Wrote live h offset bytes w
      (w.put s (Block.overlay (w.block s) (offset % sectorSize) bytes)) := by
  obtain ⟨p, hleaf, hlink, hother⟩ := leaf_of_data hs
  have hlink' : ∀ q, (w.put s (Block.overlay (w.block s) (offset % sectorSize) bytes)).link h q =
      w.link h q := link_put_leaf hf hh hlink hleaf hh
  refine ⟨rfl, rfl, rfl, rfl, header_put hf hh hlink hh, hlink', fun h' hh' hne => ?_, fun i => ?_⟩
  · exact kept_put fun q hq => hne (hf.unique h' hh' h hh q (some p) s hq hlink).1
  · simp only [sectorSize] at hrange hs
    have hdata : ∀ l, (w.put s (Block.overlay (w.block s) (offset % sectorSize) bytes)).data h l =
        w.data h l := data_congr hlink'
    by_cases hsame : i / 512 = offset / 512
    · rw [← hsame] at hs
      rw [byte_of_data (s := s) (by rw [hdata, hs]), byte_of_data hs]
      simp only [View.put, Function.update_self, sectorSize]
      refine (Block.getElem_overlay ..).trans ?_
      by_cases hin : offset ≤ i ∧ i < offset + bytes.length
      · rw [dif_pos (by omega), if_pos hin, List.getD_eq_getElem _ _ (by omega)]
        congr 1
        omega
      · rw [dif_neg (by omega), if_neg hin]
        rfl
    · rw [if_neg (by omega)]
      refine byte_congr (hdata _) fun t ht => ?_
      obtain ⟨path, hpath, hlink₂⟩ := exists_place_of_data ht
      have hne : t ≠ s := fun heq => by
        subst heq
        have hplace := (hf.unique h hh h hh (some path.place) (some p) t hlink₂ hlink).2
        exact hother _ hsame path hpath (Option.some.inj hplace)
      simp only [View.put, Function.update_of_ne hne]

namespace Inode

open Volume Attempt

/-! ### Reading -/

/-- A part of a data sector is a range of the file. -/
theorem slice_block (hs : w.data h (offset / sectorSize) = some s)
    (hrange : offset % sectorSize + count ≤ sectorSize) :
    Block.slice (w.block s) (offset % sectorSize) count =
      (List.range' offset count).map (w.byte h) := by
  simp only [sectorSize] at hrange hs
  apply List.ext_getElem
  · simp [Block.slice_eq, sectorSize]
    omega
  · intro j hj hj'
    have hlt : j < count := by simpa using hj'
    have hdiv : (offset + j) / 512 = offset / 512 := by omega
    have hmod : (offset + j) % 512 = offset % 512 + j := by omega
    simp only [Block.slice_eq, List.getElem_take, List.getElem_drop, List.getElem_map,
      List.getElem_range', Nat.one_mul, View.byte, sectorSize, hdiv, hs, hmod,
      Vector.getElem_toList]
    rfl

theorem announceNext_does {size : Nat} (hf : Forest w live spare) (hh : h ∈ live)
    (hn : w.node h = some nd) (hl : w.loaded h = some r)
    (hsize : size ≤ maxSectors * sectorSize ∨ faults (.pastIndex maxSectors)) (logical : Nat) :
    Does Shows faults (announceNext (n := n) h size logical) w fun _ w' => w' = w := by
  unfold announceNext
  by_cases hnext : (logical + 1) * sectorSize < size
  · rw [if_pos hnext]
    refine Does.andThen (find?_does hf hh hn hl (hsize.imp_left fun hle => ?_)) ?_
    · simp only [sectorSize, maxSectors] at *
      omega
    · rintro s? w' ⟨rfl, rfl⟩
      cases hs : w'.data h (logical + 1) with
      | none => exact Does.pure rfl
      | some next =>
        obtain ⟨p, -, hlink, -⟩ := leaf_of_data hs
        have hstored := hf.link_stored hh hlink
        exact fun v hv => requestReadAhead_does (hv.lt hstored.1) v hv
  · rw [if_neg hnext]
    exact Does.pure rfl

theorem readSpans_stretch {size : Nat} {pieces : List Bytes} (hf : Forest w live spare)
    (hh : h ∈ live) (hn : w.node h = some nd) (hl : w.loaded h = some r)
    (hsize : size ≤ maxSectors * sectorSize ∨ faults (.pastIndex maxSectors))
    (hend : offset + count ≤ maxSectors * sectorSize ∨ faults (.pastIndex maxSectors)) :
    Does Shows faults (readSpans (n := n) h size (spans offset count) pieces) w fun out w' =>
      out.reverse.flatten =
        pieces.reverse.flatten ++ (w.stretch h offset count).map (w.byte h) ∧ w' = w := by
  fun_induction spans offset count generalizing pieces with
  | case1 offset =>
    exact Does.pure ⟨by simp [View.stretch], rfl⟩
  | case2 offset count hcount size' =>
    rename_i ih
    have hsize' : size' = min count (sectorSize - offset % sectorSize) := rfl
    have hmod := Nat.mod_lt offset (show 0 < sectorSize by decide)
    rw [readSpans]
    refine Does.andThen (find?_does hf hh hn hl (hend.imp_left fun hle => ?_)) ?_
    · simp only [sectorSize, maxSectors] at *
      omega
    rintro s? w' ⟨rfl, rfl⟩
    cases hs : w'.data h (offset / sectorSize) with
    | none => exact Does.pure ⟨by rw [stretch_of_none hs, List.map_nil, List.append_nil], rfl⟩
    | some s =>
      have hrange : offset % sectorSize + size' ≤ sectorSize := by omega
      obtain ⟨p, -, hlink, -⟩ := leaf_of_data hs
      refine Does.andThen (read_does (hf.link_stored hh hlink) hrange) ?_
      rintro piece w' ⟨rfl, rfl⟩
      refine Does.andThen (announceNext_does hf hh hn hl hsize _) ?_
      rintro - w' rfl
      refine (ih (hend.imp_left fun hle => by omega)).mono ?_
      rintro out w' ⟨hout, rfl⟩
      refine ⟨?_, rfl⟩
      rw [hout, slice_block hs hrange, stretch_of_some hs hrange (by omega)]
      simp only [List.reverse_cons, List.flatten_append, List.flatten_cons, List.flatten_nil,
        List.append_nil, List.append_assoc, List.map_append]

/-! ### Writing -/

theorem writeSpans_stretch {bytes : Bytes} {written : Nat} (hf : Forest w live spare)
    (hh : h ∈ live) (hn : w.node h = some nd) (hl : w.loaded h = some r)
    (hcount : count = bytes.length)
    (hend : offset + count ≤ maxSectors * sectorSize ∨ faults (.pastIndex maxSectors)) :
    Does Shows faults (writeSpans (n := n) h (spans offset count) bytes written) w fun out w' =>
      out = written + (w.stretch h offset count).length ∧ Forest w' live spare ∧
        Wrote live h offset (bytes.take (w.stretch h offset count).length) w w' := by
  fun_induction spans offset count generalizing bytes written w with
  | case1 offset =>
    have hnil : bytes = [] := List.length_eq_zero_iff.mp hcount.symm
    subst hnil
    exact Does.pure ⟨rfl, hf, Wrote.nil live h offset w⟩
  | case2 offset count hne size =>
    rename_i ih
    have hsize : size = min count (sectorSize - offset % sectorSize) := rfl
    have hmod := Nat.mod_lt offset (show 0 < sectorSize by decide)
    rw [writeSpans]
    refine Does.andThen (find?_does hf hh hn hl (hend.imp_left fun hle => ?_)) ?_
    · simp only [sectorSize, maxSectors] at *
      omega
    rintro s? w' ⟨rfl, rfl⟩
    cases hs : w'.data h (offset / sectorSize) with
    | none =>
      rw [stretch_of_none hs]
      exact Does.pure ⟨rfl, hf, Wrote.nil live h offset w'⟩
    | some s =>
      obtain ⟨p, hleaf, hlink, -⟩ := leaf_of_data hs
      have hlen : (bytes.take size).length = size := by
        rw [List.length_take]
        omega
      have hrange : offset % sectorSize + (bytes.take size).length ≤ sectorSize := by omega
      refine Does.andThen (write_does (hf.link_stored hh hlink) hrange) ?_
      rintro - w₁ rfl
      have hw := wrote_put hf hh hs hrange
      have hrest : count - size = (bytes.drop size).length := by
        rw [List.length_drop]
        omega
      refine (ih (forest_put_leaf hf hh hlink hleaf) (by rw [hw.node, hn]) (by rw [hw.loaded, hl])
        hrest (hend.imp_left fun hle => by omega)).mono ?_
      rintro out w₂ ⟨rfl, hf₂, hw₂⟩
      rw [hw.stretch] at hw₂ ⊢
      rw [stretch_of_some hs (hlen ▸ hrange) (by omega), List.length_append, List.length_range',
        List.take_add]
      refine ⟨(Nat.add_assoc ..), hf₂, hw.append ?_⟩
      rw [hlen]
      exact hw₂

end Inode
end TieredVolume
