import TieredVolume.Proofs.Inode.Content

/-!
Bytes laid over a loaded file, whatever holes its index has. A read and a write go as far as there
is a sector for every byte. What reaches behind the end of the file binds all that lies between
first, pays for what is missing there, and then makes the file longer.
-/
namespace TieredVolume

open View

variable {w w' w₁ w₂ : View} {live spare : Set Sector} {places : Finset Place} {h s : Sector}
  {nd : Node} {r : Record} {l offset count stop k length : Nat} {bytes : Bytes}
  {faults : Fault → Prop} {n : Nat}

/-! ### A new length -/

theorem kept_setLoaded {h' : Sector} {r? : Option Record} (hne : h' ≠ h) :
    Kept w (w.setLoaded h r?) h' := by
  refine ⟨?_, fun _ _ _ => rfl⟩
  simp only [View.header, View.setLoaded, Function.update_of_ne hne]

section Resize

variable (hl : w.loaded h = some r) (length : Nat)

include hl

theorem header_withLength :
    (w.setLoaded h (some (r.withLength length))).header h = (w.header h).withLength length := by
  rw [header_of_loaded hl, header_of_loaded]
  simp only [View.setLoaded, Function.update_self]

theorem link_withLength (h' : Sector) (p : Place) :
    (w.setLoaded h (some (r.withLength length))).link h' p = w.link h' p := by
  by_cases hne : h' = h
  · subst hne
    exact trail_congr (by rw [header_withLength hl]; rfl) (fun _ _ _ _ => rfl) p.fits
  · exact (kept_setLoaded hne).link p

theorem byte_withLength (i : Nat) :
    (w.setLoaded h (some (r.withLength length))).byte h i = w.byte h i :=
  byte_congr (data_congr (link_withLength hl length h) _) fun _ _ => rfl

theorem forest_withLength (hf : Forest w live spare) :
    Forest (w.setLoaded h (some (r.withLength length))) live spare := by
  refine hf.congr rfl rfl (fun h' hh' => ?_) (fun h' _ p => link_withLength hl length h' p)
    fun h' hh' p b => hf.index h' hh' p b
  by_cases hne : h' = h
  · subst hne
    rw [header_withLength hl]
    exact (hf.header h' hh').withLength length
  · rw [(kept_setLoaded hne).header]
    exact hf.header h' hh'

end Resize

theorem size_withLength (hl : w.loaded h = some r) {length : Nat}
    (hlength : length ≤ maxSectors * sectorSize) :
    (w.setLoaded h (some (r.withLength length))).size h = length := by
  rw [View.size, header_withLength hl]
  simp only [Record.withLength, UInt32.toNat_ofNat']
  simp only [maxSectors, sectorSize] at hlength
  omega

theorem size_of_loaded (hr : w.loaded h = some r) : w.size h = r.length.toNat := by
  rw [View.size, header_of_loaded hr]

/-! ### What lies over a file -/

/-- Bytes were laid over the file `h` from `offset` on, and some of these places got a sector. -/
structure Laid (live spare : Set Sector) (places : Finset Place) (h : Sector) (offset : Nat)
    (bytes : Bytes) (w w' : View) : Prop where
  forest : Forest w' live spare
  total : w'.total = w.total
  node : w'.node = w.node
  loaded : ∀ t, t ≠ h → w'.loaded t = w.loaded t
  isLoaded : (w'.loaded h).isSome = (w.loaded h).isSome
  parent : (w'.header h).parent = (w.header h).parent
  used : ∀ s, w.used s = true → w'.used s = true
  link : ∀ p s, w.link h p = some s → w'.link h p = some s
  others : ∀ h' ∈ live, h' ≠ h → Kept w w' h'
  paid : Paid places h w w'
  byte : ∀ i, w'.byte h i =
    if offset ≤ i ∧ i < offset + bytes.length then bytes.getD (i - offset) 0 else w.byte h i

/-- Binding lays nothing over a file. -/
theorem laid_of_grown (hf : Forest w' live spare) (hg : Grown live h w w')
    (hp : Paid places h w w') (offset : Nat) : Laid live spare places h offset [] w w' where
  forest := hf
  total := hg.total
  node := hg.node
  loaded := hg.loaded
  isLoaded := hg.isLoaded
  parent := by rw [hg.header]
  used := hg.used
  link := hg.link
  others := hg.others
  paid := hp
  byte := fun i => by
    rw [hg.byte, if_neg]
    simp only [List.length_nil]
    omega

namespace Laid

theorem data (hl : Laid live spare places h offset bytes w w') (hs : w.data h l ≠ none) :
    w'.data h l ≠ none := by
  obtain ⟨s, hs⟩ := Option.ne_none_iff_exists'.mp hs
  obtain ⟨path, hpath, hlink⟩ := exists_place_of_data hs
  rw [View.data, hpath, Option.bind_some, hl.link _ s hlink]
  exact Option.some_ne_none s

/-- What is written to the sectors afterwards. -/
theorem wrote (hl : Laid live spare places h stop [] w w₁) (hf : Forest w₂ live spare)
    (hw : Wrote live h offset bytes w₁ w₂) : Laid live spare places h offset bytes w w₂ where
  forest := hf
  total := hw.total.trans hl.total
  node := hw.node.trans hl.node
  loaded := fun t ht => by rw [hw.loaded, hl.loaded t ht]
  isLoaded := by rw [hw.loaded, hl.isLoaded]
  parent := by rw [hw.header, hl.parent]
  used := fun s hs => hw.used ▸ hl.used s hs
  link := fun p s hs => (hw.link p).trans (hl.link p s hs)
  others := fun h' hh hne => (hl.others h' hh hne).trans (hw.others h' hh hne)
  paid := by
    refine ⟨?_, fun p hp => (hw.link p).trans (hl.paid.frame p hp)⟩
    have hvacant : w₂.vacant = w₁.vacant := by rw [View.vacant, View.vacant, hw.used, hw.total]
    rw [hvacant, View.missing_congr hw.link]
    exact hl.paid.count
  byte := fun i => by
    have hsame : w₁.byte h i = w.byte h i := (hl.byte i).trans (if_neg (by
      simp only [List.length_nil]
      omega))
    rw [hw.byte, hsame]

/-- A new length changes nothing but the length. -/
theorem resize (hl : Laid live spare places h offset bytes w w₁) (hr : w₁.loaded h = some r)
    (length : Nat) :
    Laid live spare places h offset bytes w (w₁.setLoaded h (some (r.withLength length))) where
  forest := forest_withLength hr length hl.forest
  total := hl.total
  node := hl.node
  loaded := fun t ht => by simp only [View.setLoaded, Function.update_of_ne ht, hl.loaded t ht]
  isLoaded := by
    rw [← hl.isLoaded, hr]
    simp only [View.setLoaded, Function.update_self, Option.isSome_some]
  parent := by
    rw [header_withLength hr, ← hl.parent]
    rfl
  used := hl.used
  link := fun p s hs => (link_withLength hr length h p).trans (hl.link p s hs)
  others := fun h' hh hne => (hl.others h' hh hne).trans (kept_setLoaded hne)
  paid := by
    refine ⟨?_, fun p hp => (link_withLength hr length h p).trans (hl.paid.frame p hp)⟩
    rw [View.missing_congr (link_withLength hr length h)]
    exact hl.paid.count
  byte := fun i => (byte_withLength hr length i).trans (hl.byte i)

end Laid

/-- The places on the ways between the end of a file and the byte `stop`. -/
def View.ahead (w : View) (h : Sector) (stop : Nat) : Finset Place :=
  ways (Record.dataSectors (w.size h)) (Record.dataSectors stop)

/-- Nothing lies ahead of a byte inside the file. -/
theorem View.size_lt_of_missing (hp : ∃ p ∈ w.ahead h stop, w'.link h p = none) :
    w.size h < stop := by
  obtain ⟨p, hp, -⟩ := hp
  obtain ⟨l, hl, -⟩ := Finset.mem_biUnion.mp hp
  obtain ⟨hle, hlt⟩ := Finset.mem_Ico.mp hl
  simp only [Record.dataSectors, sectorSize] at hle hlt
  omega

/-- What a write of bytes does that was not refused: between the old end and the new one all is
bound, the bytes lie over the file as far as there is a sector for each, and the file reaches up to
the last of these. -/
structure Overlaid (live spare : Set Sector) (h : Sector) (offset : Nat) (bytes : Bytes) (k : Nat)
    (w w' : View) : Prop extends
    Laid live spare (w.ahead h (offset + bytes.length)) h offset (bytes.take k) w w' where
  bound : ∀ l, Record.dataSectors (w.size h) ≤ l → l < Record.dataSectors (offset + bytes.length) →
    w'.data h l ≠ none
  written : k = (w'.stretch h offset bytes.length).length
  size : w.size h ≤ maxSectors * sectorSize → offset + bytes.length ≤ maxSectors * sectorSize ∧
    w'.size h = max (w.size h) (offset + k)

namespace Overlaid

theorem written_le (ho : Overlaid live spare h offset bytes k w w') : k ≤ bytes.length :=
  ho.written ▸ length_stretch_le w' h offset bytes.length

/-- Nothing is missing any more. -/
theorem missing_eq (ho : Overlaid live spare h offset bytes k w w') :
    w'.missing h (w.ahead h (offset + bytes.length)) = ∅ :=
  Finset.filter_eq_empty_iff.mpr fun _ hp => link_of_mem_ways ho.bound hp

end Overlaid

theorem lt_of_data (hs : w.data h l ≠ none) : l < maxSectors := by
  by_contra hge
  rw [View.data, IndexPath.locate?_eq_none_iff.mpr (Nat.not_lt.mp hge)] at hs
  exact hs rfl

/-- All that is bound has a logical sector that the index reaches. -/
theorem le_of_bound (hlimit : w.size h ≤ maxSectors * sectorSize)
    (hbound : ∀ l, Record.dataSectors (w.size h) ≤ l → l < Record.dataSectors stop →
      w'.data h l ≠ none) : stop ≤ maxSectors * sectorSize := by
  by_contra hover
  have hlast := lt_of_data (hbound (Record.dataSectors stop - 1)
    (by simp only [Record.dataSectors, sectorSize, maxSectors] at *; omega)
    (by simp only [Record.dataSectors, sectorSize, maxSectors] at *; omega))
  simp only [Record.dataSectors, sectorSize, maxSectors] at *
  omega

/-- The new length after what was bound and written. -/
theorem Overlaid.published (hl : Laid live spare (w.ahead h (offset + bytes.length)) h stop [] w w₁)
    (hsize : w₁.size h = w.size h)
    (hbound : ∀ l, Record.dataSectors (w.size h) ≤ l →
      l < Record.dataSectors (offset + bytes.length) → w₁.data h l ≠ none)
    (hf : Forest w₂ live spare) (hw : Wrote live h offset (bytes.take k) w₁ w₂)
    (hk : k = (w₁.stretch h offset bytes.length).length) (hr : w₂.loaded h = some r) :
    Overlaid live spare h offset bytes k w
      (w₂.setLoaded h (some (r.withLength (max r.length.toNat (offset + k))))) := by
  have hlink := link_withLength hr (max r.length.toNat (offset + k)) h
  have hlength : r.length.toNat = w.size h := by
    rw [← size_of_loaded hr, View.size, hw.header, ← hsize, View.size]
  refine ⟨(hl.wrote hf hw).resize hr _, fun l hle hlt => ?_, ?_, fun hlimit => ?_⟩
  · rw [View.data_congr hlink, hw.data]
    exact hbound l hle hlt
  · rw [View.stretch_congr hlink, hw.stretch]
    exact hk
  · have hend := le_of_bound hlimit hbound
    have hle := length_stretch_le w₁ h offset bytes.length
    refine ⟨hend, ?_⟩
    rw [size_withLength hr, hlength]
    rw [hlength]
    exact Nat.max_le.mpr ⟨hlimit, by omega⟩

namespace Inode

open Volume Attempt

/-- The end of a range, which fits its word or may be a fault. -/
theorem addOffset_does {σ τ : Type} {R : σ → τ → Prop} {t : τ} {post : Nat → τ → Prop} {a b : Nat}
    (hword : a + b < offsetLimit ∨ faults .overflow) (h : post (a + b) t) :
    Does R faults (ofExcept (addOffset a b)) t post := by
  by_cases hlt : a + b < offsetLimit
  · exact Does.ofExcept (addOffset_eq_ok_iff.mpr ⟨rfl, hlt⟩) h
  · refine Does.ofExcept_error (e := .overflow) ?_ (hword.resolve_left hlt)
    rw [addOffset, checkOffset, if_neg hlt]

/-! ### On a loaded inode -/

theorem publish_does (hn : w.node h = some nd) (hr : w.loaded h = some r) (stop : Nat) :
    Does Shows faults (publish (n := n) h stop) w fun _ w' =>
      w' = w.setLoaded h (some (r.withLength (max r.length.toNat stop))) :=
  updateRecord_does (f := fun r => .ok (r.withLength (max r.length.toNat stop))) hn hr rfl

section Loaded

variable (hf : Forest w live spare) (hh : h ∈ live) (hn : w.node h = some nd)
  (hr : w.loaded h = some r)

include hf hh hn hr

theorem writeSpans_loaded
    (hend : offset + bytes.length ≤ maxSectors * sectorSize ∨ faults (.pastIndex maxSectors)) :
    Does Shows faults (writeSpans (n := n) h (spans offset bytes.length) bytes 0) w fun k w' =>
      k = (w.stretch h offset bytes.length).length ∧ Forest w' live spare ∧
        Wrote live h offset (bytes.take k) w w' := by
  refine (writeSpans_stretch hf hh hn hr rfl hend).mono ?_
  rintro k w' ⟨hk, hf', hwrote⟩
  rw [Nat.zero_add] at hk
  exact ⟨hk, hf', hk ▸ hwrote⟩

/-- Growth is a write of nothing at the new end. -/
theorem grow_loaded (hword : offset + count < offsetLimit ∨ faults .overflow)
    (hend : offset + count ≤ maxSectors * sectorSize ∨ faults (.pastIndex maxSectors)) :
    Tries Shows faults (do
      let stop ← always (ofExcept (addOffset offset count))
      bindThrough (n := n) h stop
      always (publish h stop)) w
      (fun _ w' => Overlaid live spare h (offset + count) [] 0 w w')
      (Refused live spare (w.ahead h (offset + count)) h w) := by
  refine Tries.bind (Tries.always (addOffset_does hword ?_))
  refine Tries.andThen (bindThrough_tries hf hh hn hr hend) ?_ fun _ _ => id
  rintro - w₁ ⟨hf₁, hg, hbound, hpaid⟩
  obtain ⟨r₁, hr₁⟩ := hg.exists_loaded hr
  refine Tries.always ((publish_does (by rw [hg.node, hn]) hr₁ (offset + count)).mono ?_)
  rintro - w₂ rfl
  have hnone : (0 : Nat) = (w₁.stretch h (offset + count) ([] : Bytes).length).length := rfl
  exact Overlaid.published (laid_of_grown hf₁ hg hpaid offset) hg.size hbound hf₁
    (Wrote.nil live h (offset + count) w₁) hnone hr₁

/-- Writing to a loaded file. -/
theorem overwrite_loaded
    (hend : offset + bytes.length ≤ maxSectors * sectorSize ∨ faults (.pastIndex maxSectors)) :
    Tries Shows faults (do
      if offset + bytes.length ≤ (← always (record (n := n) h)).length.toNat then
        always (writeSpans h (spans offset bytes.length) bytes 0)
      else
        bindThrough h (offset + bytes.length)
        let written ← always (writeSpans h (spans offset bytes.length) bytes 0)
        always (publish h (offset + written))
        return written) w
      (fun k w' => Overlaid live spare h offset bytes k w w')
      (Refused live spare (w.ahead h (offset + bytes.length)) h w) := by
  refine Tries.bind (Tries.always ((record_does hn hr).mono ?_))
  rintro r' w' ⟨rfl, rfl⟩
  rw [← size_of_loaded hr]
  by_cases hinside : offset + bytes.length ≤ w'.size h
  · rw [if_pos hinside]
    refine Tries.always ((writeSpans_loaded hf hh hn hr hend).mono ?_)
    rintro k w₁ ⟨hk, hf₁, hwrote⟩
    have hlaid := laid_of_grown hf (Grown.refl live h w')
      (Paid.refl (w'.ahead h (offset + bytes.length)) h w') offset
    have hsize : w₁.size h = w'.size h := by rw [View.size, hwrote.header, View.size]
    refine ⟨hlaid.wrote hf₁ hwrote, fun l hle hlt => ?_, ?_, fun hlimit => ?_⟩
    · -- nothing lies ahead
      simp only [Record.dataSectors, sectorSize] at hle hlt
      omega
    · rw [hwrote.stretch]
      exact hk
    · have hle := length_stretch_le w' h offset bytes.length
      exact ⟨hinside.trans hlimit, by rw [hsize]; omega⟩
  · rw [if_neg hinside]
    refine Tries.andThen (bindThrough_tries hf hh hn hr hend) ?_ fun _ _ => id
    rintro - w₁ ⟨hf₁, hg, hbound, hpaid⟩
    have hn₁ : w₁.node h = some nd := by rw [hg.node, hn]
    obtain ⟨r₁, hr₁⟩ := hg.exists_loaded hr
    refine Tries.bind (Tries.always ((writeSpans_loaded hf₁ hh hn₁ hr₁ hend).mono ?_))
    rintro k w₂ ⟨hk, hf₂, hwrote⟩
    rw [← hwrote.node] at hn₁
    rw [← hwrote.loaded] at hr₁
    refine Tries.bind (Tries.always ((publish_does hn₁ hr₁ _).mono ?_))
    rintro - w₃ rfl
    exact Tries.pure (Overlaid.published (laid_of_grown hf₁ hg hpaid offset) hg.size hbound hf₂
      hwrote hk hr₁)

/-- Reading of a loaded file. -/
theorem read_loaded (hlimit : w.size h ≤ maxSectors * sectorSize ∨ faults (.pastIndex maxSectors)) :
    Does Shows faults (do
      let length := (← record (n := n) h).length.toNat
      let pieces ← readSpans h length (spans offset (min count (length - offset))) []
      return pieces.reverse.flatten) w fun bytes w' =>
        bytes = (w.stretch h offset (min count (w.size h - offset))).map (w.byte h) ∧ w' = w := by
  refine Does.andThen (record_does hn hr) ?_
  rintro r' w' ⟨rfl, rfl⟩
  rw [← size_of_loaded hr]
  by_cases hinside : offset ≤ w'.size h
  · refine Does.andThen (readSpans_stretch hf hh hn hr hlimit
      (hlimit.imp_left fun hle => by omega)) ?_
    rintro pieces w' ⟨hpieces, rfl⟩
    exact Does.pure ⟨hpieces, rfl⟩
  · have hnone : min count (w'.size h - offset) = 0 := by omega
    dsimp only
    rw [hnone, spans, if_pos rfl]
    exact Does.pure ⟨rfl, rfl⟩

end Loaded

end Inode
end TieredVolume
