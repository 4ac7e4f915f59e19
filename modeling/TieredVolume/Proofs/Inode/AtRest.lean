import TieredVolume.Proofs.Inode.Overlay
import TieredVolume.Proofs.Inode.WellFormed

/-!
The bytes of one inode, told from before an operation loads it to after it was put away again.
-/
namespace TieredVolume

open View

variable {w w' : View} {h : Sector} {nd : Node} {offset count k : Nat} {bytes : Bytes}
  {faults : Fault → Prop} {n : Nat}

theorem View.ahead_load (hl : w.loaded h = none) (stop : Nat) :
    (w.load h).ahead h stop = w.ahead h stop := by
  rw [View.ahead, (kept_load hl).size, View.ahead]

/-- What a write does to one inode that was not refused. -/
abbrev Rewritten (h : Sector) (offset : Nat) (bytes : Bytes) (k : Nat) (w w' : View) : Prop :=
  Overlaid {h} (w.beside h) h offset bytes k w w'

namespace Rewritten

theorem wellFormed (ho : Rewritten h offset bytes k w w') : w'.WellFormed h :=
  ho.forest.wellFormed rfl

theorem atHand (ho : Rewritten h offset bytes k w w') (hw : w.AtHand h nd) : w'.AtHand h nd :=
  hw.of_wellFormed ho.wellFormed ho.node ho.isLoaded

theorem atRest (ho : Rewritten h offset bytes k w w') (hw : w.AtRest h nd) : w'.AtRest h nd :=
  hw.of_wellFormed ho.wellFormed ho.node ho.isLoaded

/-- What was done while the inode was loaded, told from before the load to after its end. -/
theorem unload (hl : w.loaded h = none) (ho : Rewritten h offset bytes k (w.load h) w') :
    Rewritten h offset bytes k w (w'.unload h) := by
  have hk := kept_load hl
  have hk' := kept_unload ho.wellFormed.link_ne
  have hpaid := ho.paid
  rw [ahead_load hl] at hpaid
  refine ⟨⟨?_, ho.total, ho.node, fun t ht => ?_, ?_, ?_, ho.used, fun p s hs => ?_,
    fun h' hh hne => absurd hh hne, ⟨?_, fun p hp => ?_⟩, fun i => ?_⟩, fun l hle hlt => ?_, ?_,
    fun hlimit => ?_⟩
  · rw [← beside_load hl]
    exact ho.forest.of_kept rfl rfl fun _ hh => Set.mem_singleton_iff.mp hh ▸ hk'
  · simp only [View.unload, View.put, View.setLoaded, Function.update_of_ne ht, ho.loaded t ht,
      View.load]
  · simp only [View.unload, View.put, View.setLoaded, Function.update_self, hl]
  · rw [hk'.header, ho.parent, hk.header]
  · rw [hk'.link]
    exact ho.link p s ((hk.link p).trans hs)
  · rw [View.missing_congr hk'.link, ← View.missing_congr hk.link]
    exact hpaid.count
  · rw [hk'.link, hpaid.frame p hp, hk.link]
  · rw [hk'.byte, ho.byte, hk.byte]
  · rw [hk'.data]
    exact ho.bound l (hk.size ▸ hle) hlt
  · rw [View.stretch_congr hk'.link]
    exact ho.written
  · rw [hk'.size, ← hk.size]
    exact ho.size (hk.size ▸ hlimit)

end Rewritten

namespace Inode

open Volume Attempt

/-- A body that reaches up to some byte of a loaded file, told from before the load to after its
end. -/
theorem reaching_atRest {α : Type} {body : Attempt n α} {written : α → Nat} (hw : w.AtRest h nd)
    (hbody : Tries Shows faults body (w.load h)
      (fun a w' => Rewritten h offset bytes (written a) (w.load h) w')
      (Refused {h} ((w.load h).beside h) ((w.load h).ahead h (offset + bytes.length)) h
        (w.load h))) :
    Tries Shows faults (do always (load h); thenAlways body (unload h)) w
      (fun a w' => Rewritten h offset bytes (written a) w w')
      (Exhausted (w.ahead h (offset + bytes.length)) h w) := by
  refine loaded_atRest hw (hbody.mono ?_ ?_)
  · exact fun a w' ho => ⟨Rewritten.atHand ho hw.load, Rewritten.unload hw.unloaded ho⟩
  · intro why w' hr
    have hx := hr.exhausted
    rw [ahead_load hw.unloaded] at hx
    exact ⟨hx.atHand hw.load, hx.unload hw.unloaded⟩

/-- Growth binds what is missing up to the new end, or is refused. -/
theorem grow_atRest (hw : w.AtRest h nd)
    (hword : offset + count < offsetLimit ∨ faults .overflow)
    (hend : offset + count ≤ maxSectors * sectorSize ∨ faults (.pastIndex maxSectors)) :
    Tries Shows faults (grow (n := n) h count offset) w
      (fun _ w' => Rewritten h (offset + count) [] 0 w w')
      (Exhausted (w.ahead h (offset + count)) h w) := by
  have hload := hw.load
  obtain ⟨r, hr⟩ := hload.loaded
  exact reaching_atRest hw (grow_loaded hload.forest rfl hload.node hr hword hend)

/-- A write that is neither empty nor denied lays its bytes over the file, or is refused. -/
theorem writeAt_atRest (hw : w.AtRest h nd) (hempty : bytes ≠ []) (hdenied : nd.denials = 0)
    (hword : offset + bytes.length < offsetLimit ∨ faults .overflow)
    (hend : offset + bytes.length ≤ maxSectors * sectorSize ∨ faults (.pastIndex maxSectors)) :
    Tries Shows faults (writeAt (n := n) h offset bytes) w
      (fun k w' => Rewritten h offset bytes k w w')
      (Exhausted (w.ahead h (offset + bytes.length)) h w) := by
  unfold writeAt
  rw [if_neg (by simpa using hempty)]
  refine Tries.bind (Tries.always ((node_does_of_unloaded hw.node hw.unloaded).mono ?_))
  rintro nd' w' ⟨rfl, -, rfl⟩
  rw [if_neg (by omega)]
  refine Tries.bind (Tries.always (addOffset_does hword ?_))
  have hload := hw.load
  obtain ⟨r, hr⟩ := hload.loaded
  exact reaching_atRest hw (overwrite_loaded hload.forest rfl hload.node hr hend)

/-- One that is empty or denied does nothing. -/
theorem writeAt_idle (hw : w.AtRest h nd) (hidle : bytes = [] ∨ 0 < nd.denials) :
    Tries Shows faults (writeAt (n := n) h offset bytes) w (fun k w' => k = 0 ∧ w' = w)
      fun _ _ => False := by
  unfold writeAt
  by_cases hempty : bytes.isEmpty = true
  · rw [if_pos hempty]
    exact Tries.pure ⟨rfl, rfl⟩
  rw [if_neg hempty]
  refine Tries.bind (Tries.always ((node_does_of_unloaded hw.node hw.unloaded).mono ?_))
  rintro nd' w' ⟨rfl, -, rfl⟩
  rw [if_pos (hidle.resolve_left (by simpa using hempty))]
  exact Tries.pure ⟨rfl, rfl⟩

/-- So a write that is not refused did nothing or laid its bytes over the file. -/
theorem writeAt_answers (hw : w.AtRest h nd)
    (hword : offset + bytes.length < offsetLimit ∨ faults .overflow)
    (hend : offset + bytes.length ≤ maxSectors * sectorSize ∨ faults (.pastIndex maxSectors)) :
    Tries Shows faults (writeAt (n := n) h offset bytes) w
      (fun k w' => ((bytes = [] ∨ 0 < nd.denials) ∧ k = 0 ∧ w' = w) ∨
        Rewritten h offset bytes k w w')
      (Exhausted (w.ahead h (offset + bytes.length)) h w) := by
  by_cases hidle : bytes = [] ∨ 0 < nd.denials
  · exact (writeAt_idle hw hidle).mono (fun _ _ hk => .inl ⟨hidle, hk⟩) fun _ _ => False.elim
  · rw [not_or, Nat.not_lt, Nat.le_zero] at hidle
    exact (writeAt_atRest hw hidle.1 hidle.2 hword hend).mono (fun _ _ => .inr) fun _ _ => id

/-- A read hands out the bytes of the range as far as the file and its sectors go, and changes
nothing. -/
theorem readAt_atRest (hw : w.AtRest h nd)
    (hlimit : w.size h ≤ maxSectors * sectorSize ∨ faults (.pastIndex maxSectors)) :
    Does Shows faults (readAt (n := n) h offset count) w fun bytes w' =>
      bytes = (w.stretch h offset (min count (w.size h - offset))).map (w.byte h) ∧ w' = w := by
  have hk := kept_load hw.unloaded
  have hload := hw.load
  obtain ⟨r, hr⟩ := hload.loaded
  refine withLoaded_atRest hw ((read_loaded hload.forest rfl hload.node hr
    (hk.size ▸ hlimit)).mono ?_)
  rintro bytes w' ⟨rfl, rfl⟩
  refine ⟨hload, ?_, unload_load hw.unloaded⟩
  rw [hk.size, View.stretch_congr hk.link, funext hk.byte]

/-- The length is what the header says. -/
theorem length_atRest (hw : w.AtRest h nd) :
    Does Shows faults (Inode.length (n := n) h) w fun k w' => k = w.size h ∧ w' = w := by
  obtain ⟨r, hr⟩ := hw.load.loaded
  refine withLoaded_atRest hw (Does.andThen (record_does hw.node hr) ?_)
  rintro r' w₁ ⟨rfl, rfl⟩
  refine Does.pure ⟨hw.load, ?_, unload_load hw.unloaded⟩
  rw [← size_of_loaded hr, (kept_load hw.unloaded).size]

/-- So is the directory that the file lies in. -/
theorem parent_atRest (hw : w.AtRest h nd) :
    Does Shows faults (Inode.parent (n := n) h) w fun t w' => t = (w.file h).parent ∧ w' = w := by
  obtain ⟨r, hr⟩ := hw.load.loaded
  refine withLoaded_atRest hw (Does.andThen (record_does hw.node hr) ?_)
  rintro r' w₁ ⟨rfl, rfl⟩
  refine Does.pure ⟨hw.load, ?_, unload_load hw.unloaded⟩
  rw [← (kept_load hw.unloaded).file, View.file, header_of_loaded hr]

end Inode
end TieredVolume
