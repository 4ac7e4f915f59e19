import TieredVolume.Proofs.Inode.Overlay
import TieredVolume.Proofs.Inode.Shelf

/-!
What the operations on open inodes do to the shelf: reads hand out bytes, writes and growth change
the bytes of one file or, if they are refused, nothing.
-/
namespace TieredVolume

open View

variable {total : Nat} {w w' : View} {live spare : Set Sector} {h s : Sector} {r : Record}
  {nd : Node} {offset count k : Nat} {bytes : Bytes} {faults : Fault → Prop} {n : Nat}
  {S : Shelf}

/-- Whatever an index can reach fits into a word. -/
theorem lt_offsetLimit {length : Nat} (hend : length ≤ maxSectors * sectorSize) :
    length < offsetLimit := by
  simp only [maxSectors, sectorSize, offsetLimit] at hend ⊢
  omega

theorem extend_eq_splice (old : Bytes) (length : Nat) :
    extend old length = splice old length [] := by
  refine bytes_ext ?_ fun i => ?_
  · rw [length_extend, length_splice, List.length_nil, Nat.add_zero]
  · rw [getD_extend, getD_splice, if_neg]
    simp only [List.length_nil]
    omega

/-! ### On a loaded file -/

/-- A file without holes gets no hole from what is laid over it. -/
theorem Overlaid.sized (ho : Overlaid live spare h offset bytes k w w') (hz : Sized w h) :
    Sized w' h := by
  obtain ⟨hend, hsize⟩ := ho.size hz.limit
  have hk := ho.written_le
  have hlen : (bytes.take k).length = k := by rw [List.length_take]; omega
  refine ⟨?_, ho.data hz.first, fun l hl => ?_, fun i hi => ?_⟩
  · have hlimit := hz.limit
    omega
  · by_cases hold : l < Record.dataSectors (w.size h)
    · exact ho.data (hz.bound l hold)
    · refine ho.bound l (Nat.not_lt.mp hold) ?_
      simp only [Record.dataSectors, sectorSize] at hl hold ⊢
      omega
  · rw [ho.byte, hlen, if_neg (by omega)]
    exact hz.zero i (by omega)

/-- In a file without holes nothing stops a write before its end. -/
theorem Overlaid.eq_length (ho : Overlaid live spare h offset bytes k w w') (hz : Sized w h) :
    k = bytes.length := by
  rw [ho.written, stretch_of_bound fun i hle hlt => ?_, List.length_range']
  by_cases hold : i / sectorSize < Record.dataSectors (w.size h)
  · exact ho.data (hz.bound _ hold)
  · refine ho.bound _ (Nat.not_lt.mp hold) ?_
    simp only [Record.dataSectors, sectorSize] at hlt ⊢
    omega

/-- What is laid over one file changes its bytes and no others. -/
theorem Overlaid.held (ho : Overlaid S.live S.spare s offset bytes k w w') (hw : Held total s w S)
    (hs : s ∈ S.live) : k = bytes.length ∧
      Held total s w' (S.setBytes s (splice (S.bytes s) offset bytes)) := by
  have hz := hw.sized s hs
  obtain ⟨-, hsize⟩ := ho.size hz.limit
  have hk := ho.eq_length hz
  refine ⟨hk, hw.toHolds.of_bytes hs ho.total ho.forest ho.node ho.others (ho.sized hz) ho.parent ?_
    fun i => ?_, ?_, fun t ht => by rw [ho.loaded t ht, hw.unloaded t ht]⟩
  · rw [hsize, length_splice, hw.length_eq hs, hk]
  · rw [ho.byte, getD_splice, hw.getD_eq hs, hk, List.take_length]
  · obtain ⟨r, hr⟩ := hw.loaded
    have hsome := ho.isLoaded
    rw [hr] at hsome
    exact Option.isSome_iff_exists.mp hsome

namespace Inode

open Volume Attempt

/-- Reading a loaded file. -/
theorem read_held (hw : Held total s w S) (hs : s ∈ S.live) (hn : S.node s = some nd) :
    Does Volume.Shows faults (do
      let length := (← record (n := n) s).length.toNat
      let pieces ← readSpans s length (spans offset (min count (length - offset))) []
      return pieces.reverse.flatten) w fun bytes w' =>
        bytes = ((S.bytes s).drop offset).take count ∧ w' = w := by
  obtain ⟨r, hr⟩ := hw.loaded
  have hz := hw.sized s hs
  refine (read_loaded hw.forest hs (by rw [hw.node, hn]) hr (.inl hz.limit)).mono ?_
  rintro bytes w' ⟨rfl, rfl⟩
  refine ⟨?_, rfl⟩
  rw [stretch_of_bound fun i _ hi => hz.bound _ ?_, hw.bytes_eq hs]
  · refine List.ext_getElem ?_ fun i hi hi' => ?_
    · simp [length_file]
    · simp [View.file]
  · simp only [Record.dataSectors, sectorSize]
    omega

/-- Writing to a loaded file. Only what reaches behind its end can be refused. -/
theorem overwrite_held (hw : Held total s w S) (hs : s ∈ S.live) (hn : S.node s = some nd)
    (hend : offset + bytes.length ≤ maxSectors * sectorSize ∨ faults (.pastIndex maxSectors)) :
    Tries Volume.Shows faults (do
      if offset + bytes.length ≤ (← always (record (n := n) s)).length.toNat then
        always (writeSpans s (spans offset bytes.length) bytes 0)
      else
        bindThrough s (offset + bytes.length)
        let written ← always (writeSpans s (spans offset bytes.length) bytes 0)
        always (publish s (offset + written))
        return written) w
      (fun k w' => k = bytes.length ∧ Held total s w' (S.setBytes s (splice (S.bytes s) offset bytes)))
      (fun why w' => why = .noSpace ∧ (S.bytes s).length < offset + bytes.length ∧
        Held total s w' S) := by
  obtain ⟨r, hr⟩ := hw.loaded
  refine (overwrite_loaded hw.forest hs (by rw [hw.node, hn]) hr hend).mono
    (fun k w' ho => ho.held hw hs) fun why w' hr => ⟨hr.why, ?_, hw.of_grown hs hr.forest hr.grown⟩
  rw [hw.length_eq hs]
  exact View.size_lt_of_missing hr.short

/-- Growth of a loaded file. -/
theorem grow_held (hw : Held total s w S) (hs : s ∈ S.live) (hn : S.node s = some nd)
    (hword : offset + count < offsetLimit ∨ faults .overflow)
    (hend : offset + count ≤ maxSectors * sectorSize ∨ faults (.pastIndex maxSectors)) :
    Tries Volume.Shows faults (do
      let stop ← always (ofExcept (addOffset offset count))
      bindThrough (n := n) s stop
      always (publish s stop)) w
      (fun _ w' => Held total s w' (S.setBytes s (extend (S.bytes s) (offset + count))))
      (fun why w' => why = .noSpace ∧ Held total s w' S) := by
  obtain ⟨r, hr⟩ := hw.loaded
  rw [extend_eq_splice]
  exact (grow_loaded hw.forest hs (by rw [hw.node, hn]) hr hword hend).mono
    (fun _ w' ho => (ho.held hw hs).2) fun why w' hr => ⟨hr.why, hw.of_grown hs hr.forest hr.grown⟩

/-! ### The operations -/

section Operations

variable (hs : s ∈ S.live) (hn : S.node s = some nd)

include hs hn

theorem length_does : Does (Stores total) faults (length (n := n) s) S fun k S' =>
    k = (S.bytes s).length ∧ S' = S := by
  refine Does.lift fun w hw => withLoaded_does hw hs hn fun w hw => ?_
  obtain ⟨r, hr⟩ := hw.loaded
  refine Does.andThen (record_does (by rw [hw.node, hn]) hr) ?_
  rintro r' w' ⟨rfl, rfl⟩
  refine Does.pure ⟨S, rfl, rfl, hw, ?_, rfl⟩
  rw [hw.length_eq hs, View.size, header_of_loaded hr]

theorem parent_does : Does (Stores total) faults (parent (n := n) s) S fun t S' =>
    t = (S.file s).parent ∧ S' = S := by
  refine Does.lift fun w hw => withLoaded_does hw hs hn fun w hw => ?_
  obtain ⟨r, hr⟩ := hw.loaded
  refine Does.andThen (record_does (by rw [hw.node, hn]) hr) ?_
  rintro r' w' ⟨rfl, rfl⟩
  refine Does.pure ⟨S, rfl, rfl, hw, ?_, rfl⟩
  rw [← hw.file s hs, View.file, header_of_loaded hr]

/-- Looking for a sector that the index reaches changes nothing. -/
theorem sectorAt_does (hend : offset / sectorSize < maxSectors ∨ faults (.pastIndex maxSectors)) :
    Does (Stores total) faults (sectorAt (n := n) s offset) S fun _ S' => S' = S := by
  refine Does.lift fun w hw => withLoaded_does hw hs hn fun w hw => ?_
  obtain ⟨r, hr⟩ := hw.loaded
  refine (find?_does hw.forest hs (by rw [hw.node, hn]) hr hend).mono ?_
  rintro s? w' ⟨-, rfl⟩
  exact ⟨S, rfl, rfl, hw, rfl⟩

/-- A read hands out the bytes of the range, as far as the file reaches. -/
theorem readAt_does : Does (Stores total) faults (readAt (n := n) s offset count) S fun bytes S' =>
    bytes = ((S.bytes s).drop offset).take count ∧ S' = S := by
  refine Does.lift fun w hw => withLoaded_does hw hs hn fun w hw => (read_held hw hs hn).mono ?_
  rintro bytes w' ⟨hbytes, rfl⟩
  exact ⟨S, rfl, rfl, hw, hbytes, rfl⟩

/-- A write lays its bytes over the file; it does nothing if it is refused, empty or denied. Only
one that reaches behind the end can be refused. -/
theorem writeAt_tries (hword : offset + bytes.length < offsetLimit ∨ faults .overflow)
    (hend : offset + bytes.length ≤ maxSectors * sectorSize ∨ faults (.pastIndex maxSectors)) :
    Tries (Stores total) faults (writeAt (n := n) s offset bytes) S
      (fun k S' => if bytes = [] ∨ 0 < nd.denials then k = 0 ∧ S' = S
        else k = bytes.length ∧ S' = S.setBytes s (splice (S.bytes s) offset bytes))
      (fun why S' => why = .noSpace ∧ ¬ (bytes = [] ∨ 0 < nd.denials) ∧
        (S.bytes s).length < offset + bytes.length ∧ S' = S) := by
  refine Tries.lift fun w hw => ?_
  unfold writeAt
  by_cases hempty : bytes = []
  · rw [if_pos (by rw [hempty]; rfl)]
    exact Tries.pure ⟨S, hw, by rw [if_pos (.inl hempty)]; exact ⟨rfl, rfl⟩⟩
  rw [if_neg (by simpa using hempty)]
  refine Tries.bind (Tries.always ((node_does_of_unloaded (by rw [hw.node, hn])
    (hw.unloaded s)).mono ?_))
  rintro nd' w' ⟨rfl, -, rfl⟩
  by_cases hdenied : 0 < nd'.denials
  · rw [if_pos hdenied]
    exact Tries.pure ⟨S, hw, by rw [if_pos (.inr hdenied)]; exact ⟨rfl, rfl⟩⟩
  rw [if_neg hdenied]
  have hdoes : ¬ (bytes = [] ∨ 0 < nd'.denials) := not_or.mpr ⟨hempty, hdenied⟩
  simp only [if_neg hdoes]
  refine Tries.bind (Tries.always (addOffset_does hword ?_))
  refine loaded_tries hw hs hn fun w hw => (overwrite_held hw hs hn hend).mono ?_ ?_
  · rintro k w' ⟨rfl, hw'⟩
    exact ⟨S.setBytes s _, rfl, rfl, hw', rfl, rfl⟩
  · rintro why w' ⟨rfl, hshort, hw'⟩
    exact ⟨S, rfl, rfl, hw', rfl, hdoes, hshort, rfl⟩

omit hs in
/-- While writing is denied, nothing is written, and nothing is refused. -/
theorem writeAt_denied {refused : Refusal → Shelf → Prop} (hdenied : 0 < nd.denials) :
    Tries (Stores total) faults (writeAt (n := n) s offset bytes) S (fun k S' => k = 0 ∧ S' = S)
      refused := by
  refine Tries.lift fun w hw => ?_
  unfold writeAt
  by_cases hempty : bytes.isEmpty = true
  · rw [if_pos hempty]
    exact Tries.pure ⟨S, hw, rfl, rfl⟩
  rw [if_neg hempty]
  refine Tries.bind (Tries.always ((node_does_of_unloaded (by rw [hw.node, hn])
    (hw.unloaded s)).mono ?_))
  rintro nd' w' ⟨rfl, -, rfl⟩
  rw [if_pos hdenied]
  exact Tries.pure ⟨S, hw, rfl, rfl⟩

/-- Growth puts zeros behind a file that is too short. -/
theorem grow_tries (hword : offset + count < offsetLimit ∨ faults .overflow)
    (hend : offset + count ≤ maxSectors * sectorSize ∨ faults (.pastIndex maxSectors)) :
    Tries (Stores total) faults (grow (n := n) s count offset) S
      (fun _ S' => S' = S.setBytes s (extend (S.bytes s) (offset + count)))
      (fun why S' => why = .noSpace ∧ S' = S) := by
  refine Tries.lift fun w hw => loaded_tries hw hs hn fun w hw =>
    (grow_held hw hs hn hword hend).mono ?_ ?_
  · rintro - w' hw'
    exact ⟨S.setBytes s _, rfl, rfl, hw', rfl⟩
  · rintro why w' ⟨rfl, hw'⟩
    exact ⟨S, rfl, rfl, hw', rfl, rfl⟩

/-- Binding a sector changes no bytes. -/
theorem allocateAt_tries
    (hend : offset / sectorSize < maxSectors ∨ faults (.pastIndex maxSectors)) :
    Tries (Stores total) faults (allocateAt (n := n) s offset) S (fun _ S' => S' = S)
      (fun why S' => why = .noSpace ∧ S' = S) := by
  refine Tries.lift fun w hw => loaded_tries hw hs hn fun w hw => ?_
  obtain ⟨r, hr⟩ := hw.loaded
  refine (bind_tries hw.forest hs (by rw [hw.node, hn]) hr hend subset_rfl).mono ?_ ?_
  · rintro t w₁ ⟨hforest, hg, -⟩
    exact ⟨S, rfl, rfl, hw.of_grown hs hforest hg, rfl⟩
  · rintro why w₁ hr
    exact ⟨S, rfl, rfl, hw.of_grown hs hr.forest hr.grown, hr.why, rfl⟩

end Operations

end Inode
end TieredVolume
