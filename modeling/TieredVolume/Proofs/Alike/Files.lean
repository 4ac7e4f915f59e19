import TieredVolume.Proofs.Alike.Index
import TieredVolume.Proofs.Inode.Files

/-!
The operations on open inodes, twice over. What they answer and which sectors they bind depends on
nothing but the view.
-/
namespace TieredVolume

open View

variable {α : Type} {total : Nat} {w w' : View} {live spare : Set Sector} {h s : Sector} {r : Record}
  {nd : Node} {offset count stop written : Nat} {bytes : Bytes} {S : Shelf}

/-- The load of an inode can be ended. -/
structure View.Loaded (w : View) (s : Sector) : Prop where
  node : ∃ nd, w.node s = some nd
  record : ∃ r, w.loaded s = some r
  stored : w.Stored s

theorem Held.of_live (hw : Held total s w S) (hs : s ∈ S.live) (hn : S.node s = some nd) : w.Loaded s :=
  ⟨⟨nd, by rw [hw.node, hn]⟩, hw.loaded, hw.forest.header_stored hs⟩

namespace Inode

open Volume Attempt

/-! ### Loading and unloading -/

theorem load_alike (hw : Keeps total w S) (hs : s ∈ S.live) (hn : S.node s = some nd) :
    Alike (fun n => load (n := n) s) w := by
  have hdata := hw.forest.header s hs
  rw [View.header, hw.unloaded, Option.getD_none] at hdata
  exact Alike.of_move (load_does (by rw [hw.node, hn]) (hw.unloaded s) (hw.forest.header_stored hs)
    hdata.isValid)

theorem unload_alike (hw : w.Loaded s) : Alike (fun n => unload (n := n) s) w := by
  obtain ⟨⟨nd, hn⟩, ⟨r, hr⟩, hs⟩ := hw
  exact Alike.of_move (unload_does hn hr hs)

variable (hs : s ∈ S.live) (hn : S.node s = some nd)

include hs hn

theorem withLoaded_alike {body : (n : Nat) → VolumeM n α} (hw : Keeps total w S)
    (hbody : ∀ w, Held total s w S → Alike body w)
    (hdoes : ∀ {n} w, Held total s w S → Does Shows anyFault (body n) w fun _ w' => w'.Loaded s) :
    Alike (fun n => withLoaded s (body n)) w := by
  refine Alike.andThen (load_alike hw hs hn) (load_held hw hs hn) fun _ w₁ hw₁ => ?_
  refine Alike.andThen (hbody w₁ hw₁) (hdoes w₁ hw₁) fun a w₂ hw₂ => ?_
  exact InStep.andThen (unload_alike hw₂) fun _ _ _ hmet => InStep.pure hmet

/-- What is known to answer one thing, and to change nothing, while the inode is loaded. -/
theorem look_alike {body : (n : Nat) → VolumeM n α} (hw : Keeps total w S)
    (hbody : ∀ w, Held total s w S →
      ∃ a, ∀ {n}, Does Shows never (body n) w fun b w' => b = a ∧ w' = w) :
    Alike (fun n => withLoaded s (body n)) w := by
  refine withLoaded_alike hs hn hw (fun w hw => ?_) fun w hw => ?_
  · obtain ⟨a, ha⟩ := hbody w hw
    exact Alike.of_does ha
  · obtain ⟨a, ha⟩ := hbody w hw
    refine fun v hv => (ha v hv).of_never.mono ?_
    rintro b v' ⟨w', hv', -, rfl⟩
    exact ⟨w', hv', hw.of_live hs hn⟩

theorem loaded_alike {body : (n : Nat) → Attempt n α} (hw : Keeps total w S)
    (hbody : ∀ w, Held total s w S → Alike (fun n => (body n).run) w)
    (hdoes : ∀ {n} w, Held total s w S → Tries Shows anyFault (body n) w (fun _ w' => w'.Loaded s)
      fun _ w' => w'.Loaded s) :
    Alike (fun n => (do always (load (n := n) s); thenAlways (body n) (unload s)).run) w := by
  refine InStep.always_bind (Alike.andThen (load_alike hw hs hn) (load_held hw hs hn) fun _ w₁ hw₁ => ?_)
  exact Alike.thenAlways (hbody w₁ hw₁) (hdoes w₁ hw₁) (fun _ _ => unload_alike)
    fun _ _ => unload_alike

/-! ### Looking -/

theorem length_alike (hw : Keeps total w S) : Alike (fun n => length (n := n) s) w := by
  refine look_alike hs hn hw fun w hw => ?_
  obtain ⟨r, hr⟩ := hw.loaded
  refine ⟨r.length.toNat, fun {n} => Does.andThen (record_does (by rw [hw.node, hn]) hr) ?_⟩
  rintro r' w' ⟨rfl, rfl⟩
  exact Does.pure ⟨rfl, rfl⟩

theorem parent_alike (hw : Keeps total w S) : Alike (fun n => parent (n := n) s) w := by
  refine look_alike hs hn hw fun w hw => ?_
  obtain ⟨r, hr⟩ := hw.loaded
  refine ⟨⟨r.parent⟩, fun {n} => Does.andThen (record_does (by rw [hw.node, hn]) hr) ?_⟩
  rintro r' w' ⟨rfl, rfl⟩
  exact Does.pure ⟨rfl, rfl⟩

theorem readAt_alike (hw : Keeps total w S) : Alike (fun n => readAt (n := n) s offset count) w :=
  look_alike hs hn hw fun _ hw => ⟨_, read_held hw hs hn⟩

theorem sectorAt_alike (hw : Keeps total w S) : Alike (fun n => sectorAt (n := n) s offset) w := by
  refine withLoaded_alike hs hn hw (fun w hw => ?_) fun w hw => ?_
  · obtain ⟨r, hr⟩ := hw.loaded
    exact find?_alike hw.forest hs (by rw [hw.node, hn]) hr
  · obtain ⟨r, hr⟩ := hw.loaded
    refine (find?_does hw.forest hs (by rw [hw.node, hn]) hr (.inr trivial)).mono ?_
    rintro s? w' ⟨-, rfl⟩
    exact hw.of_live hs hn

omit hs hn

/-! ### Writing -/

theorem writeSpans_alike (hf : Forest w live spare) (hh : h ∈ live) (hn : w.node h = some nd)
    (hl : w.loaded h = some r) :
    Alike (fun n => writeSpans (n := n) h (spans offset count) bytes written) w := by
  fun_induction spans offset count generalizing bytes written w with
  | case1 offset => exact InStep.pure rfl
  | case2 offset count hne size =>
    rename_i ih
    have hsize : size = min count (sectorSize - offset % sectorSize) := rfl
    have hmod := Nat.mod_lt offset (show 0 < sectorSize by decide)
    refine Alike.andThen (find?_alike hf hh hn hl) (find?_does hf hh hn hl (.inr trivial)) ?_
    rintro s? w' ⟨rfl, rfl⟩
    cases hs : w'.data h (offset / sectorSize) with
    | none => exact InStep.pure rfl
    | some s =>
      obtain ⟨p, hleaf, hlink, -⟩ := leaf_of_data hs
      have hrange : offset % sectorSize + (bytes.take size).length ≤ sectorSize := by
        rw [List.length_take]
        omega
      refine Alike.moved (write_does (hf.link_stored hh hlink) hrange) ?_
      exact ih (forest_put_leaf hf hh hlink hleaf) hn hl

theorem publish_alike (hn : w.node s = some nd) (hl : w.loaded s = some r) :
    Alike (fun n => publish (n := n) s stop) w := Alike.of_move (updateRecord_does hn hl rfl)

include hs hn

theorem overwrite_alike (hw : Held total s w S) :
    Alike (fun n => (do
      if offset + bytes.length ≤ (← always (record (n := n) s)).length.toNat then
        always (writeSpans s (spans offset bytes.length) bytes 0)
      else
        bindThrough s (offset + bytes.length)
        let written ← always (writeSpans s (spans offset bytes.length) bytes 0)
        always (publish s (offset + written))
        return written).run) w := by
  obtain ⟨r, hr⟩ := hw.loaded
  have hwn : w.node s = some nd := by rw [hw.node, hn]
  refine InStep.always_bind (Alike.known (record_does hwn hr) ?_)
  by_cases hinside : offset + bytes.length ≤ r.length.toNat
  · simp only [if_pos hinside]
    exact InStep.always (writeSpans_alike hw.forest hs hwn hr)
  · simp only [if_neg hinside]
    refine Alike.bind (bindThrough_alike hw.forest hs hwn hr)
      (bindThrough_tries hw.forest hs hwn hr (.inr trivial)) ?_
    rintro - w₁ ⟨hf₁, hg, -⟩
    obtain ⟨r₁, hr₁⟩ := hg.exists_loaded hr
    have hwn₁ : w₁.node s = some nd := by rw [hg.node, hwn]
    refine InStep.always_bind (Alike.andThen (writeSpans_alike hf₁ hs hwn₁ hr₁)
      (writeSpans_loaded hf₁ hs hwn₁ hr₁ (.inr trivial)) ?_)
    rintro k w₂ ⟨-, -, hwrote⟩
    refine InStep.always_bind (InStep.andThen (publish_alike (by rw [hwrote.node, hwn₁])
      (by rw [hwrote.loaded, hr₁])) fun _ _ _ hmet => InStep.pure hmet)

theorem writeAt_alike (hw : Keeps total w S) :
    Alike (fun n => (writeAt (n := n) s offset bytes).run) w := by
  unfold writeAt
  by_cases hempty : bytes.isEmpty = true
  · simp only [if_pos hempty]
    exact InStep.pure rfl
  simp only [if_neg hempty]
  refine InStep.always_bind (Alike.known (node_does (by rw [hw.node, hn])) ?_)
  dsimp only
  by_cases hdenied : 0 < nd.denials
  · simp only [if_pos hdenied]
    exact InStep.pure rfl
  simp only [if_neg hdenied]
  refine InStep.always_bind (InStep.ofExcept fun stop hstop => ?_)
  obtain ⟨rfl, -⟩ := addOffset_eq_ok_iff.mp hstop
  refine loaded_alike hs hn hw (fun w hw => overwrite_alike hs hn hw) fun w hw => ?_
  refine (overwrite_held hw hs hn (.inr trivial)).mono ?_ ?_
  · rintro k w' ⟨-, hw'⟩
    exact hw'.of_live hs hn
  · rintro why w' ⟨-, -, hw'⟩
    exact hw'.of_live hs hn

theorem grow_alike (hw : Keeps total w S) :
    Alike (fun n => (grow (n := n) s count offset).run) w := by
  refine loaded_alike hs hn hw (fun w hw => ?_) fun w hw => ?_
  · obtain ⟨r, hr⟩ := hw.loaded
    have hwn : w.node s = some nd := by rw [hw.node, hn]
    refine InStep.always_bind (InStep.ofExcept fun stop _ => ?_)
    refine Alike.bind (bindThrough_alike hw.forest hs hwn hr)
      (bindThrough_tries hw.forest hs hwn hr (.inr trivial)) ?_
    rintro - w₁ ⟨-, hg, -⟩
    obtain ⟨r₁, hr₁⟩ := hg.exists_loaded hr
    exact InStep.always (publish_alike (by rw [hg.node, hwn]) hr₁)
  · exact (grow_held hw hs hn (.inr trivial) (.inr trivial)).mono
      (fun _ _ hw' => hw'.of_live hs hn) fun _ _ hw' => hw'.2.of_live hs hn

theorem allocateAt_alike (hw : Keeps total w S) :
    Alike (fun n => (allocateAt (n := n) s offset).run) w := by
  refine loaded_alike hs hn hw (fun w hw => ?_) fun w hw => ?_
  · obtain ⟨r, hr⟩ := hw.loaded
    exact bind_alike hw.forest hs (by rw [hw.node, hn]) hr
  · obtain ⟨r, hr⟩ := hw.loaded
    refine (bind_tries hw.forest hs (by rw [hw.node, hn]) hr (.inr trivial) subset_rfl).mono ?_ ?_
    · rintro t w' ⟨hforest, hg, -⟩
      exact (hw.of_grown hs hforest hg).of_live hs hn
    · rintro why w' hr
      exact (hw.of_grown hs hr.forest hr.grown).of_live hs hn

end Inode
end TieredVolume
