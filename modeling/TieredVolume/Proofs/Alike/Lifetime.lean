import TieredVolume.Proofs.Alike.Files
import TieredVolume.Proofs.Inode.Lifetime

/-!
The making and the end of inodes, twice over. The header of a new inode may hold anything in either
run until it is made; if it is made, nothing of that is left.
-/
namespace TieredVolume

open View

variable {total : Nat} {w w' w₂ : View} {s t parent : Sector} {nd : Node} {length : Nat} {b c : Block}
  {S : Shelf}

namespace Inode

open Volume Attempt

/-! ### Opening and closing -/

theorem open_alike : Alike (fun n => «open» (n := n) s) w := Alike.of_move open_does

theorem releaseContents_alike (hw : Keeps total w S) (hs : s ∈ S.live) (hn : S.node s = some nd) :
    Alike (fun n => releaseContents (n := n) s) w := by
  refine withLoaded_alike hs hn hw (fun w hw => ?_) fun w hw => ?_
  · obtain ⟨r, hr⟩ := hw.loaded
    exact Alike.of_move (cutContents_does hw.forest hs (by rw [hw.node, hn]) hr)
  · obtain ⟨r, hr⟩ := hw.loaded
    refine (cutContents_does hw.forest hs (by rw [hw.node, hn]) hr).mono ?_
    rintro - w' rfl
    exact ⟨⟨nd, by rw [← hn, ← hw.node]; rfl⟩, ⟨_, Function.update_self ..⟩, stored_cut hw.forest hs⟩

theorem close_alike (hw : Keeps total w S) (hs : s ∈ S.live) (hn : S.node s = some nd) :
    Alike (fun n => close (n := n) s) w := by
  have hwn : w.node s = some nd := by rw [hw.node, hn]
  by_cases hmore : 1 < nd.openers
  · exact Alike.of_move (close_does_shared hwn (hw.unloaded s) hmore)
  cases hremoved : nd.removed with
  | false => exact Alike.of_move (close_does_last hwn (hw.unloaded s) (by omega) hremoved)
  | true =>
    unfold close
    refine Alike.known (node_does hwn) ?_
    simp only [if_neg hmore, hremoved, if_true]
    refine Alike.andThen (releaseContents_alike hw hs hn) (releaseContents_does hw hs hn) ?_
    rintro - w₁ ⟨-, hl₁, hw₁⟩
    refine Alike.moved (erase_does (hl₁ s)) ?_
    exact Alike.of_move (release_does (hw₁.forest.setAside s (.inl rfl)))

/-! ### Making -/

/-- A new file grows to its length, or is given up. -/
theorem growNew_alike (hw : Keeps total w S) (hs : s ∈ S.live) (hn : S.node s = some { openers := 1 }) :
    Alike (fun n => (thenAlways (onRefusal (grow (n := n) s length 0) (releaseContents s))
      (close s)).run) w := by
  have hclose : ∀ w' : View, w'.node s = some { openers := 1 } ∧ w'.loaded s = none →
      Alike (fun n => close (n := n) s) w' := fun w' hw' =>
    Alike.of_move (close_does_last hw'.1 hw'.2 (Nat.le_refl 1) rfl)
  have hgrow : ∀ {n}, Tries Shows anyFault (grow (n := n) s length 0) w _ _ :=
    (grow_tries hs hn (.inr trivial) (.inr trivial)).lower hw
  refine Alike.thenAlways (Alike.onRefusal (grow_alike hs hn hw) hgrow ?_) (Tries.onRefusal
    (hgrow.mono ?_ ?_)) (fun _ => hclose) (fun _ => hclose)
  · rintro why w₁ ⟨_, hw₁, -, rfl⟩
    exact releaseContents_alike hw₁ hs hn
  · rintro - w₁ ⟨-, hw₁, rfl⟩
    exact ⟨by rw [hw₁.node]; exact hn, hw₁.unloaded s⟩
  · rintro why w₁ ⟨_, hw₁, -, rfl⟩
    refine (releaseContents_does hw₁ hs hn).mono ?_
    rintro - w₂ ⟨hnode, hl, -⟩
    exact ⟨by rw [hnode, hw₁.node, hn], hl s⟩

/-- The first sector of a new file and its header are written. -/
theorem writeNew_does {n : Nat} {record : Record} (ht : w.Stored t) (hs : w.Stored s) :
    Does Shows never (onCache (n := n) do
      Cache.zero t
      store s record) w fun _ w' => w' = (w.put t Block.zero).put s record.toBlock := by
  rw [onCache_bind]
  refine Does.andThen (zero_does ht) ?_
  rintro - w' rfl
  exact store_does (w := w.put t Block.zero) hs record

/-- After that it makes no difference what they held. -/
theorem put_put_take {c₂ : Block} (hts : t ≠ s) (x y : Block) :
    (((w.put s b).take t c₂).put t x).put s y = ((w.take t c).put t x).put s y := by
  simp only [View.put, View.take, Function.update_idem, View.mk.injEq, true_and, and_true]
  rw [Function.update_comm hts, Function.update_idem, Function.update_comm hts]

/-- A new inode whose header holds different bytes before. A refused creation either has not
touched the header or has written it in both runs. -/
theorem create_inStep (hw : Keeps total w S) (hs : s ∈ S.spare) :
    InStep (fun n => (create (n := n) s length parent).run) w (w.put s b) fun
      | .ok _, w', w₂' => w' = w₂'
      | .error _, w', w₂' => w' = w₂' ∧ w'.Stored s ∨ w' = w ∧ w₂' = w.put s b := by
  have hstored := hw.forest.setAside s hs
  have hn := hw.node_of_spare hs
  have hs' : s ∉ S.live := fun hin => hw.forest.sector_ne_of_spare hs hin none rfl
  refine InStep.bind (allocate_inStep rfl rfl) ?_ fun _ _ _ => .inr
  rintro start _ _ ⟨hlt, hlimit, hfree, hmap, c, c₂, rfl, rfl⟩
  have hne : start ≠ s := fun heq => by
    rw [heq, hstored.1] at hfree
    cases hfree
  have hset := (setAside_take (b := c) hw.forest hlt hlimit hfree hmap).put (b := Block.zero)
  have hnew : Keeps total (View.headed _ s start parent (min length sectorSize))
      (S.plant s ⟨parent, List.replicate (min length sectorSize) 0⟩) :=
    hw.headed hs hset (Function.update_self ..) (Nat.min_le_right length sectorSize)
  refine InStep.always_bind (InStep.moved (writeNew_does (stored_take hmap) (hstored.take start))
    (writeNew_does (stored_take hmap) (View.Stored.take (w := w.put s b) hstored start))
    (put_put_take hne _ _) ?_)
  by_cases hmore : sectorSize < length
  · simp only [if_pos hmore]
    rw [Nat.min_eq_right (Nat.le_of_lt hmore)] at hnew ⊢
    have hlive : s ∈ (S.plant s ⟨parent, List.replicate sectorSize 0⟩).live := .inl rfl
    refine InStep.always_bind (Alike.andThen open_alike ((open_stores hlive).lower hnew) ?_)
    rintro - w₁ ⟨_, hw₁, rfl⟩
    refine ((growNew_alike hw₁ hlive ?_).also
      (growNew_tries hs hs' hn hmore (.inr trivial) (.inr trivial) hw₁)).mono ?_
    · simp only [Shelf.opened, Shelf.plant, Shelf.setNode, Function.update_self, hn, Option.getD_none]
    · rintro (why | ⟨⟩) w' w₂' ⟨rfl, hpost⟩
      · obtain ⟨_, hw', -, rfl⟩ := hpost
        exact .inl ⟨rfl, hw'.forest.setAside s hs⟩
      · rfl
  · simp only [if_neg hmore]
    exact InStep.pure rfl

end Inode
end TieredVolume
