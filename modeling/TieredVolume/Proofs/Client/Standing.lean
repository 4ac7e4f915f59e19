import Mathlib.Data.List.Count
import TieredVolume.Proofs.Client.Basic

/-!
What holds of a shelf and the handles that are held of it: an inode is open exactly as often as it
is held, a handle of a directory is of one that has a place, and no other handle is of a directory.
Every change that a call makes keeps this.
-/
namespace TieredVolume

variable {S S' : Shelf} {handles : List Handle} {h : Handle} {p : List String} {s : Sector} {b : Bool}
  {nd : Node} {bytes : Bytes} {new : Namespace.NewNode} {m : Mark}

/-! ### Settled shelves -/

/-- Another node for an inode that stays open. -/
theorem Settled.setNode (hS : Settled S) (hs : s ∈ S.live) (hopen : 0 < nd.openers)
    (hremoved : nd.removed = ((S.node s).getD {}).removed)
    (hdenials : ∀ p, S.tree p = some (s, true) → nd.denials = 0) :
    Settled (S.setNode s (some nd)) := by
  have hcases : ∀ h nd', (S.setNode s (some nd)).node h = some nd' →
      h = s ∧ nd' = nd ∨ h ≠ s ∧ S.node h = some nd' := fun h nd' hn => by
    by_cases heq : h = s
    · rw [heq, Shelf.node_setNode_self] at hn
      exact .inl ⟨heq, (Option.some.inj hn).symm⟩
    · rw [Shelf.node_setNode_of_ne heq] at hn
      exact .inr ⟨heq, hn⟩
  refine ⟨hS.rooted, hS.spare, fun h nd' hn => ?_, fun h nd' hn => ?_, hS.linked,
    fun p h b nd' hp hn => ?_, fun p h nd' hp hn => ?_, fun h hh => ?_⟩
  · rcases hcases h nd' hn with ⟨-, rfl⟩ | ⟨-, hn⟩
    · exact hopen
    · exact hS.counted h nd' hn
  · rcases hcases h nd' hn with ⟨rfl, -⟩ | ⟨-, hn⟩
    · exact hs
    · exact hS.opened h nd' hn
  · rcases hcases h nd' hn with ⟨rfl, rfl⟩ | ⟨-, hn⟩
    · rw [hremoved]
      cases hold : S.node h with
      | none => rfl
      | some old => exact hS.standing p h b old hp hold
    · exact hS.standing p h b nd' hp hn
  · rcases hcases h nd' hn with ⟨rfl, rfl⟩ | ⟨-, hn⟩
    · exact hdenials p hp
    · exact hS.writable p h nd' hp hn
  · rcases hS.held h hh with hplace | ⟨old, hold, hgone⟩
    · exact .inl hplace
    · by_cases heq : h = s
      · subst heq
        refine .inr ⟨nd, Shelf.node_setNode_self .., ?_⟩
        rw [hremoved, hold]
        exact hgone
      · exact .inr ⟨old, by rw [Shelf.node_setNode_of_ne heq]; exact hold, hgone⟩

theorem Settled.open (hS : Settled S) (hs : s ∈ S.live) : Settled (S.opened s) := by
  refine hS.setNode hs (Nat.succ_pos _) rfl fun p hp => ?_
  cases hn : S.node s with
  | none => rfl
  | some nd => exact hS.writable p s nd hp hn

/-- The last one to close an inode takes it away if it was removed, and only its node if not. -/
theorem Settled.close (hS : Settled S) (hn : S.node s = some nd) : Settled (S.closed s) := by
  have hs := hS.opened s nd hn
  unfold Shelf.closed
  rw [hn]
  dsimp only
  have hother : ∀ h nd', Function.update S.node s none h = some nd' →
      h ≠ s ∧ S.node h = some nd' := fun h nd' hn' => by
    by_cases heq : h = s
    · rw [heq, Function.update_self] at hn'
      cases hn'
    · rw [Function.update_of_ne heq] at hn'
      exact ⟨heq, hn'⟩
  split
  · refine hS.setNode hs (by simp only; omega) (by rw [hn]; rfl) fun p hp => ?_
    exact hS.writable p s nd hp hn
  · split
    · rename_i hgone
      have hne : ∀ p h b, S.tree p = some (h, b) → h ≠ s := fun p h b hp heq => by
        rw [hS.standing p h b nd hp (heq ▸ hn)] at hgone
        cases hgone
      refine ⟨hS.rooted, hS.spare, fun h nd' hn' => hS.counted h nd' (hother h nd' hn').2,
        fun h nd' hn' => ?_, fun p h b hp => ⟨hS.linked p h b hp, hne p h b hp⟩,
        fun p h b nd' hp hn' => hS.standing p h b nd' hp (hother h nd' hn').2,
        fun p h nd' hp hn' => hS.writable p h nd' hp (hother h nd' hn').2, fun h hh => ?_⟩
      · obtain ⟨hh, hn'⟩ := hother h nd' hn'
        exact ⟨hS.opened h nd' hn', hh⟩
      · rcases hS.held h hh.1 with hplace | ⟨old, hold, hremoved⟩
        · exact .inl hplace
        · refine .inr ⟨old, ?_, hremoved⟩
          exact (Function.update_of_ne hh.2 ..).trans hold
    · rename_i hstays
      refine ⟨hS.rooted, hS.spare, fun h nd' hn' => hS.counted h nd' (hother h nd' hn').2,
        fun h nd' hn' => hS.opened h nd' (hother h nd' hn').2, hS.linked,
        fun p h b nd' hp hn' => hS.standing p h b nd' hp (hother h nd' hn').2,
        fun p h nd' hp hn' => hS.writable p h nd' hp (hother h nd' hn').2, fun h hh => ?_⟩
      rcases hS.held h hh with hplace | ⟨old, hold, hremoved⟩
      · exact .inl hplace
      · refine .inr ⟨old, ?_, hremoved⟩
        have hne : h ≠ s := fun heq => by
          rw [heq, hn] at hold
          exact hstays (Option.some.inj hold ▸ hremoved)
        rw [Shelf.node_setNode_of_ne hne]
        exact hold

/-- The bytes of a file are of no account. -/
theorem Settled.setBytes (hS : Settled S) (bytes : Bytes) (hfile : ∀ p, S.tree p ≠ some (s, true)) :
    Settled (S.setBytes s bytes) ∧ (S.setBytes s bytes).tree = S.tree := by
  have hbytes : ∀ p d, treeOf S.file p = some (d, true) →
      ((S.setBytes s bytes).file d).bytes = (S.file d).bytes := fun p d hp => by
    have hne : d ≠ s := fun heq => hfile p (heq ▸ hp)
    rw [Shelf.file_setBytes_of_ne hne]
  have hparent : ∀ h, ((S.setBytes s bytes).file h).parent = (S.file h).parent := fun h => by
    by_cases heq : h = s
    · rw [heq, Shelf.file_setBytes_self]
    · rw [Shelf.file_setBytes_of_ne heq]
  have htree : (S.setBytes s bytes).tree = S.tree := treeOf_congr hbytes
  refine ⟨⟨hS.rooted.congr hbytes fun p h b _ => hparent h, hS.spare, hS.counted, hS.opened,
    ?_, ?_, ?_, ?_⟩, htree⟩
  · rw [htree]
    exact hS.linked
  · rw [htree]
    exact hS.standing
  · rw [htree]
    exact hS.writable
  · rw [htree]
    exact hS.held

/-! ### Who has an inode open -/

namespace Shelf

/-- How often an inode is open. -/
def openers (S : Shelf) (s : Sector) : Nat := ((S.node s).map (·.openers)).getD 0

theorem openers_of_node (hn : S.node s = some nd) : S.openers s = nd.openers := by
  rw [openers, hn]
  rfl

theorem openers_setNode (S : Shelf) (s t : Sector) (nd? : Option Node) :
    (S.setNode s nd?).openers t = if t = s then (nd?.map (·.openers)).getD 0 else S.openers t := by
  by_cases hts : t = s
  · rw [if_pos hts, hts, openers, node_setNode_self]
  · rw [if_neg hts, openers, node_setNode_of_ne hts, openers]

theorem openers_opened (S : Shelf) (s t : Sector) :
    (S.opened s).openers t = if t = s then S.openers s + 1 else S.openers t := by
  rw [opened, openers_setNode]
  refine if_congr Iff.rfl ?_ rfl
  rw [openers]
  cases S.node s <;> rfl

theorem openers_closed (hn : S.node s = some nd) (t : Sector) :
    (S.closed s).openers t = if t = s then S.openers s - 1 else S.openers t := by
  rw [openers_of_node hn]
  unfold closed
  rw [hn]
  dsimp only
  split
  · exact openers_setNode ..
  · have hlast : nd.openers - 1 = 0 := by omega
    rw [hlast]
    split
    · exact openers_setNode S s t none
    · exact openers_setNode S s t none

theorem openers_removed (S : Shelf) (s t : Sector) : (S.removed s).openers t = S.openers t := by
  by_cases hts : t = s
  · rw [hts, openers, openers, node_removed]
    cases S.node s <;> rfl
  · rw [openers, openers, node_removed_of_ne hts]

end Shelf

/-! ### Handles -/

/-- A settled shelf and the handles that are held of it. -/
structure Stands (S : Shelf) (handles : List Handle) : Prop extends Settled S where
  openers : ∀ s, S.openers s = handles.countP (·.sector = s)
  directory : ∀ h ∈ handles, h.isDir = true → ∃ p, S.tree p = some (h.sector, true)
  file : ∀ h ∈ handles, h.isDir = false → ∀ p, S.tree p ≠ some (h.sector, true)

namespace Stands

variable (hS : Stands S handles)

include hS

theorem exists_node (hh : h ∈ handles) : ∃ nd, S.node h.sector = some nd := by
  have hpos : 0 < S.openers h.sector := by
    rw [hS.openers]
    exact List.countP_pos_iff.mpr ⟨h, hh, decide_eq_true rfl⟩
  cases hn : S.node h.sector with
  | some nd => exact ⟨nd, rfl⟩
  | none =>
    rw [Shelf.openers, hn] at hpos
    cases hpos

theorem live (hh : h ∈ handles) : h.sector ∈ S.live := by
  obtain ⟨nd, hn⟩ := hS.exists_node hh
  exact hS.opened h.sector nd hn

/-- One more handle of what is at a place, or of what is held already. -/
theorem opens (hs : h.sector ∈ S.live)
    (hdir : h.isDir = true → ∃ p, S.tree p = some (h.sector, true))
    (hfile : h.isDir = false → ∀ p, S.tree p ≠ some (h.sector, true)) :
    Stands (S.opened h.sector) (h :: handles) where
  toSettled := hS.toSettled.open hs
  openers := fun s => by
    rw [Shelf.openers_opened, List.countP_cons, hS.openers, hS.openers]
    by_cases heq : s = h.sector
    · subst heq
      simp
    · simp [heq, Ne.symm heq]
  directory := fun h' hh' hdir' => by
    rcases List.mem_cons.mp hh' with rfl | hh'
    · exact hdir hdir'
    · exact hS.directory h' hh' hdir'
  file := fun h' hh' hfile' => by
    rcases List.mem_cons.mp hh' with rfl | hh'
    · exact hfile hfile'
    · exact hS.file h' hh' hfile'

theorem opens_place (hp : S.tree p = some (s, b)) : Stands (S.opened s) (⟨s, b, 0⟩ :: handles) := by
  refine hS.opens (h := ⟨s, b, 0⟩) (hS.linked p s b hp) (fun hdir => ⟨p, ?_⟩) fun hfile q hq => ?_
  · rw [hp]
    exact congrArg (fun b => some (s, b)) hdir
  · obtain rfl := hS.rooted.unique p q s b true hp hq
    rw [hp] at hq
    have hb : b = true := congrArg Prod.snd (Option.some.inj hq)
    exact Bool.false_ne_true (hfile.symm.trans hb)

theorem clones (hh : h ∈ handles) :
    Stands (S.opened h.sector) ({ h with cursor := 0 } :: handles) := by
  have hs := hS.live hh
  exact hS.opens (h := { h with cursor := 0 }) hs (hS.directory h hh) (hS.file h hh)

theorem closes (hh : h ∈ handles) : Stands (S.closed h.sector) (handles.erase h) := by
  obtain ⟨nd, hn⟩ := hS.exists_node hh
  have htree : (S.closed h.sector).tree = S.tree := by
    rw [Shelf.tree, Shelf.file_closed, Shelf.tree]
  refine ⟨hS.toSettled.close hn, fun s => ?_, fun h' hh' hdir => ?_, fun h' hh' hfile => ?_⟩
  · rw [Shelf.openers_closed hn, List.countP_erase, hS.openers, hS.openers]
    by_cases heq : s = h.sector
    · subst heq
      simp [hh]
    · simp [heq, Ne.symm heq]
  · rw [htree]
    exact hS.directory h' (List.mem_of_mem_erase hh') hdir
  · rw [htree]
    exact hS.file h' (List.mem_of_mem_erase hh') hfile

/-- The handles of the same inodes, with other cursors. -/
theorem reads (hh : h ∈ handles) (cursor : Nat) :
    Stands S ({ h with cursor } :: handles.erase h) := by
  refine ⟨hS.toSettled, fun s => ?_, fun h' hh' hdir => ?_, fun h' hh' hfile => ?_⟩
  · rw [hS.openers, List.countP_cons, List.countP_erase]
    by_cases heq : s = h.sector
    · subst heq
      have hpos : 0 < handles.countP (·.sector = h.sector) :=
        List.countP_pos_iff.mpr ⟨h, hh, decide_eq_true rfl⟩
      simp [hh]
      omega
    · simp [Ne.symm heq]
  · rcases List.mem_cons.mp hh' with rfl | hh'
    · exact hS.directory h hh hdir
    · exact hS.directory h' (List.mem_of_mem_erase hh') hdir
  · rcases List.mem_cons.mp hh' with rfl | hh'
    · exact hS.file h hh hfile
    · exact hS.file h' (List.mem_of_mem_erase hh') hfile

theorem marks (hh : h ∈ handles) (hsuits : m.Suits h) (hn : S.node h.sector = some nd) :
    Stands (S.setNode h.sector (some (m.apply nd))) handles := by
  have hopeners : (m.apply nd).openers = nd.openers := by cases m <;> rfl
  have hremoved : (m.apply nd).removed = nd.removed := by cases m <;> rfl
  refine ⟨hS.toSettled.setNode (hS.live hh) (hopeners ▸ hS.counted _ nd hn)
    (by rw [hn]; exact hremoved) fun p hp => ?_, fun s => ?_, hS.directory, hS.file⟩
  · have hdenials := hS.writable p h.sector nd hp hn
    have hdir : h.isDir ≠ false := fun hfile => hS.file h hh hfile p hp
    cases m with
    | denyWrite => exact absurd hsuits hdir
    | allowWrite => exact absurd hsuits hdir
    | attach | detach | enterCwd | leaveCwd => exact hdenials
  · rw [Shelf.openers_setNode, ← hS.openers]
    split
    · rename_i heq
      rw [heq, Shelf.openers_of_node hn]
      exact hopeners
    · rfl

theorem writes (hh : h ∈ handles) (hfile : h.isDir = false) :
    Stands (S.setBytes h.sector bytes) handles := by
  obtain ⟨hsettled, htree⟩ := hS.toSettled.setBytes bytes (hS.file h hh hfile)
  refine ⟨hsettled, hS.openers, ?_, ?_⟩
  · rw [htree]
    exact hS.directory
  · rw [htree]
    exact hS.file

theorem creates (hmade : Created S p new S') : Stands S' handles := by
  obtain ⟨hsettled, s, hs, -, htree⟩ := hmade.settled hS.toSettled
  obtain ⟨name, q, d, t, bytes, rfl, hq, hnone, -, -, rfl⟩ := hmade
  refine ⟨hsettled, hS.openers, fun h hh hdir => ?_, fun h hh hfile p hp => ?_⟩
  · obtain ⟨p, hp⟩ := hS.directory h hh hdir
    have hne : p ≠ name :: q := fun heq => by
      rw [heq, hnone] at hp
      cases hp
    exact ⟨p, by rw [htree, Tree.set, Function.update_of_ne hne, hp]⟩
  · rw [htree, Tree.set] at hp
    by_cases heq : p = name :: q
    · rw [heq, Function.update_self] at hp
      have hsector : s = h.sector := congrArg Prod.fst (Option.some.inj hp)
      exact hs (hsector ▸ hS.live hh)
    · rw [Function.update_of_ne heq] at hp
      exact hS.file h hh hfile p hp

/-- A directory that is held is not removed, since it is in use. -/
theorem removes (hgone : Removed S p S')
    (huse : ∀ h ∈ handles, S.tree p = some (h.sector, true) → S.InUse h.sector) :
    Stands S' handles := by
  obtain ⟨hsettled, htree⟩ := hgone.settled hS.toSettled
  obtain ⟨name, q, d, t, isDir, bytes, rfl, hq, hp, hfree, -, rfl⟩ := hgone
  refine ⟨hsettled, fun s => ?_, fun h hh hdir => ?_, fun h hh hfile p' hp' => ?_⟩
  · rw [Shelf.openers_removed]
    exact hS.openers s
  · obtain ⟨p', hp'⟩ := hS.directory h hh hdir
    have hne : p' ≠ name :: q := fun heq => by
      rw [heq, hp] at hp'
      obtain ⟨rfl, hisDir⟩ := Prod.mk.inj (Option.some.inj hp')
      exact (hfree hisDir).1 (huse h hh (hisDir ▸ hp))
    exact ⟨p', by rw [htree, Tree.set, Function.update_of_ne hne, hp']⟩
  · rw [htree, Tree.set] at hp'
    by_cases heq : p' = name :: q
    · rw [heq, Function.update_self] at hp'
      cases hp'
    · rw [Function.update_of_ne heq] at hp'
      exact hS.file h hh hfile p' hp'

end Stands

end TieredVolume
