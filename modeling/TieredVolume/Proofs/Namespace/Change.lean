import TieredVolume.Proofs.Namespace.Walk

/-!
Creating and removing, told on shelves. A new node gets a fresh inode and adds one leaf to the tree;
removing takes one leaf out, and its inode is gone unless someone still has it open. Between two
such changes the shelf is settled.
-/
namespace TieredVolume

variable {S S' : Shelf} {p q : List String} {s d t : Sector} {b : Bool} {nd : Node}
  {name : String} {bytes : Bytes} {new : Namespace.NewNode}

/-- The bytes that a new node starts with. -/
def Namespace.NewNode.length : Namespace.NewNode → Nat
  | .file size => size
  | .directory => directorySlots * entrySize

def Namespace.NewNode.isDir : Namespace.NewNode → Bool
  | .file _ => false
  | .directory => true

/-- An inode is open as a descriptor, or is someone's working directory. -/
def Shelf.InUse (S : Shelf) (s : Sector) : Prop :=
  ∃ nd, S.node s = some nd ∧ (0 < nd.descriptors ∨ 0 < nd.cwdUsers)

/-- A new node of zeros was created at the place `p`. -/
def Created (S : Shelf) (p : List String) (new : Namespace.NewNode) (S' : Shelf) : Prop :=
  ∃ name q d s bytes, p = name :: q ∧ S.tree q = some (d, true) ∧ S.tree p = none ∧ s ∉ S.live ∧
    Joined (S.bytes d) bytes name (s, new.isDir) ∧
    S' = (S.plant s ⟨d, List.replicate new.length 0⟩).setBytes d bytes

/-- The node at the place `p` was removed, which was a file or a directory without names. -/
def Removed (S : Shelf) (p : List String) (S' : Shelf) : Prop :=
  ∃ name q d t isDir bytes, p = name :: q ∧ S.tree q = some (d, true) ∧
    S.tree p = some (t, isDir) ∧
    (isDir = true → ¬ S.InUse t ∧ ∀ m, S.tree (m :: p) = none) ∧
    Relisted (S.bytes d) bytes name none ∧ S' = (S.setBytes d bytes).removed t

/-! ### Creating -/

theorem Settled.grafted_created (hS : Settled S) (hq : S.tree q = some (d, true))
    (hnone : S.tree (name :: q) = none) (hs : s ∉ S.live)
    (hlist : Joined (S.bytes d) bytes name (s, new.isDir)) :
    Grafted S.file ((S.plant s ⟨d, List.replicate new.length 0⟩).setBytes d bytes).file q d name
      (some (s, new.isDir)) := by
  have hds : d ≠ s := fun heq => hs (heq ▸ hS.linked q d true hq)
  have hfile : ∀ h, h ≠ d → h ≠ s →
      ((S.plant s ⟨d, List.replicate new.length 0⟩).setBytes d bytes).file h = S.file h :=
    fun h hd hs => by
      simp only [Shelf.setBytes, Shelf.setFile, Shelf.plant, Function.update_of_ne hd,
        Function.update_of_ne hs]
  have hdfile : ((S.plant s ⟨d, List.replicate new.length 0⟩).setBytes d bytes).file d =
      { S.file d with bytes } := by
    simp only [Shelf.setBytes, Shelf.setFile, Shelf.plant, Function.update_self,
      Function.update_of_ne hds]
  have hsfile : ((S.plant s ⟨d, List.replicate new.length 0⟩).setBytes d bytes).file s =
      ⟨d, List.replicate new.length 0⟩ := by
    simp only [Shelf.setBytes, Shelf.setFile, Shelf.plant, Function.update_self,
      Function.update_of_ne (Ne.symm hds)]
  have hold : ∀ p h b, S.tree p = some (h, b) → h ≠ s := fun p h b hp heq =>
    hs (heq ▸ hS.linked p h b hp)
  refine ⟨hq, hdfile ▸ hlist.toRelisted, fun m => ?_, fun p h b hp => ?_, fun p h hp hd => ?_, ?_,
    ?_⟩
  · have hnone' : treeOf S.file (name :: q) = none := hnone
    rw [treeOf, hnone']
  · by_cases hd : h = d
    · rw [hd, hdfile]
    · rw [hfile h hd (hold p h b hp)]
  · rw [hfile h hd (hold p h true hp)]
  · rintro s' b' heq
    cases heq
    exact ⟨fun p b' hp => hold p s b' hp rfl, by rw [hsfile]⟩
  · rintro s' heq
    obtain ⟨rfl, hdir⟩ := Prod.mk.inj (Option.some.inj heq)
    cases new with
    | file size => cases hdir
    | directory =>
      rw [hsfile]
      have hzeros := slotsOf_zeros directorySlots
      simp only [Namespace.NewNode.length, hzeros, List.length_replicate]
      exact ⟨Nat.dvd_mul_left _ _, orderly_empty directorySlots⟩

theorem Created.settled (hS : Settled S) (h : Created S p new S') :
    Settled S' ∧ ∃ s, s ∉ S.live ∧ S'.live = insert s S.live ∧
      S'.tree = S.tree.set p (some (s, new.isDir)) := by
  obtain ⟨name, q, d, s, bytes, rfl, hq, hnone, hs, hlist, rfl⟩ := h
  have hg := hS.grafted_created hq hnone hs hlist
  have htree := hg.tree hS.rooted
  refine ⟨⟨hg.rooted hS.rooted, ?_, hS.counted, fun h nd hn => .inr (hS.opened h nd hn),
    fun p h b hp => ?_, fun p h b nd hp hn => ?_, fun p h nd hp hn => ?_, fun h hh => ?_⟩,
    s, hs, rfl, htree⟩
  · change S.spare \ {s} = ∅
    rw [hS.spare, Set.empty_sdiff]
  · rcases hg.cases hS.rooted hp with ⟨-, hfound⟩ | ⟨-, hp⟩
    · cases hfound
      exact .inl rfl
    · exact .inr (hS.linked p h b hp)
  · rcases hg.cases hS.rooted hp with ⟨-, hfound⟩ | ⟨-, hp⟩
    · cases hfound
      exact absurd (hS.opened s nd hn) hs
    · exact hS.standing p h b nd hp hn
  · rcases hg.cases hS.rooted hp with ⟨-, hfound⟩ | ⟨-, hp⟩
    · obtain ⟨rfl, -⟩ := Prod.mk.inj (Option.some.inj hfound)
      exact absurd (hS.opened s nd hn) hs
    · exact hS.writable p h nd hp hn
  · rcases hh with rfl | hh
    · refine .inl ⟨name :: q, new.isDir, ?_⟩
      rw [Shelf.tree, htree, Tree.set, Function.update_self]
    · rcases hS.held h hh with ⟨p, b, hp⟩ | hremoved
      · refine .inl ⟨p, b, ?_⟩
        have hne : p ≠ name :: q := fun heq => by
          rw [heq, hnone] at hp
          cases hp
        rw [Shelf.tree, htree, Tree.set, Function.update_of_ne hne]
        exact hp
      · exact .inr hremoved

/-! ### Removing -/

theorem grafted_removed (hq : S.tree q = some (d, true))
    (hp : S.tree (name :: q) = some (t, b)) (hempty : b = true → ∀ m, S.tree (m :: name :: q) = none)
    (hlist : Relisted (S.bytes d) bytes name none) :
    Grafted S.file ((S.setBytes d bytes).removed t).file q d name none := by
  have hdfile : (S.setBytes d bytes).file d = { S.file d with bytes } := S.file_setBytes_self d bytes
  have hother : ∀ h, h ≠ d → (S.setBytes d bytes).file h = S.file h := fun h hd =>
    Shelf.file_setBytes_of_ne hd
  rw [Shelf.file_removed]
  refine ⟨hq, hdfile ▸ hlist, fun m => ?_, fun p h b hp => ?_, fun p h hp hd => by rw [hother h hd],
    nofun, nofun⟩
  · cases b with
    | true => exact hempty rfl m
    | false =>
      have hp' : treeOf S.file (name :: q) = some (t, false) := hp
      rw [treeOf, hp']
  · by_cases hd : h = d
    · rw [hd, hdfile]
    · rw [hother h hd]

theorem Removed.settled (hS : Settled S) (h : Removed S p S') :
    Settled S' ∧ S'.tree = S.tree.set p none := by
  obtain ⟨name, q, d, t, isDir, bytes, rfl, hq, hp, hdir, hlist, rfl⟩ := h
  have hg := grafted_removed hq hp (fun hd => (hdir hd).2) hlist
  have htree := hg.tree hS.rooted
  have hcases : ∀ p h b, ((S.setBytes d bytes).removed t).tree p = some (h, b) →
      S.tree p = some (h, b) ∧ h ≠ t := fun p' h b hp' => by
    rcases hg.cases hS.rooted hp' with ⟨-, hfound⟩ | ⟨hne, hp'⟩
    · cases hfound
    · exact ⟨hp', fun heq => hne (hS.rooted.unique p' (name :: q) t b isDir (heq ▸ hp') hp)⟩
  have hkeep : ∀ h ∈ S.live, h ≠ t → (∃ p b, ((S.setBytes d bytes).removed t).tree p = some (h, b)) ∨
      ∃ nd, S.node h = some nd ∧ nd.removed = true := fun h hh hne => by
    rcases hS.held h hh with ⟨p', b, hp'⟩ | hremoved
    · refine .inl ⟨p', b, ?_⟩
      have hne' : p' ≠ name :: q := fun heq => by
        rw [heq, hp] at hp'
        exact hne (congrArg Prod.fst (Option.some.inj hp')).symm
      rw [Shelf.tree, htree, Tree.set, Function.update_of_ne hne']
      exact hp'
    · exact .inr hremoved
  have hnode : ∀ h nd, ((S.setBytes d bytes).removed t).node h = some nd →
      h = t ∧ (∃ nd', S.node t = some nd' ∧ nd = { nd' with removed := true }) ∨
        h ≠ t ∧ S.node h = some nd := fun h nd hn => by
    by_cases heq : h = t
    · subst heq
      rw [Shelf.node_removed] at hn
      obtain ⟨nd', hn', rfl⟩ := Option.map_eq_some_iff.mp hn
      exact .inl ⟨rfl, nd', hn', rfl⟩
    · rw [Shelf.node_removed_of_ne heq] at hn
      exact .inr ⟨heq, hn⟩
  refine ⟨⟨hg.rooted hS.rooted, ?_, fun h nd hn => ?_, fun h nd hn => ?_, fun p h b hp => ?_,
    fun p h b nd hp hn => ?_, fun p h nd hp hn => ?_, fun h hh => ?_⟩, htree⟩
  · rw [Shelf.spare_removed]
    exact hS.spare
  · exact hS.counted.removed (S := S.setBytes d bytes) h nd hn
  · rcases hnode h nd hn with ⟨rfl, nd', hn', rfl⟩ | ⟨hne, hn⟩
    · refine Shelf.mem_live_removed.mpr ⟨hS.opened h nd' hn', fun _ hnone => ?_⟩
      exact absurd (hn'.symm.trans hnone) (Option.some_ne_none nd')
    · exact Shelf.mem_live_removed.mpr ⟨hS.opened h nd hn, fun heq => absurd heq hne⟩
  · obtain ⟨hp, hne⟩ := hcases p h b hp
    exact Shelf.mem_live_removed.mpr ⟨hS.linked p h b hp, fun heq => absurd heq hne⟩
  · obtain ⟨hp, hne⟩ := hcases p h b hp
    rw [Shelf.node_removed_of_ne hne] at hn
    exact hS.standing p h b nd hp hn
  · obtain ⟨hp, hne⟩ := hcases p h true hp
    rw [Shelf.node_removed_of_ne hne] at hn
    exact hS.writable p h nd hp hn
  · obtain ⟨hh, hopen⟩ := Shelf.mem_live_removed.mp hh
    by_cases heq : h = t
    · obtain ⟨nd, hn⟩ := Option.ne_none_iff_exists'.mp (hopen heq)
      refine .inr ⟨{ nd with removed := true }, ?_, rfl⟩
      have hn' : (S.setBytes d bytes).node t = some nd := hn
      rw [heq, Shelf.node_removed, hn', Option.map_some]
    · rw [Shelf.node_removed_of_ne heq]
      exact hkeep h hh heq

end TieredVolume
