import TieredVolume.Proofs.Inode.Planting

/-!
The making and the end of inodes. A new one takes a sector that was set aside; the last one to close
a removed one gives all its sectors back, and nothing else changes.
-/
namespace TieredVolume

open View

variable {total : Nat} {w w' : View} {live spare : Set Sector} {s : Sector} {nd : Node} {f : File} {length : Nat}
  {parent : Sector} {faults : Fault → Prop} {n : Nat} {S : Shelf}

/-- On a volume of so many sectors, no sector is free beside these inodes and what is set aside. -/
def Crowded (total : Nat) (live spare : Set Sector) : Prop :=
  ∃ w : View, w.total = total ∧ Forest w live spare ∧ w.Full

namespace Inode

open Volume Attempt

/-- What hangs on a loaded file is given back, and its links are cut. -/
theorem cutContents_does {r : Record} (hf : Forest w live spare) (hs : s ∈ live)
    (hn : w.node s = some nd) (hr : w.loaded s = some r) :
    Does Shows faults (do
      releaseLinks (n := n) 0 (← ofExcept ((← record s).links .data))
      updateRecord s Record.cutLinks) w fun _ w' =>
        w' = (w.freeAll (w.contents s)).setLoaded s
          (some { r with index := Vector.replicate 79 Sector.noneRaw }) := by
  have hheader := header_of_loaded hr
  have hdata : r.Is .data := hheader ▸ hf.header s hs
  have hlinks : r.links .data = .ok (w.header s).index.toList := by
    rw [hdata.links, hheader, List.take_of_length_le (by simp [Record.linkCount])]
  refine Does.andThen (record_does hn hr) ?_
  rintro r w ⟨rfl, rfl⟩
  refine Does.bind (Does.ofExcept hlinks ?_)
  refine Does.andThen (releaseContents_links hf hs) ?_
  rintro - w' rfl
  exact updateRecord_does (w := w.freeAll (w.contents s)) hn hr hdata.cutLinks

theorem stored_cut (hf : Forest w live spare) (hs : s ∈ live) :
    (w.freeAll (w.contents s)).Stored s :=
  stored_freeAll.mpr ⟨hf.notMem_contents hs, hf.header_stored hs⟩

/-- What hangs on an inode is given back; its header and its node are still there. -/
theorem releaseContents_does (hw : Keeps total w S) (hs : s ∈ S.live) (hn : S.node s = some nd) :
    Does Shows faults (releaseContents (n := n) s) w fun _ w' =>
      w'.node = w.node ∧ (∀ t, w'.loaded t = none) ∧ Keeps total (w'.setNode s none) (S.uproot s) := by
  unfold releaseContents withLoaded
  refine Does.andThen (load_held hw hs hn) fun _ w₁ hw₁ => ?_
  obtain ⟨r, hr⟩ := hw₁.loaded
  refine Does.andThen (cutContents_does hw₁.forest hs (by rw [hw₁.node, hn]) hr) ?_
  rintro - w₂ rfl
  refine Does.andThen (unload_does (by rw [← hn, ← hw₁.node]; rfl) (Function.update_self ..)
    (stored_cut hw₁.forest hs)) ?_
  rintro - w₃ rfl
  refine Does.pure ⟨hw₁.node.trans hw.node.symm, fun t => ?_,
    hw₁.toHolds.uproot hs rfl (fun h hh hne => ?_) (fun t => stored_freeAll) rfl fun t => ?_⟩
  · by_cases heq : t = s
    · simp only [View.put, View.setLoaded, heq, Function.update_self]
    · simp only [View.put, View.setLoaded, Function.update_of_ne heq, View.freeAll,
        hw₁.unloaded t heq]
  · refine ⟨?_, fun p t ht => ?_⟩
    · simp only [View.header, View.put, View.setLoaded, View.setNode, Function.update_of_ne hne]
      rfl
    · have hne' : t ≠ s := fun heq => by
        subst heq
        exact hne (hw₁.forest.unique h hh t hs (some p) none t ht rfl).1
      simp only [View.put, View.setLoaded, View.setNode, Function.update_of_ne hne']
      rfl
  · by_cases heq : t = s
    · simp only [View.put, View.setLoaded, View.setNode, heq, Function.update_self]
    · simp only [View.put, View.setLoaded, View.setNode, Function.update_of_ne heq, View.freeAll,
        hw₁.unloaded t heq]

/-! ### Setting aside and giving back -/

theorem allocate_stores : Tries (Stores total) faults (allocate (n := n) 1) S
    (fun s S' => s ∉ S.spare ∧ s ∉ S.live ∧ S' = { S with spare := insert s S.spare })
    (fun why S' => why = .noSpace ∧ Crowded total S.live S.spare ∧ S' = S) := by
  refine Tries.lift fun w hw => (allocate_setAside hw.forest).mono ?_ ?_
  · rintro s w' ha
    exact ⟨_, hw.setAside ha, ha.fresh, ha.not_live, rfl⟩
  · rintro why w' ⟨rfl, hfull, rfl⟩
    exact ⟨S, hw, rfl, ⟨w', hw.total, hw.forest, hfull⟩, rfl⟩

theorem release_stores (hs : s ∈ S.spare) : Does (Stores total) faults (release (n := n) s 1) S
    fun _ S' => S' = { S with spare := S.spare \ {s} } := by
  refine Does.lift fun w hw => (release_does (hw.forest.setAside s hs)).mono ?_
  rintro - w' rfl
  exact ⟨_, hw.free hs, rfl⟩

/-! ### Opening and closing -/

theorem open_stores (hs : s ∈ S.live) :
    Does (Stores total) faults («open» (n := n) s) S fun _ S' => S' = S.opened s := by
  refine Does.lift fun w hw => open_does.mono ?_
  rintro - w' rfl
  refine ⟨S.opened s, ?_, rfl⟩
  rw [View.opened, Shelf.opened, hw.node]
  exact hw.setNode hs

theorem node_stores (hn : S.node s = some nd) :
    Does (Stores total) faults (node (n := n) s) S fun nd' S' =>
      nd' = nd ∧ nd.loaded = none ∧ S' = S := by
  refine Does.lift fun w hw =>
    (node_does_of_unloaded (by rw [hw.node, hn]) (hw.unloaded s)).mono ?_
  rintro nd' w' ⟨rfl, hbare, rfl⟩
  exact ⟨S, hw, rfl, hbare, rfl⟩

theorem setNode_stores (hs : s ∈ S.live) (hnd : nd.loaded = none) :
    Does (Stores total) faults (setNode (n := n) s nd) S fun _ S' => S' = S.setNode s (some nd) := by
  refine Does.lift fun w hw => (setNode_does (hw.unloaded s) hnd).mono ?_
  rintro - w' rfl
  exact ⟨_, hw.setNode hs, rfl⟩

theorem updateNode_stores {g : Node → Node} (hs : s ∈ S.live) (hn : S.node s = some nd)
    (hg : nd.loaded = none → (g nd).loaded = none) :
    Does (Stores total) faults (updateNode (n := n) s g) S fun _ S' =>
      S' = S.setNode s (some (g nd)) := by
  refine Does.andThen (node_stores hn) ?_
  rintro nd' S' ⟨rfl, hbare, rfl⟩
  exact setNode_stores hs (hg hbare)

/-- Closing an inode that others have open. -/
theorem close_does_shared (hn : w.node s = some nd) (hl : w.loaded s = none)
    (hmore : 1 < nd.openers) :
    Does Shows faults (close (n := n) s) w fun _ w' =>
      w' = w.setNode s (some { nd with openers := nd.openers - 1 }) := by
  refine Does.andThen (node_does_of_unloaded hn hl) ?_
  rintro nd' w' ⟨rfl, hbare, rfl⟩
  rw [if_pos hmore]
  exact setNode_does hl hbare

/-- The last one to close an inode that was not removed ends its node. -/
theorem close_does_last (hn : w.node s = some nd) (hl : w.loaded s = none)
    (hlast : nd.openers ≤ 1) (hremoved : nd.removed = false) :
    Does Shows faults (close (n := n) s) w fun _ w' => w' = w.setNode s none := by
  refine Does.andThen (node_does_of_unloaded hn hl) ?_
  rintro nd' w' ⟨rfl, -, rfl⟩
  rw [if_neg (by omega), hremoved]
  refine Does.andThen (erase_does hl) ?_
  rintro - w' rfl
  exact Does.pure rfl

theorem close_stores (hs : s ∈ S.live) (hn : S.node s = some nd) :
    Does (Stores total) faults (close (n := n) s) S fun _ S' => S' = S.closed s := by
  refine Does.lift fun w hw => ?_
  have hwn : w.node s = some nd := by rw [hw.node, hn]
  simp only [Shelf.closed, hn]
  by_cases hmore : 1 < nd.openers
  · rw [if_pos hmore]
    refine (close_does_shared hwn (hw.unloaded s) hmore).mono ?_
    rintro - w₁ rfl
    exact ⟨_, hw.setNode hs, rfl⟩
  rw [if_neg hmore]
  cases hremoved : nd.removed with
  | false =>
    refine (close_does_last hwn (hw.unloaded s) (by omega) hremoved).mono ?_
    rintro - w₁ rfl
    exact ⟨_, hw.setNode hs, rfl⟩
  | true =>
    refine Does.andThen (node_does_of_unloaded hwn (hw.unloaded s)) ?_
    rintro nd' w' ⟨rfl, -, rfl⟩
    rw [if_neg hmore, hremoved]
    refine Does.andThen (releaseContents_does hw hs hn) ?_
    rintro - w₁ ⟨-, hl₁, hw₁⟩
    refine Does.andThen (erase_does (hl₁ s)) ?_
    rintro - w₂ rfl
    have hin : s ∈ (S.uproot s).spare := .inl rfl
    refine (release_does (hw₁.forest.setAside s hin)).mono ?_
    rintro - w₃ rfl
    have hout : s ∉ S.spare := fun hsp => hw.forest.sector_ne_of_spare hsp hs none rfl
    have hdrop : { S.uproot s with spare := (S.uproot s).spare \ {s} } = S.drop s := by
      simp only [Shelf.uproot, Shelf.drop, Set.insert_sdiff_self_of_notMem hout]
    exact ⟨S.drop s, hdrop ▸ hw₁.free hin, rfl⟩

/-! ### Making -/

theorem extend_zeros {a b : Nat} (hab : a ≤ b) :
    extend (List.replicate a 0) b = List.replicate b 0 :=
  bytes_ext (by rw [length_extend, List.length_replicate, List.length_replicate]; omega)
    fun i => by rw [getD_extend, getD_zeros, getD_zeros]

/-- What is left of a new inode that could not grow is a sector that was set aside. -/
theorem like_uproot (hs : s ∈ S.spare) (hs' : s ∉ S.live) (hn : S.node s = none) :
    (((S.plant s f).opened s).uproot s).Like S where
  live := Set.insert_sdiff_self_of_notMem hs'
  spare := by
    change insert s (S.spare \ {s}) = S.spare
    rw [Set.insert_sdiff_singleton, Set.insert_eq_of_mem hs]
  node := by
    change Function.update (Function.update S.node s _) s none = S.node
    rw [Function.update_idem, ← hn, Function.update_eq_self]
  file := fun h hh => by
    change Function.update S.file s f h = S.file h
    rw [Function.update_of_ne hh.2]

/-- A new file of one sector grows to its length, or is given up. -/
theorem growNew_tries (hs : s ∈ S.spare) (hs' : s ∉ S.live) (hn : S.node s = none)
    (hmore : sectorSize < length) (hword : length < offsetLimit ∨ faults .overflow)
    (hend : length ≤ maxSectors * sectorSize ∨ faults (.pastIndex maxSectors))
    (hw : Keeps total w ((S.plant s ⟨parent, List.replicate sectorSize 0⟩).opened s)) :
    Tries Shows faults
      (thenAlways (onRefusal (grow (n := n) s length 0) (releaseContents s)) (close s)) w
      (fun _ w' => ∃ S', Keeps total w' S' ∧ S' = S.plant s ⟨parent, List.replicate length 0⟩)
      (fun why w' => ∃ S', Keeps total w' S' ∧ why = .noSpace ∧ S' = S) := by
  obtain ⟨T, hT⟩ : ∃ T, T = (S.plant s ⟨parent, List.replicate sectorSize 0⟩).opened s :=
    ⟨_, rfl⟩
  rw [← hT] at hw
  have hlive : s ∈ T.live := hT ▸ .inl rfl
  have hbytes : T.bytes s = List.replicate sectorSize 0 := by
    simp only [hT, Shelf.bytes, Shelf.opened, Shelf.plant, Shelf.setNode, Function.update_self]
  have hnode : T.node s = some { openers := 1 } := by
    simp only [hT, Shelf.opened, Shelf.plant, Shelf.setNode, Function.update_self, hn,
      Option.getD_none]
  refine Tries.thenAlways (Tries.onRefusal (((grow_tries hlive hnode
    (by rw [Nat.zero_add]; exact hword) (by rw [Nat.zero_add]; exact hend)).lower hw).mono ?_ ?_))
  · rintro - w₁ ⟨-, hw₁, rfl⟩
    refine ((close_stores (S := T.setBytes s _) hlive hnode).lower hw₁).mono ?_
    rintro - w₂ ⟨-, hw₂, rfl⟩
    refine ⟨_, hw₂, ?_⟩
    rw [hbytes, Nat.zero_add, extend_zeros (Nat.le_of_lt hmore), Shelf.closed,
      show (T.setBytes s _).node s = _ from hnode]
    simp only [hT, Shelf.setBytes, Shelf.setFile, Shelf.setNode, Shelf.opened, Shelf.plant,
      Function.update_idem, Function.update_self, ← hn, Function.update_eq_self]
    rfl
  · rintro why w₁ ⟨T, hw₁, rfl, rfl⟩
    refine (releaseContents_does hw₁ hlive hnode).mono ?_
    rintro - w₂ ⟨hnode₂, hl₂, hw₂⟩
    refine (close_does_last (by rw [hnode₂, hw₁.node, hnode]) (hl₂ s) (Nat.le_refl 1) rfl).mono ?_
    rintro - w₃ rfl
    rw [hT] at hw₂
    exact ⟨S, hw₂.like (like_uproot hs hs' hn), rfl, rfl⟩

/-- The header of a new inode is written, and its first sector filled with zeros. -/
theorem head_does {start : Sector} {w₁ : View} (ha : SetAside live spare start w w₁) (hs : s ∈ spare) :
    Does Shows faults (onCache (n := n) do
        Cache.zero start
        store s (Record.data start parent length)) w₁
      fun _ w' => ∃ w₂, SetAside live spare start w w₂ ∧ w₂.block start = Block.zero ∧
        w' = w₂.headed s start parent length := by
  have hstart := ha.forest.setAside start (.inl rfl)
  have hspare := ha.put (b := Block.zero) |>.forest.setAside s (.inr hs)
  rw [onCache_bind]
  refine Does.andThen (zero_does hstart) ?_
  rintro - w₂ rfl
  refine (store_does hspare _).mono ?_
  rintro - w₂ rfl
  exact ⟨_, ha.put, Function.update_self .., rfl⟩

/-- A new header with the first sector of zeros; without a free sector there is none. -/
theorem create_headed {ok : Unit → View → Prop} {refused : Refusal → View → Prop}
    (hf : Forest w live spare) (hs : s ∈ spare)
    (hrest : ∀ start w₁, SetAside live spare start w w₁ → w₁.block start = Block.zero →
      Tries Shows faults (if sectorSize < length then do
          always («open» (n := n) s)
          thenAlways (onRefusal (grow s length 0) (releaseContents s)) (close s)
        else Pure.pure ()) (w₁.headed s start parent (min length sectorSize)) ok refused)
    (hfull : w.Full → refused .noSpace w) :
    Tries Shows faults (create (n := n) s length parent) w ok refused := by
  refine Tries.andThen (allocate_setAside hf) ?_ ?_
  · intro start w₁ ha
    refine Tries.bind (Tries.always ((head_does ha hs).mono ?_))
    rintro - _ ⟨w₂, ha₂, hzero, rfl⟩
    exact hrest start w₂ ha₂ hzero
  · rintro why w₁ ⟨rfl, hall, rfl⟩
    exact hfull hall

/-- The same on the shelf. -/
theorem start_tries {ok : Unit → View → Prop} {refused : Refusal → View → Prop}
    (hw : Keeps total w S) (hs : s ∈ S.spare)
    (hrest : ∀ w₁, Keeps total w₁ (S.plant s ⟨parent, List.replicate (min length sectorSize) 0⟩) →
      Tries Shows faults (if sectorSize < length then do
          always («open» (n := n) s)
          thenAlways (onRefusal (grow s length 0) (releaseContents s)) (close s)
        else Pure.pure ()) w₁ ok refused)
    (hfull : w.Full → refused .noSpace w) :
    Tries Shows faults (create (n := n) s length parent) w ok refused :=
  create_headed hw.forest hs (fun _ _ ha hzero =>
    hrest _ (hw.headed hs ha hzero (Nat.min_le_right length sectorSize))) hfull

/-- A new file is all zeros. A refusal leaves nothing of it; a file of one sector is refused only
if there is none. -/
theorem create_stores (hs : s ∈ S.spare) (hword : length < offsetLimit ∨ faults .overflow)
    (hend : length ≤ maxSectors * sectorSize ∨ faults (.pastIndex maxSectors)) :
    Tries (Stores total) faults (create (n := n) s length parent) S
      (fun _ S' => S' = S.plant s ⟨parent, List.replicate length 0⟩)
      (fun why S' => why = .noSpace ∧ (length ≤ sectorSize → Crowded total S.live S.spare) ∧
        S' = S) := by
  refine Tries.lift fun w hw => start_tries hw hs (fun w₁ hnew => ?_) fun hfull =>
    ⟨S, hw, rfl, fun _ => ⟨w, hw.total, hw.forest, hfull⟩, rfl⟩
  have hn := hw.node_of_spare hs
  have hs' : s ∉ S.live := fun hin => hw.forest.sector_ne_of_spare hs hin none rfl
  by_cases hmore : sectorSize < length
  · rw [if_pos hmore]
    rw [Nat.min_eq_right (by omega)] at hnew
    have hin : s ∈ (S.plant s ⟨parent, List.replicate sectorSize 0⟩).live := .inl rfl
    refine Tries.bind (Tries.always (((open_stores hin).lower hnew).mono ?_))
    rintro - w₃ ⟨-, hw₃, rfl⟩
    refine (growNew_tries hs hs' hn hmore hword hend hw₃).mono (fun _ _ h => h) ?_
    rintro why w₄ ⟨S', hw₄, hwhy, hS'⟩
    exact ⟨S', hw₄, hwhy, fun hshort => absurd hshort (Nat.not_le.mpr hmore), hS'⟩
  · rw [if_neg hmore]
    rw [Nat.min_eq_left (by omega)] at hnew
    exact Tries.pure ⟨_, hnew, rfl⟩

end Inode
end TieredVolume
