import TieredVolume.Namespace.Directory
import TieredVolume.Proofs.Inode.Footprint
import TieredVolume.Proofs.Inode.Raised

/-!
The making of an inode is all or nothing. Of whatever length it is to be, and wherever the sectors
run out, there is either a new inode of zeros whose sectors were free before, or all that was taken
for it is given back. Even a length that no index reaches is refused and nothing worse, if the
sectors run out before the index does.
-/
namespace TieredVolume

open View

variable {w w' w₁ w₂ : View} {live spare : Set Sector} {places : Finset Place} {h s t start parent : Sector} {nd : Node}
  {a b k first length offset count : Nat} {faults : Fault → Prop} {n : Nat}

/-! ### Running out of sectors -/

/-- The byte `stop` is within reach of the index, or fewer sectors are free than are missing on the
way there. -/
def View.Within (w : View) (h : Sector) (stop : Nat) : Prop :=
  stop ≤ maxSectors * sectorSize ∨ w.vacant.ncard < (w.missing h (w.ahead h stop)).card

/-- No places lie past the reach of the index. -/
theorem ways_of_le (hk : maxSectors ≤ k) : ways first k = ways first maxSectors := by
  refine (ways_mono (Nat.le_refl _) hk).antisymm' fun p hp => ?_
  obtain ⟨l, hl, hp⟩ := Finset.mem_biUnion.mp hp
  obtain ⟨hle, -⟩ := Finset.mem_Ico.mp hl
  by_cases hin : l < maxSectors
  · exact wayTo_subset_ways hle hin hp
  · rw [wayTo, IndexPath.locate?_eq_none_iff.mpr (Nat.not_lt.mp hin)] at hp
    exact absurd hp (Finset.notMem_empty p)

theorem Attempt.bind_assoc {α β γ : Type} (x : Attempt n α) (f : α → Attempt n β)
    (g : β → Attempt n γ) : x >>= f >>= g = x >>= fun a => f a >>= g := by
  refine congrArg Attempt.mk (funext fun v => ?_)
  simp only [Bind.bind, EStateM.bind]
  cases x.run v with
  | error e v' => rfl
  | ok answer v' =>
    cases answer with
    | error why => rfl
    | ok a => rfl

namespace Inode

open Volume Attempt

/-- A range is bound one part after the other. -/
theorem bindRange_add : bindRange (n := n) s first (a + b) =
    bindRange s first a >>= fun _ => bindRange s (first + a) b := by
  induction a generalizing first with
  | zero =>
    rw [Nat.zero_add]
    rfl
  | succ a ih =>
    have hsum : first + 1 + a = first + (a + 1) := by omega
    rw [Nat.succ_add, bindRange, bindRange, Attempt.bind_assoc, ← hsum]
    exact congrArg _ (funext fun _ => ih)

section Loaded

variable {r : Record} {stop : Nat} (hf : Forest w live spare)
  (hh : h ∈ live) (hn : w.node h = some nd) (hr : w.loaded h = some r)

include hf hh hn hr

/-- Where the sectors run out first, the index is not left. -/
theorem bindThrough_short (hfar : maxSectors * sectorSize < stop)
    (hshort : w.vacant.ncard < (w.missing h (w.ahead h stop)).card) :
    Tries Shows faults (bindThrough (n := n) h stop) w (fun _ _ => False)
      (Refused live spare (w.ahead h stop) h w) := by
  have hlast : maxSectors ≤ Record.dataSectors stop := by
    simp only [Record.dataSectors, sectorSize, maxSectors] at *
    omega
  refine Tries.bind (Tries.always ((record_does hn hr).mono ?_))
  rintro r' w' ⟨rfl, rfl⟩
  have hsize : Record.dataSectors r'.length.toNat = Record.dataSectors (w'.size h) := by
    rw [View.size, header_of_loaded hr]
  have hahead : w'.ahead h stop = ways (Record.dataSectors r'.length.toNat) maxSectors := by
    rw [View.ahead, hsize, ways_of_le hlast]
  have hfirst : Record.dataSectors r'.length.toNat ≤ maxSectors := by
    by_contra hover
    rw [hahead, ways, Finset.Ico_eq_empty (by omega), Finset.biUnion_empty] at hshort
    exact absurd hshort (Nat.not_lt_zero _)
  have hcount : Record.dataSectors stop - Record.dataSectors r'.length.toNat =
      maxSectors - Record.dataSectors r'.length.toNat + (Record.dataSectors stop - maxSectors) := by
    omega
  dsimp only
  rw [hcount, bindRange_add]
  refine Tries.andThen (bindRange_tries hf hh hn hr (.inl fun l _ hlt => by omega)
    fun l hle hlt => ?_) ?_ fun _ _ => id
  · rw [hahead]
    exact wayTo_subset_ways hle (by omega)
  · -- what is bound up to the reach of the index would have cost more than there was
    rintro - w₁ ⟨-, -, hbound, hpaid⟩
    have hnone : w₁.missing h (w'.ahead h stop) = ∅ := Finset.filter_eq_empty_iff.mpr fun p hp =>
      link_of_mem_ways (fun l hle hlt => hbound l hle (by omega)) (hahead ▸ hp)
    have hpaid := hpaid.count
    rw [hnone, Finset.card_empty] at hpaid
    omega

theorem grow_loaded_within (hword : offset + count < offsetLimit)
    (hstop : w.Within h (offset + count)) :
    Tries Shows faults (do
      let stop ← always (ofExcept (addOffset offset count))
      bindThrough (n := n) h stop
      always (publish h stop)) w
      (fun _ w' => Overlaid live spare h (offset + count) [] 0 w w')
      (Refused live spare (w.ahead h (offset + count)) h w) := by
  by_cases hend : offset + count ≤ maxSectors * sectorSize
  · exact grow_loaded hf hh hn hr (.inl hword) (.inl hend)
  · refine Tries.bind (Tries.always (addOffset_does (.inl hword) ?_))
    exact Tries.andThen (bindThrough_short hf hh hn hr (Nat.not_le.mp hend)
      (hstop.resolve_left hend)) (fun _ _ => False.elim) fun _ _ => id

end Loaded

theorem within_setNode {stop : Nat} (hstop : w.Within h stop) (node : Option Node) :
    (w.setNode h node).Within h stop := by
  have hk : Kept w (w.setNode h node) h := kept_setNode w node
  rw [View.Within, View.ahead, hk.size, missing_congr hk.link]
  exact hstop

theorem within_load {stop : Nat} (hw : w.AtRest h nd) (hstop : w.Within h stop) :
    (w.load h).Within h stop := by
  have hlink := (kept_load hw.unloaded).link
  rw [View.Within, ahead_load hw.unloaded, missing_congr hlink]
  exact hstop

/-- Growth binds what is missing up to the new end, or is refused. -/
theorem grow_within (hw : w.AtRest h nd) (hword : offset + count < offsetLimit)
    (hstop : w.Within h (offset + count)) :
    Tries Shows faults (grow (n := n) h count offset) w
      (fun _ w' => Rewritten h (offset + count) [] 0 w w')
      (Exhausted (w.ahead h (offset + count)) h w) := by
  have hload := hw.load
  obtain ⟨r, hr⟩ := hload.loaded
  exact reaching_atRest hw (grow_loaded_within hload.forest rfl hload.node hr hword
    (within_load hw hstop))

end Inode

/-! ### What was taken for an inode -/

/-- Beside what was in use, nothing is in use but what hangs on the inode `s`, all of which was
free. -/
structure Acquired (s : Sector) (w w' : View) : Prop where
  total : w'.total = w.total
  stored : ∀ t, w'.Stored t ↔ w.Stored t ∨ t ∈ w'.contents s
  fresh : ∀ t ∈ w'.contents s, ¬ w.Stored t

namespace Acquired

/-- A header, and the sector that was taken for it. -/
theorem headed (ha : SetAside ∅ {t | w.Stored t} start w w₁) (hl : w.loaded s = none) :
    Acquired s w (w₁.headed s start parent length) := by
  have hmem : ∀ t, t ∈ (w₁.headed s start parent length).contents s ↔ t = start := fun t => by
    rw [View.mem_contents]
    simp only [link_headed ((congrFun ha.loaded s).trans hl) ha.raw]
    exact ⟨fun ⟨_, _, ht⟩ => ht, fun ht => ⟨.first, rfl, ht⟩⟩
  refine ⟨ha.total, fun t => ?_, fun t ht => (hmem t).mp ht ▸ ha.fresh⟩
  have hstart := (ha.forest.setAside start (.inl rfl)).2
  rw [ha.total] at hstart
  change w₁.Stored t ↔ _
  rw [hmem, View.Stored, View.Stored, ha.total, ha.used]
  by_cases ht : t = start
  · simp [ht, hstart]
  · simp [ht]

/-- What the inode takes later was free before as well. -/
theorem grow (hq : Acquired s w w₁) (hs : w.Stored s) (hf : Forest w₂ {s} (w₁.beside s))
    (htotal : w₂.total = w₁.total) (hused : ∀ t, w₁.used t = true → w₂.used t = true)
    (hlink : ∀ p t, w₁.link s p = some t → w₂.link s p = some t) : Acquired s w w₂ := by
  have hkept : ∀ t, w₁.Stored t → w₂.Stored t := fun t ht => ⟨hused t ht.1, htotal ▸ ht.2⟩
  have hmore : ∀ t, t ∈ w₁.contents s → t ∈ w₂.contents s := fun t ht => by
    obtain ⟨p, hp⟩ := View.mem_contents.mp ht
    exact View.mem_contents.mpr ⟨p, hlink p t hp⟩
  refine ⟨htotal.trans hq.total, fun t => ⟨fun ht => ?_, ?_⟩, fun t ht hold => ?_⟩
  · rcases hf.owned t ht with hbeside | ⟨h, rfl, q, hsector⟩
    · exact ((hq.stored t).mp hbeside.1).imp_right (hmore t)
    · cases q with
      | none => exact .inl (Option.some.inj hsector ▸ hs)
      | some p => exact .inr (View.mem_contents.mpr ⟨p, hsector⟩)
  · rintro (hold | ht)
    · exact hkept t ((hq.stored t).mpr (.inl hold))
    · obtain ⟨p, hp⟩ := View.mem_contents.mp ht
      exact hf.link_stored rfl hp
  · -- a sector that was in use is no other place's, so it would be beside the inode
    obtain ⟨p, hp⟩ := View.mem_contents.mp ht
    refine (hf.stored s rfl (some p) t hp).2 ⟨(hq.stored t).mpr (.inl hold), fun q hsector => ?_⟩
    cases q with
    | none => exact hf.notMem_contents rfl (Option.some.inj hsector ▸ ht)
    | some q => exact hq.fresh t (View.mem_contents.mpr ⟨q, hsector⟩) hold

theorem setNode (hq : Acquired s w w₁) (node : Option Node) :
    Acquired s w (w₁.setNode s node) := ⟨hq.total, hq.stored, hq.fresh⟩

/-- Once it is given back, all is free that was free before. -/
theorem stored_of_gaveBack (hq : Acquired s w w₁) (hg : GaveBack (w₁.contents s) s w₁ w₂) (t : Sector) :
    w₂.Stored t ↔ w.Stored t := by
  have hiff : w₂.Stored t ↔ w₁.Stored t ∧ t ∉ w₁.contents s := by
    rw [View.Stored, View.Stored, hg.used, hg.total]
    tauto
  rw [hiff, hq.stored]
  constructor
  · rintro ⟨hold | ht, hnot⟩
    · exact hold
    · exact absurd ht hnot
  · exact fun hold => ⟨.inl hold, fun ht => hq.fresh t ht hold⟩

end Acquired

/-! ### A new inode -/

theorem dataSectors_maxSectors : Record.dataSectors (maxSectors * sectorSize) = maxSectors := by
  simp only [Record.dataSectors, sectorSize, maxSectors]

/-- The first sector of a file hangs on the first link of its header. -/
theorem wayTo_zero : wayTo 0 = {.first} := by decide

/-- Where only the first link is set, all other places are missing. -/
theorem ways_subset_missing (hlink : ∀ p b, w.link s p = some b → p = .first) (k : Nat) :
    ways 0 k ⊆ insert .first (w.missing s (ways 1 k)) := fun p hp => by
  obtain ⟨l, hin, hway⟩ := Finset.mem_biUnion.mp hp
  rw [Finset.mem_insert]
  by_cases hzero : l = 0
  · rw [hzero, wayTo_zero, Finset.mem_singleton] at hway
    exact .inl hway
  cases hb : w.link s p with
  | some b => exact .inl (hlink p b hb)
  | none =>
    have hlt := (Finset.mem_Ico.mp hin).2
    exact .inr (Finset.mem_filter.mpr ⟨wayTo_subset_ways (by omega) hlt hway, hb⟩)

/-- Without enough free sectors for all that the index reaches, a new file of one sector does not
leave the index as it grows. -/
theorem within_headed (ha : SetAside live spare start w w₁) (hl : w.loaded s = none)
    (hsize : (w₁.headed s start parent k).size s = sectorSize)
    (hreach : length ≤ maxSectors * sectorSize ∨
      w.vacant.ncard < treeSize (maxSectors * sectorSize)) :
    (w₁.headed s start parent k).Within s length := by
  by_cases hend : length ≤ maxSectors * sectorSize
  · exact .inl hend
  refine .inr ?_
  have hshort := hreach.resolve_left hend
  have hvacant : (w₁.headed s start parent k).vacant.ncard + 1 = w.vacant.ncard :=
    ncard_vacant_of_used ha.total ha.used ha.lt ha.free
  have hlast : maxSectors ≤ Record.dataSectors length := by
    simp only [Record.dataSectors, sectorSize, maxSectors] at *
    omega
  have hone : Record.dataSectors sectorSize = 1 := by decide
  have hahead : (w₁.headed s start parent k).ahead s length = ways 1 maxSectors := by
    rw [View.ahead, hsize, ways_of_le hlast, hone]
  have hlink : ∀ p b, (w₁.headed s start parent k).link s p = some b → p = .first := fun p b hb =>
    ((link_headed ((congrFun ha.loaded s).trans hl) ha.raw).mp hb).1
  have hcard := (Finset.card_le_card (ways_subset_missing hlink maxSectors)).trans
    (Finset.card_insert_le ..)
  rw [treeSize, dataSectors_maxSectors, Nat.max_eq_right (by decide)] at hshort
  rw [hahead]
  omega

/-- A file of zeros that grows is a longer file of zeros. -/
theorem Inode.GrewTo.file (hg : Inode.GrewTo s length w w') (hw : Whole w s)
    (hfile : w.file s = ⟨parent, List.replicate k 0⟩) (hle : k ≤ length) :
    w'.file s = ⟨parent, List.replicate length 0⟩ := by
  have hwhole := hg.whole hw
  obtain ⟨w₁, ho, rfl⟩ := hg
  have hold : w.size s = k := by
    rw [← length_file, hfile, List.length_replicate]
  have hzero : ∀ i, w.byte s i = 0 := fun i => by
    rw [← hw.sized.getD_file, hfile, getD_zeros]
  have hsize : w₁.size s = length := by
    have hmax : w₁.size s = max (w.size s) (0 + length + 0) := (ho.size hw.sized.limit).2
    omega
  have hbyte : ∀ i, w₁.byte s i = 0 := fun i => by
    rw [ho.byte, if_neg (by rw [List.take_nil, List.length_nil]; omega), (kept_setNode ..).byte,
      hzero]
  have hbytes : ((w₁.setNode s none).file s).bytes = List.replicate length 0 :=
    bytes_ext (by rw [length_file, (kept_setNode ..).size, hsize, List.length_replicate])
      fun i => by rw [hwhole.sized.getD_file, (kept_setNode ..).byte, hbyte, getD_zeros]
  have hparent : ((w₁.setNode s none).file s).parent = parent := by
    rw [(kept_setNode w₁ none).file]
    exact (congrArg Sector.mk ho.parent).trans (congrArg File.parent hfile)
  rw [← hbytes, ← hparent]

theorem loaded_eq (hothers : ∀ t, t ≠ s → w'.loaded t = w.loaded t)
    (hsome : (w'.loaded s).isSome = (w.loaded s).isSome) (hl : w.loaded s = none) :
    w'.loaded = w.loaded := funext fun t => by
  by_cases ht : t = s
  · rw [hl, Option.isSome_none, Option.isSome_eq_false_iff, Option.isNone_iff_eq_none] at hsome
    rw [ht, hsome, hl]
  · exact hothers t ht

theorem node_closed_eq (hnode : w'.node = (w.setNode s (some nd)).node) (hn : w.node s = none) :
    (w'.setNode s none).node = w.node := by
  simp only [View.setNode, hnode, Function.update_idem]
  rw [← hn, Function.update_eq_self]

namespace Inode

open Volume Attempt

/-- What came of making an inode: a whole file of zeros, and nothing else but its sectors. -/
structure Made (s : Sector) (length : Nat) (parent : Sector) (w w' : View) : Prop where
  acquired : Acquired s w w'
  whole : Whole w' s
  node : w'.node = w.node
  loaded : w'.loaded = w.loaded
  file : w'.file s = ⟨parent, List.replicate length 0⟩

/-- No sector has changed hands, and the same inodes are open. -/
structure Undone (w w' : View) : Prop where
  total : w'.total = w.total
  stored : ∀ t, w'.Stored t ↔ w.Stored t
  node : w'.node = w.node
  loaded : w'.loaded = w.loaded

section Grow

variable (hq : Acquired s w w₁) (hs : w.Stored s) (hw : Whole w₁ s) (hn : w₁.node s = none)

include hq hs hw hn

theorem GrewTo.made (hg : GrewTo s length w₁ w') (hfile : w₁.file s = ⟨parent, List.replicate k 0⟩)
    (hle : k ≤ length) (hnode : w₁.node = w.node) (hloaded : w₁.loaded = w.loaded) :
    Made s length parent w w' := by
  have hwhole := hg.whole hw
  have hfile' := hg.file hw hfile hle
  obtain ⟨w₂, ho, rfl⟩ := hg
  refine ⟨?_, hwhole, (node_closed_eq ho.node hn).trans hnode, ?_, hfile'⟩
  · exact ((hq.setNode _).grow hs ho.forest ho.total ho.used ho.link).setNode none
  · exact (loaded_eq (s := s) ho.loaded ho.isLoaded hw.unloaded).trans hloaded

theorem GaveUp.undone {why : Refusal} (hg : GaveUp s length w₁ why w') (hnode : w₁.node = w.node)
    (hloaded : w₁.loaded = w.loaded) : Undone w w' := by
  obtain ⟨w₂, w₃, hx, hback, hnode₃, rfl⟩ := hg
  have hgrown := hx.grown
  have htaken := (hq.setNode _).grow hs hx.forest hgrown.total hgrown.used hgrown.link
  refine ⟨hback.total.trans htaken.total, fun t => htaken.stored_of_gaveBack hback t,
    (node_closed_eq (hnode₃.trans hgrown.node) hn).trans hnode, hback.loaded.trans ?_⟩
  exact (loaded_eq (s := s) hgrown.loaded hgrown.isLoaded hw.unloaded).trans hloaded

end Grow

/-- An inode is made, or nothing is taken for it. -/
theorem create_made (hs : w.Stored s) (hl : w.loaded s = none) (hn : w.node s = none)
    (hword : length < offsetLimit)
    (hreach : length ≤ maxSectors * sectorSize ∨
      w.vacant.ncard < treeSize (maxSectors * sectorSize)) :
    Tries Shows faults (create (n := n) s length parent) w
      (fun _ w' => Made s length parent w w') fun why w' => why = .noSpace ∧ Undone w w' := by
  refine create_headed (forest_stored w) hs (fun start w₁ ha hzero => ?_) fun _ =>
    ⟨rfl, rfl, fun _ => Iff.rfl, rfl, rfl⟩
  have hq : Acquired s w (w₁.headed s start parent (min length sectorSize)) := .headed ha hl
  have hw₁ : Whole (w₁.headed s start parent (min length sectorSize)) s :=
    whole_headed ha hs hl hzero (Nat.min_le_right ..)
  have hfile : (w₁.headed s start parent (min length sectorSize)).file s =
      ⟨parent, List.replicate (min length sectorSize) 0⟩ :=
    (file_headed ((congrFun ha.loaded s).trans hl) ha.raw (fun heq => ha.fresh (heq ▸ hs)) hzero
      (Nat.min_le_right ..)).2
  have hn₁ : (w₁.headed s start parent (min length sectorSize)).node s = none :=
    (congrFun ha.node s).trans hn
  by_cases hmore : sectorSize < length
  · rw [if_pos hmore]
    have hsize : (w₁.headed s start parent (min length sectorSize)).size s = sectorSize := by
      rw [← length_file, hfile, List.length_replicate]
      omega
    have hwithin : (w₁.headed s start parent (min length sectorSize)).Within s (0 + length) := by
      rw [Nat.zero_add]
      exact within_headed ha hl hsize hreach
    refine (growNew_atRest hw₁ hn₁ (grow_within ((hw₁.setNode _).atRest (Function.update_self ..))
      (by rwa [Nat.zero_add]) (within_setNode hwithin _))).mono (fun _ w₂ hg => ?_) fun why w₂ hg => ⟨?_, ?_⟩
    · exact hg.made hq hs hw₁ hn₁ hfile (Nat.min_le_left ..) ha.node ha.loaded
    · obtain ⟨w₃, w₄, hx, -⟩ := hg
      exact hx.why
    · exact hg.undone hq hs hw₁ hn₁ ha.node ha.loaded
  · rw [if_neg hmore]
    rw [Nat.min_eq_left (Nat.not_lt.mp hmore)] at *
    exact Tries.pure ⟨hq, hw₁, ha.node, ha.loaded, hfile⟩

/-! ### Made or not made -/

/-- The table holds what the view shows. -/
theorem find?_congr {v u : Volume n} (hv : v.Shows w) (hu : u.Shows w') (hnode : w'.node = w.node)
    (hloaded : w'.loaded = w.loaded) (t : Sector) : u.table.find? t = v.table.find? t := by
  cases hn : w.node t with
  | none => rw [find?_of_none hv hn, find?_of_none hu (hnode ▸ hn)]
  | some nd => rw [find?_of_node hv hn, find?_of_node hu (hnode ▸ hn), hloaded]

/-- The open inode answers that it is so long and lies in `parent`, and reads as all zeros. -/
structure ReadsZeros (s : Sector) (length : Nat) (parent : Sector) (v : Volume n) : Prop where
  hasLength : HasLength s v length
  hasParent : ∃ v', Inode.parent s v = .ok parent v'
  bytes : ∀ offset count, ∃ v', readAt s offset count v =
    .ok (List.replicate (min count (length - offset)) 0) v'

/-- The inode at `s` is new: what is in use beside what was in use is its own, and was free. Opened,
it is a file of so many zeros. -/
structure IsNew (s : Sector) (length : Nat) (parent : Sector) (v v' : Volume n) : Prop where
  wellFormed : v'.view.WellFormed s
  used : ∀ t, v'.view.used t = true ↔ v.view.used t = true ∨ t ∈ v'.view.contents s
  fresh : ∀ t ∈ v'.view.contents s, v.view.used t = false
  opened : ∃ u, Inode.open s v' = .ok () u ∧ ReadsZeros s length parent u

/-- Either the inode is new, or no sector has changed hands. In both cases the same inodes are open
as before. -/
def AllOrNothing (s : Sector) (length : Nat) (parent : Sector) (v : Volume n)
    (x : Attempt n Unit) : Prop :=
  ∃ answer v', x.run v = .ok answer v' ∧ v'.Shows v'.view ∧
    (∀ t, v'.table.find? t = v.table.find? t) ∧
    match answer with
    | .ok () => IsNew s length parent v v'
    | .error why => why = .noSpace ∧ v'.map = v.map ∧ v'.view.Stored s

theorem readsZeros {v : Volume n} (hv : v.Shows v.view) (hw : v.view.AtRest s nd)
    (hz : Sized v.view s) (hfile : v.view.file s = ⟨parent, List.replicate length 0⟩) :
    ReadsZeros s length parent v := by
  have hsize : v.view.size s = length := by rw [← length_file, hfile, List.length_replicate]
  refine ⟨hsize ▸ hasLength hv hw, ?_, fun offset count => ?_⟩
  · have hrun : Yields never (Inode.parent (n := n) s) v _ := parent_atRest hw v hv
    obtain ⟨_, v', hok, _, -, rfl, rfl⟩ := hrun.ok_of_never
    exact ⟨v', by rw [hok, hfile]⟩
  · have hrun : Yields never (readAt (n := n) s offset count) v _ :=
      readAt_atRest hw (.inl hz.limit) v hv
    obtain ⟨_, v', hok, _, -, rfl, rfl⟩ := hrun.ok_of_never
    refine ⟨v', ?_⟩
    rw [hok, hsize, stretch_of_bound fun i _ hi => hz.bound _ ?_]
    · congr 1
      refine List.eq_replicate_iff.mpr ⟨by rw [List.length_map, List.length_range'], fun b hb => ?_⟩
      obtain ⟨i, -, rfl⟩ := List.mem_map.mp hb
      rw [← hz.getD_file, hfile, getD_zeros]
    · simp only [Record.dataSectors, sectorSize]
      omega

theorem used_iff_stored {v : Volume n} (hv : v.Shows w) :
    w.used t = true ↔ IsMap w.total t ∨ w.Stored t := by
  refine ⟨fun ht => ?_, fun ht => ht.elim hv.used_of_isMap And.left⟩
  by_cases hmap : IsMap w.total t
  · exact .inl hmap
  · exact .inr ⟨ht, hmap⟩

section Outcome

variable {v v' : Volume n} (hv : v.Shows v.view) (hv' : v'.Shows w')

include hv hv'

theorem Made.isNew (hm : Made s length parent v.view w') (hn : v.view.node s = none) :
    IsNew s length parent v v' := by
  have hwhole : Whole v'.view s := hm.whole.of_shows hv'
  have hkept := hv'.kept_of_wellFormed hm.whole.toWellFormed
  have hcontents : ∀ t, t ∈ v'.view.contents s ↔ t ∈ w'.contents s := fun t => by
    simp only [View.mem_contents, hkept.link]
  have hfresh : ∀ t ∈ w'.contents s, v.view.used t = false := fun t ht => by
    obtain ⟨p, hp⟩ := View.mem_contents.mp ht
    have hstored := hm.whole.stored (some p) t hp
    rw [View.Stored, hm.acquired.total] at hstored
    rw [Bool.eq_false_iff]
    exact fun hused => hm.acquired.fresh t ht ⟨hused, hstored.2⟩
  refine ⟨hwhole.toWellFormed, fun t => ?_, fun t ht => hfresh t ((hcontents t).mp ht), ?_⟩
  · rw [hv'.used, hcontents, used_iff_stored hv', used_iff_stored hv, hm.acquired.stored,
      hm.acquired.total, or_assoc]
  · have hrun : Yields never («open» (n := n) s) v' _ := open_does v' hv'.itself
    obtain ⟨_, u, hok, w₁, hu, rfl⟩ := hrun.ok_of_never
    have hnone : v'.view.node s = none := by
      rw [hv'.node, hm.node, hn]
    rw [View.opened, hnone] at hu
    have hopen : Whole u.view s := (hwhole.setNode _).of_shows hu
    have hnode : u.view.node s = some { openers := 1 } := by
      rw [hu.node]
      exact Function.update_self ..
    refine ⟨u, hok, readsZeros hu.itself (hopen.atRest hnode) hopen.sized ?_⟩
    rw [(hu.kept_of_wellFormed (hwhole.setNode _).toWellFormed).file, (kept_setNode ..).file,
      hkept.file, hm.file]

theorem Undone.map_eq (hu : Undone v.view w') : v'.map = v.map := by
  refine hv.map_congr hv' hu.total (funext fun t => ?_)
  rw [Bool.eq_iff_iff, used_iff_stored hv', used_iff_stored hv, hu.stored, hu.total]

end Outcome

theorem create_run_eq {slots : Nat} (hword : slots * entrySize < offsetLimit) :
    (Directory.create (n := n) s slots parent).run = (create s (slots * entrySize) parent).run := by
  rw [Directory.create, checkOffset, if_pos hword]
  rfl

/-- Whichever sectors are free, and whatever length the inode is to have, be it that they run out
before the index does: to make an inode, or a directory of so many slots, in a sector of the
caller's is all or nothing. -/
theorem create_allOrNothing {v : Volume n} {slots : Nat} (hv : v.Shows v.view)
    (hs : v.view.Stored s) (hn : v.view.node s = none) (hword : length < offsetLimit)
    (hreach : length ≤ maxSectors * sectorSize ∨
      v.map.freeCount < treeSize (maxSectors * sectorSize)) :
    AllOrNothing s length parent v (create s length parent) ∧
    (slots * entrySize = length → AllOrNothing s length parent v
      (Directory.create s slots parent)) := by
  have hmade : AllOrNothing s length parent v (create s length parent) := by
    rw [hv.freeCount] at hreach
    have hrun : Yields never (create (n := n) s length parent).run v _ :=
      create_made hs (loaded_of_none hv hn) hn hword hreach v hv
    obtain ⟨why | _, v', hok, w, hv', hpost⟩ := hrun.ok_of_never
    · obtain ⟨rfl, hu⟩ : why = .noSpace ∧ Undone v.view w := hpost
      exact ⟨_, v', hok, hv'.itself, find?_congr hv hv' hu.node hu.loaded, rfl,
        hu.map_eq hv hv', hv'.stored_iff.mpr ((hu.stored s).mpr hs)⟩
    · have hm : Made s length parent v.view w := hpost
      exact ⟨_, v', hok, hv'.itself, find?_congr hv hv' hm.node hm.loaded, hm.isNew hv hv' hn⟩
  refine ⟨hmade, ?_⟩
  rintro rfl
  rw [AllOrNothing, create_run_eq hword]
  exact hmade

/-- On a new volume of eight sectors, a file that is longer than any index reaches. -/
theorem create_allOrNothing_new : ∃ v : Volume cacheCapacity, v.Shows v.view ∧
    v.view.Stored rootSector ∧ v.view.node rootSector = none ∧
    v.map.freeCount < treeSize (maxSectors * sectorSize) ∧
    AllOrNothing rootSector (2 ^ 40) rootSector v (create rootSector (2 ^ 40) rootSector) ∧
    AllOrNothing rootSector (2 ^ 40) rootSector v
      (Directory.create rootSector (2 ^ 35) rootSector) := by
  have hsound : (Device.memory (MemoryDisk.blank 8)).Sound := trivial
  obtain ⟨v, c, -, hv⟩ := assemble_format (n := cacheCapacity) (by decide) hsound (by decide)
    (by decide)
  have hw : Keeps 8 (unwritten c 8).view .unmade := keeps_unwritten c (by decide)
  have hs := hv.stored_iff.mpr (hw.forest.setAside rootSector rfl)
  have hn : v.view.node rootSector = none := congrFun hv.node rootSector
  have hfew : v.map.freeCount < treeSize (maxSectors * sectorSize) := calc
    v.map.freeCount ≤ v.map.total := by
      rw [FreeMap.freeCount_eq_card]
      exact (Finset.card_filter_le ..).trans_eq (Finset.card_range _)
    _ = 8 := hv.total
    _ < treeSize 4608 := by decide
    _ ≤ treeSize (maxSectors * sectorSize) := treeSize_mono (by decide)
  have hmade : AllOrNothing rootSector (2 ^ 40) rootSector v (create rootSector (2 ^ 40) rootSector) ∧
      (2 ^ 35 * entrySize = 2 ^ 40 → AllOrNothing rootSector (2 ^ 40) rootSector v
        (Directory.create rootSector (2 ^ 35) rootSector)) :=
    create_allOrNothing hv.itself hs hn (by decide) (.inr hfew)
  exact ⟨v, hv.itself, hs, hn, hfew, hmade.1, hmade.2 (by decide)⟩

end Inode

end TieredVolume
