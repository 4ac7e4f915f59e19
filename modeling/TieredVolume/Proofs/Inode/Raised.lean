import Mathlib.Algebra.Order.BigOperators.Group.Finset
import TieredVolume.Proofs.Inode.Deferred

/-!
Growth of the files that `create` makes. Whatever has been grown, written, bound or refused, there
is a sector for every byte of such a file. To reach further costs what is missing between the old
end and the new one, data sectors and index blocks; it succeeds just if so much is free.
-/
namespace TieredVolume

open View

variable {w w' : View} {live spare : Set Sector} {h s t : Sector} {nd : Node} {p : Place}
  {l m k offset size length stop : Nat} {parent : Sector} {bytes : Bytes} {faults : Fault → Prop}
  {n : Nat}

/-! ### What growth costs -/

instance : DecidablePred Place.Leaf := fun p =>
  inferInstanceAs (Decidable (p.up.length = IndexPath.depthOf p.slot))

/-- The logical sectors of a range without a sector. -/
def View.unbound (w : View) (h : Sector) (first stop : Nat) : Finset Nat :=
  (Finset.Ico first stop).filter fun l => w.data h l = none

/-- The index blocks that are missing on the ways to a range of logical sectors. -/
def View.blockless (w : View) (h : Sector) (first stop : Nat) : Finset Place :=
  (ways first stop).filter fun p => ¬ p.Leaf ∧ w.link h p = none

/-- How many sectors it takes to let a file reach up to the byte `stop`. -/
def View.growthCost (w : View) (h : Sector) (stop : Nat) : Nat :=
  let first := Record.dataSectors (w.size h)
  let last := Record.dataSectors stop
  (w.unbound h first last).card + (w.blockless h first last).card

/-- The place of the data sector for a logical sector that the index reaches. -/
def leafOf (l : Nat) : Place := ((IndexPath.locate? l).map IndexPath.place).getD .first

theorem leafOf_eq {path : IndexPath} (hpath : IndexPath.locate? l = some path) :
    leafOf l = path.place := by
  rw [leafOf, hpath, Option.map_some, Option.getD_some]

theorem exists_path (hl : l < maxSectors) : ∃ path, IndexPath.locate? l = some path :=
  Option.ne_none_iff_exists'.mp fun hnone => by
    have hout := IndexPath.locate?_eq_none_iff.mp hnone
    omega

/-- Each logical sector without a sector is one place that is missing. -/
theorem card_unbound (hstop : k ≤ maxSectors) :
    (w.unbound h m k).card = ((w.missing h (ways m k)).filter Place.Leaf).card := by
  refine Finset.card_bij (fun l _ => leafOf l) (fun l hl => ?_) (fun l hl l' hl' heq => ?_)
    fun p hp => ?_
  · obtain ⟨hrange, hnone⟩ := Finset.mem_filter.mp hl
    obtain ⟨hle, hlt⟩ := Finset.mem_Ico.mp hrange
    obtain ⟨path, hpath⟩ := exists_path (hlt.trans_le hstop)
    rw [leafOf_eq hpath]
    obtain ⟨hway, hmissing⟩ := Finset.mem_filter.mp (mem_missing_of_data hpath hnone)
    exact Finset.mem_filter.mpr
      ⟨Finset.mem_filter.mpr ⟨wayTo_subset_ways hle hlt hway, hmissing⟩, path.leaf_place⟩
  · obtain ⟨path, hpath⟩ := exists_path
      ((Finset.mem_Ico.mp (Finset.mem_filter.mp hl).1).2.trans_le hstop)
    obtain ⟨path', hpath'⟩ := exists_path
      ((Finset.mem_Ico.mp (Finset.mem_filter.mp hl').1).2.trans_le hstop)
    simp only [leafOf_eq hpath, leafOf_eq hpath'] at heq
    rw [← IndexPath.locate?_eq_some_iff.mp hpath, ← IndexPath.locate?_eq_some_iff.mp hpath',
      IndexPath.place_injective heq]
  · obtain ⟨hp, hleaf⟩ := Finset.mem_filter.mp hp
    obtain ⟨hway, hnone⟩ := Finset.mem_filter.mp hp
    obtain ⟨l, hl, hin⟩ := Finset.mem_biUnion.mp hway
    obtain ⟨path, hpath⟩ := exists_path ((Finset.mem_Ico.mp hl).2.trans_le hstop)
    have hplace := eq_place_of_mem_wayTo hpath hin hleaf
    refine ⟨l, Finset.mem_filter.mpr ⟨hl, ?_⟩, (leafOf_eq hpath).trans hplace.symm⟩
    rw [View.data, hpath, Option.bind_some, ← hplace, hnone]

/-- The cost counts each place that is missing once, however many ways share it. -/
theorem growthCost_eq (hstop : stop ≤ maxSectors * sectorSize) :
    w.growthCost h stop = (w.missing h (w.ahead h stop)).card := by
  have hlast : Record.dataSectors stop ≤ maxSectors := by
    simp only [Record.dataSectors, sectorSize, maxSectors] at hstop ⊢
    omega
  have hblocks : ∀ first last, w.blockless h first last =
      (w.missing h (ways first last)).filter fun p => ¬ p.Leaf := fun first last => by
    ext p
    simp only [View.blockless, View.missing, Finset.mem_filter]
    tauto
  rw [View.growthCost, card_unbound hlast, hblocks, View.ahead,
    Finset.card_filter_add_card_filter_not]

/-- As far as the direct links reach, it takes no more than the data sectors. -/
theorem growthCost_le (hstop : Record.dataSectors stop ≤ directLinks) :
    w.growthCost h stop ≤ Record.dataSectors stop := by
  have hend : stop ≤ maxSectors * sectorSize := by
    simp only [Record.dataSectors, directLinks, sectorSize, maxSectors] at hstop ⊢
    omega
  have hways : ∀ l ∈ Finset.Ico (Record.dataSectors (w.size h)) (Record.dataSectors stop),
      (wayTo l).card ≤ 1 := fun l hl => by
    have hlt := (Finset.mem_Ico.mp hl).2
    exact (card_wayTo_le l).trans_eq (if_pos (hlt.trans_le hstop))
  calc w.growthCost h stop
    _ = (w.missing h (w.ahead h stop)).card := growthCost_eq hend
    _ ≤ (w.ahead h stop).card := Finset.card_filter_le ..
    _ ≤ (Finset.Ico (Record.dataSectors (w.size h)) (Record.dataSectors stop)).card * 1 :=
      Finset.card_biUnion_le_card_mul _ _ _ hways
    _ ≤ Record.dataSectors stop := by
      rw [Nat.card_Ico]
      omega

/-! ### Files without holes -/

/-- What holds of a file that was made by `create`, open or not. -/
structure Whole (w : View) (h : Sector) : Prop extends WellFormed w h where
  sized : Sized w h
  unloaded : w.loaded h = none

namespace Whole

theorem atRest (hw : Whole w h) (hn : w.node h = some nd) : w.AtRest h nd :=
  ⟨hw.toWellFormed, hn, hw.unloaded⟩

theorem setNode (hw : Whole w h) (node : Option Node) : Whole (w.setNode h node) h where
  toWellFormed := hw.toWellFormed.of_kept (kept_setNode w node) hw.stored
  sized := hw.sized.of_kept (kept_setNode w node)
  unloaded := hw.unloaded

/-- What a volume shows of a whole file is whole. -/
theorem of_shows {v : Volume n} (hw : Whole w h) (hv : v.Shows w) : Whole v.view h where
  toWellFormed := hv.wellFormed hw.toWellFormed
  sized := hw.sized.of_kept (hv.kept_of_wellFormed hw.toWellFormed)
  unloaded := by rw [hv.loaded, hw.unloaded]

theorem of_undisturbed {v v' : Volume n} (hw : Whole v.view h) (hu : Undisturbed h v v') :
    Whole v'.view h := ⟨hu.wellFormed hw.toWellFormed, hw.sized.of_kept hu.kept, hu.unloaded⟩

/-- Opening and closing leave a whole inode alone. -/
theorem undisturbed {v v' : Volume n} {node : Option Node} (hw : Whole v.view h)
    (hv' : v'.Shows (v.view.setNode h node)) : Undisturbed h v v' := by
  have hw' := hw.setNode node
  exact ⟨hv'.itself, (kept_setNode ..).trans (hv'.kept_of_wellFormed hw'.toWellFormed),
    fun q t ht => hv'.stored_iff.mpr (hw.stored q t ht), (hw'.of_shows hv').unloaded⟩

end Whole

theorem View.AtRest.whole (hw : w.AtRest h nd) (hz : Sized w h) : Whole w h :=
  ⟨hw.toWellFormed, hz, hw.unloaded⟩

theorem Extends.whole {places : Finset Place} (he : Extends places h w w') (hw : w.AtRest h nd)
    (hz : Sized w h) : Whole w' h := (he.atRest hw).whole (hz.of_grown he.grown)

theorem Rewritten.whole (ho : Rewritten h offset bytes k w w') (hw : w.AtRest h nd)
    (hz : Sized w h) : Whole w' h := (ho.atRest hw).whole (ho.sized hz)

namespace Inode

open Volume Attempt

/-- What became of a new file of one sector that was to grow: it grew to its length, or what it had
was given back. Nobody has it open any more. -/
def GrewTo (s : Sector) (length : Nat) (w w' : View) : Prop :=
  ∃ w₁, Rewritten s (0 + length) [] 0 (w.setNode s (some { openers := 1 })) w₁ ∧
    w' = w₁.setNode s none

def GaveUp (s : Sector) (length : Nat) (w : View) (why : Refusal) (w' : View) : Prop :=
  ∃ w₁ w₂, Exhausted (w.ahead s (0 + length)) s (w.setNode s (some { openers := 1 })) why w₁ ∧
    GaveBack (w₁.contents s) s w₁ w₂ ∧ w₂.node = w₁.node ∧ w' = w₂.setNode s none

/-- A new file of one sector grows to its length, or is given up. -/
theorem growNew_atRest (hw : Whole w s) (hn : w.node s = none)
    (hgrow : Tries Shows faults (grow (n := n) s length 0) (w.setNode s (some { openers := 1 }))
      (fun _ w' => Rewritten s (0 + length) [] 0 (w.setNode s (some { openers := 1 })) w')
      (Exhausted (w.ahead s (0 + length)) s (w.setNode s (some { openers := 1 })))) :
    Tries Shows faults (do
      always («open» (n := n) s)
      thenAlways (onRefusal (grow s length 0) (releaseContents s)) (close s)) w
      (fun _ w' => GrewTo s length w w') (GaveUp s length w) := by
  refine Tries.bind (Tries.always (open_does.mono ?_))
  rintro - w₁ rfl
  rw [View.opened, hn]
  have hopen := (hw.setNode (some { openers := 1 })).atRest (Function.update_self ..)
  refine Tries.thenAlways (Tries.onRefusal (hgrow.mono ?_ ?_))
  · intro _ w₂ ho
    have hw₂ := ho.atRest hopen
    refine (close_does_last hw₂.node hw₂.unloaded (Nat.le_refl 1) rfl).mono ?_
    rintro - w₃ rfl
    exact ⟨w₂, ho, rfl⟩
  · intro why w₂ hx
    have hw₂ := hx.atRest hopen
    refine (releaseContents_atRest hw₂).mono ?_
    rintro - w₃ ⟨hg, hnode⟩
    refine (close_does_last (by rw [hnode, hw₂.node]) (by rw [hg.loaded, hw₂.unloaded])
      (Nat.le_refl 1) rfl).mono ?_
    rintro - w₄ rfl
    exact ⟨w₂, w₃, hx, hg, hnode, rfl⟩

theorem GrewTo.whole (hr : GrewTo s length w w') (hw : Whole w s) : Whole w' s := by
  obtain ⟨w₁, ho, rfl⟩ := hr
  have hw₁ := hw.setNode (some { openers := 1 })
  exact (ho.whole (hw₁.atRest (Function.update_self ..)) hw₁.sized).setNode none

/-- A header and its first sector make a whole file. -/
theorem whole_headed {live spare : Set Sector} {start : Sector}
    (ha : SetAside live spare start w w') (hs : s ∈ spare) (hl : w.loaded s = none)
    (hzero : w'.block start = Block.zero) (hlen : length ≤ sectorSize) :
    Whole (w'.headed s start parent length) s := by
  have hl' := (congrFun ha.loaded s).trans hl
  exact ⟨(ha.headed hs hl').wellFormed (.inl rfl),
    (file_headed hl' ha.raw (fun heq => ha.fresh (heq ▸ hs)) hzero hlen).1, hl'⟩

/-- As far as one file goes, all that is in use might be set aside. -/
theorem forest_stored (w : View) : Forest w ∅ {t | w.Stored t} :=
  ⟨nofun, nofun, nofun, nofun, fun _ ht => ht, fun _ ht => .inl ht⟩

/-- A file that was made is whole. -/
theorem create_whole (hs : w.Stored s) (hl : w.loaded s = none) (hn : w.node s = none)
    (hword : length < offsetLimit ∨ faults .overflow)
    (hend : length ≤ maxSectors * sectorSize ∨ faults (.pastIndex maxSectors)) :
    Tries Shows faults (create (n := n) s length parent) w (fun _ w' => Whole w' s)
      fun why _ => why = .noSpace := by
  refine create_headed (forest_stored w) hs (fun start w₁ ha hzero => ?_) fun _ => rfl
  have hw₁ : Whole (w₁.headed s start parent (min length sectorSize)) s :=
    whole_headed ha hs hl hzero (Nat.min_le_right ..)
  by_cases hmore : sectorSize < length
  · rw [if_pos hmore]
    refine (growNew_atRest hw₁ ((congrFun ha.node s).trans hn)
      (grow_atRest ((hw₁.setNode _).atRest (Function.update_self ..)) (by rwa [Nat.zero_add])
        (by rwa [Nat.zero_add]))).mono (fun _ w₂ hr => hr.whole hw₁) ?_
    rintro why w₂ ⟨w₃, w₄, hx, -⟩
    exact hx.why
  · rw [if_neg hmore]
    exact Tries.pure hw₁

/-! ### Through calls that succeed and calls that fail -/

theorem node_closed (hn : w.node s = none) :
    Does Shows anyFault (node (n := n) s) w fun _ _ => False := fun v hv => by
  refine Yields.bind (Yields.get ?_)
  rw [find?_of_none hv hn]
  exact Yields.throw trivial

/-- An inode that nobody has open answers nothing. -/
theorem loaded_closed {α : Type} {body : Attempt n α} (hn : w.node s = none) :
    Tries Shows anyFault (do always (load s); thenAlways body (unload s)) w
      (fun _ _ => False) fun _ _ => False :=
  Tries.bind (Tries.always (Does.andThen (node_closed hn) fun _ _ hnever => hnever.elim))

section Whole

variable (hw : Whole w s)

include hw

theorem grow_whole : Tries Shows anyFault (grow (n := n) s size offset) w (fun _ w' => Whole w' s)
    fun _ w' => Whole w' s := by
  cases hn : w.node s with
  | none => exact (loaded_closed hn).mono (fun _ _ => False.elim) fun _ _ => False.elim
  | some nd =>
    have hopen := hw.atRest hn
    refine (grow_atRest hopen (.inr trivial) (.inr trivial)).mono (fun _ w' ho => ?_)
      fun _ w' hx => ?_
    · exact ho.whole hopen hw.sized
    · exact hx.toExtends.whole hopen hw.sized

theorem allocateAt_whole : Tries Shows anyFault (allocateAt (n := n) s offset) w
    (fun _ w' => Whole w' s) fun _ w' => Whole w' s := by
  cases hn : w.node s with
  | none => exact (loaded_closed hn).mono (fun _ _ => False.elim) fun _ _ => False.elim
  | some nd =>
    have hopen := hw.atRest hn
    refine (allocateAt_atRest hopen (.inr trivial)).mono (fun _ w' ho => ?_) fun _ w' hx => ?_
    · exact ho.1.whole hopen hw.sized
    · exact hx.toExtends.whole hopen hw.sized

theorem writeAt_whole : Tries Shows anyFault (writeAt (n := n) s offset bytes) w
    (fun _ w' => Whole w' s) fun _ w' => Whole w' s := by
  cases hn : w.node s with
  | none =>
    unfold writeAt
    by_cases hempty : bytes.isEmpty = true
    · rw [if_pos hempty]
      exact Tries.pure hw
    · rw [if_neg hempty]
      exact Tries.bind (Tries.always ((node_closed hn).mono fun _ _ => False.elim))
  | some nd =>
    have hopen := hw.atRest hn
    refine (writeAt_answers hopen (.inr trivial) (.inr trivial)).mono ?_ fun _ w' hx => ?_
    · rintro _ w' (⟨-, -, rfl⟩ | ho)
      · exact hw
      · exact ho.whole hopen hw.sized
    · exact hx.toExtends.whole hopen hw.sized

end Whole

/-- What holds of an inode however a call was answered. -/
theorem whole_of_run {α : Type} {x : Attempt n α} {v v' : Volume n} {answer : Except Refusal α}
    (hx : Tries Shows anyFault x w (fun _ w' => Whole w' s) fun _ w' => Whole w' s)
    (hv : v.Shows w) (hrun : x.run v = .ok answer v') : v'.Shows v'.view ∧ Whole v'.view s := by
  obtain ⟨w', hv', hw'⟩ := Does.of_ok hx hv hrun
  have hwhole : Whole w' s := by
    cases answer with
    | ok _ => exact hw'
    | error _ => exact hw'
  exact ⟨hv'.itself, hwhole.of_shows hv'⟩

/-- The volumes in which the inode `s` is one that was made by `create`, whatever was asked for
since then and however it was answered, and whatever else was done meanwhile, as opening it. -/
inductive Raised (s : Sector) : Volume n → Prop
  | create {v v' : Volume n} {length : Nat} {parent : Sector} (hv : v.Shows v.view)
      (hs : v.view.Stored s) (hn : v.view.node s = none)
      (hrun : (create s length parent).run v = .ok (.ok ()) v') : Raised s v'
  | grow {v v' : Volume n} {size offset : Nat} {answer : Except Refusal Unit} (h : Raised s v)
      (hrun : (grow s size offset).run v = .ok answer v') : Raised s v'
  | writeAt {v v' : Volume n} {offset : Nat} {bytes : Bytes} {answer : Except Refusal Nat}
      (h : Raised s v) (hrun : (writeAt s offset bytes).run v = .ok answer v') : Raised s v'
  | allocateAt {v v' : Volume n} {offset : Nat} {answer : Except Refusal Sector}
      (h : Raised s v) (hrun : (allocateAt s offset).run v = .ok answer v') : Raised s v'
  | meanwhile {v v' : Volume n} (h : Raised s v) (hu : Undisturbed s v v') : Raised s v'

theorem Raised.whole {v : Volume n} (h : Raised s v) : v.Shows v.view ∧ Whole v.view s := by
  induction h with
  | create hv hs hn hrun =>
    obtain ⟨w, hv', hw⟩ := Does.of_ok (create_whole hs (loaded_of_none hv hn) hn
      (.inr trivial) (.inr trivial)) hv hrun
    exact ⟨hv'.itself, hw.of_shows hv'⟩
  | grow _ hrun ih => exact whole_of_run (grow_whole ih.2) ih.1 hrun
  | writeAt _ hrun ih => exact whole_of_run (writeAt_whole ih.2) ih.1 hrun
  | allocateAt _ hrun ih => exact whole_of_run (allocateAt_whole ih.2) ih.1 hrun
  | meanwhile _ hu ih => exact ⟨hu.shows, ih.2.of_undisturbed hu⟩

/-! ### Exact growth -/

/-- The inode answers that it is so long, and nothing has changed. -/
def HasLength (s : Sector) (v : Volume n) (k : Nat) : Prop :=
  ∃ v', Inode.length s v = .ok k v' ∧ v'.Shows v.view

/-- How a call is answered that lets a file reach up to the byte `stop`: it succeeds just if the
sectors that are missing are free, takes these and no others, and the length never shrinks. -/
structure ReachesTo {α : Type} (s : Sector) (stop : Nat) (v : Volume n) (answer : Except Refusal α)
    (v' : Volume n) : Prop where
  ok_iff : (∃ a, answer = .ok a) ↔ v.view.growthCost s stop ≤ v.map.freeCount
  ok : ∀ a, answer = .ok a → v'.map.freeCount + v.view.growthCost s stop = v.map.freeCount ∧
    HasLength s v' (max (v.view.size s) stop)
  refused : ∀ why, answer = .error why → why = .noSpace ∧ HasLength s v' (v.view.size s)

theorem hasLength {v : Volume n} (hv : v.Shows v.view) (hw : v.view.AtRest s nd) :
    HasLength s v (v.view.size s) := by
  have hrun : Yields never (Inode.length (n := n) s) v _ := length_atRest hw v hv
  obtain ⟨_, v', hok, w, hv', rfl, rfl⟩ := hrun.ok_of_never
  exact ⟨v', hok, hv'⟩

section Reaches

variable {α : Type} {v v' : Volume n} (hv : v.Shows v.view) (hw : v.view.AtRest s nd)
  (hv' : v'.Shows w)

include hv hw hv'

theorem ReachesTo.of_rewritten (a : α) (hz : Sized v.view s)
    (ho : Rewritten s offset bytes k v.view w) :
    ReachesTo s (offset + bytes.length) v (.ok a) v' := by
  obtain ⟨hend, hsize⟩ := ho.size hz.limit
  have hcount : v'.map.freeCount + v.view.growthCost s (offset + bytes.length) =
      v.map.freeCount := by
    have hcount := ho.paid.count
    rwa [ho.missing_eq, Finset.card_empty, Nat.add_zero, ← growthCost_eq hend, ← hv.freeCount,
      ← hv'.freeCount] at hcount
  refine ⟨⟨fun _ => by omega, fun _ => ⟨a, rfl⟩⟩, fun _ _ => ⟨hcount, ?_⟩, nofun⟩
  rw [← ho.eq_length hz, ← hsize, ← (hv'.kept_of_wellFormed ho.wellFormed).size]
  exact hasLength hv'.itself (hv'.atRest (ho.atRest hw))

theorem ReachesTo.of_exhausted {why : Refusal} (hend : stop ≤ maxSectors * sectorSize)
    (hx : Exhausted (v.view.ahead s stop) s v.view why w) :
    ReachesTo s stop v (.error why : Except Refusal α) v' := by
  have hlt := hx.lt
  rw [← growthCost_eq hend, ← hv.freeCount] at hlt
  refine ⟨⟨nofun, fun hle => absurd hle (Nat.not_le.mpr hlt)⟩, nofun, fun _ heq => ?_⟩
  cases heq
  refine ⟨hx.why, ?_⟩
  rw [← hx.grown.size, ← (hv'.kept_of_wellFormed hx.wellFormed).size]
  exact hasLength hv'.itself (hv'.atRest (hx.atRest hw))

end Reaches

/-- A file of a hundred bytes, made and opened on a new volume of eight sectors. -/
theorem exists_raised : ∃ v : Volume cacheCapacity, Raised rootSector v ∧
    v.view.node rootSector = some { openers := 1 } ∧ 5 ≤ v.map.freeCount := by
  have hsound : (Device.memory (MemoryDisk.blank 8)).Sound := trivial
  obtain ⟨v, c, -, hv⟩ := assemble_format (n := cacheCapacity) (by decide) hsound (by decide)
    (by decide)
  have hroom : FreeMap.reserved 8 < 8 := by decide
  have hw : Keeps 8 (unwritten c 8).view .unmade := keeps_unwritten c hroom
  have hmade : Tries Shows never (create (n := cacheCapacity) rootSector 100 rootSector) _
      (fun _ w' => w'.node rootSector = none) fun _ _ => False :=
    start_tries hw rfl (fun w₁ hnew => by
      rw [if_neg (by decide)]
      exact Tries.pure (congrFun hnew.node rootSector)) (not_full_unwritten c (by decide) hroom)
  have hspent : Spends (Stores 8) (create (n := cacheCapacity) rootSector 100 rootSector) .unmade
      (treeSize 100) := create_spends rfl
  obtain ⟨_ | _, v₁, hrun, ⟨w₁, hv₁, hpost⟩, hcost⟩ :=
    ((hmade v hv).and (hspent v ⟨_, hv, hw⟩)).ok_of_never
  · exact hpost.elim
  have hraised : Raised rootSector v₁ := .create hv.itself
    (hv.stored_iff.mpr (hw.forest.setAside rootSector rfl)) (congrFun hv.node rootSector) hrun
  have hopen : Yields never («open» (n := cacheCapacity) rootSector) v₁ _ :=
    (open_does v₁ hraised.whole.1).and (open_frugal rootSector v₁)
  obtain ⟨_, v₂, -, ⟨w₂, hv₂, rfl⟩, hease⟩ := hopen.ok_of_never
  have hnode : v₂.view.node rootSector = some { openers := 1 } := by
    have hclosed : v₁.view.node rootSector = none := (congrFun hv₁.node rootSector).trans hpost
    rw [hv₂.node, View.opened, hclosed]
    simp only [View.setNode, Function.update_self, Option.getD_none]
  have hfree : v.map.freeCount + FreeMap.reserved 8 = 8 :=
    hv.freeCount_unwritten (by decide) (Nat.le_of_lt hroom)
  have hreserved : FreeMap.reserved 8 = 2 := by decide
  have hone : treeSize 100 = 1 := by decide
  have hleft : v.map.freeCount ≤ v₁.map.freeCount + treeSize 100 := hcost
  have hkeeps := hease.freeCount_le
  exact ⟨v₂, hraised.meanwhile (hraised.whole.2.undisturbed hv₂), hnode, by omega⟩

/-- A file that was made has a sector for each of its bytes, whatever was done with it. To grow it,
or to write to it, up to a byte within reach of the index succeeds just if as many sectors are free
as are missing on the way there. It takes so many, and the file then reaches up to that byte, or as
far as before if that was further. -/
theorem growth_exact {v : Volume n} (hraised : Raised s v) (hn : v.view.node s = some nd) :
    HasLength s v (v.view.size s) ∧
    (∀ i < v.view.size s, ∃ t v', sectorAt s i v = .ok (some t) v' ∧ v'.Shows v.view ∧
      v.view.Stored t) ∧
    (∀ offset size, offset + size ≤ maxSectors * sectorSize → ∃ answer v',
      (grow s size offset).run v = .ok answer v' ∧ ReachesTo s (offset + size) v answer v') ∧
    (∀ offset bytes, bytes ≠ [] → nd.denials = 0 →
      offset + bytes.length ≤ maxSectors * sectorSize → ∃ answer v',
      (writeAt s offset bytes).run v = .ok answer v' ∧
      ReachesTo s (offset + bytes.length) v answer v' ∧
      ∀ k, answer = .ok k → k = bytes.length) := by
  obtain ⟨hv, hw⟩ := hraised.whole
  have hopen := hw.atRest hn
  refine ⟨hasLength hv hopen, fun i hi => ?_, fun offset size hend => ?_,
    fun offset bytes hempty hdenied hend => ?_⟩
  · have hbound : v.view.data s (i / sectorSize) ≠ none := hw.sized.bound _ (by
      simp only [Record.dataSectors, sectorSize] at hi ⊢
      omega)
    obtain ⟨t, ht⟩ := Option.ne_none_iff_exists'.mp hbound
    obtain ⟨path, -, hlink⟩ := exists_place_of_data ht
    have hrun : Yields never (sectorAt (n := n) s i) v _ :=
      sectorAt_atRest hopen (.inl (lt_of_data hbound)) v hv
    obtain ⟨_, v', hok, w, hv', rfl, rfl⟩ := hrun.ok_of_never
    exact ⟨t, v', by rw [hok, ht], hv', hw.stored (some path.place) t hlink⟩
  · have hrun : Yields never (grow (n := n) s size offset).run v _ :=
      grow_atRest hopen (.inl (lt_offsetLimit hend)) (.inl hend) v hv
    obtain ⟨why | _, v', hok, w, hv', hpost⟩ := hrun.ok_of_never
    · exact ⟨_, v', hok, .of_exhausted hv hopen hv' hend hpost⟩
    · exact ⟨_, v', hok, .of_rewritten hv hopen hv' _ hw.sized hpost⟩
  · have hrun : Yields never (writeAt (n := n) s offset bytes).run v _ :=
      writeAt_atRest hopen hempty hdenied (.inl (lt_offsetLimit hend)) (.inl hend) v hv
    obtain ⟨why | k, v', hok, w, hv', hpost⟩ := hrun.ok_of_never
    · refine ⟨_, v', hok, .of_exhausted hv hopen hv' hend hpost, fun k hk => ?_⟩
      cases hk
    · have ho : Rewritten s offset bytes k v.view w := hpost
      refine ⟨_, v', hok, .of_rewritten hv hopen hv' _ hw.sized ho, fun k' hk' => ?_⟩
      cases hk'
      exact ho.eq_length hw.sized

/-- Growing it to two sectors takes what is missing of them. -/
theorem growth_exact_new : ∃ v v' : Volume cacheCapacity,
    Raised rootSector v ∧ v.view.node rootSector = some { openers := 1 } ∧
    (grow rootSector 1024 0).run v = .ok (.ok ()) v' ∧
    v'.map.freeCount + v.view.growthCost rootSector 1024 = v.map.freeCount ∧
    HasLength rootSector v' (max (v.view.size rootSector) 1024) := by
  obtain ⟨v, hraised, hnode, hfree⟩ := exists_raised
  obtain ⟨-, -, hgrow, -⟩ := growth_exact hraised hnode
  obtain ⟨answer, v', hok, hreaches⟩ := hgrow 0 1024 (by decide)
  rw [Nat.zero_add] at hreaches
  have hcost : v.view.growthCost rootSector 1024 ≤ 2 := growthCost_le (by decide)
  obtain ⟨⟨⟩, rfl⟩ := hreaches.ok_iff.mpr (by omega)
  exact ⟨v, v', hraised, hnode, hok, hreaches.ok _ rfl⟩

end Inode

end TieredVolume
