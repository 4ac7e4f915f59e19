import TieredVolume.Proofs.Inode.Index

/-!
One inode for itself. What is said of its tree asks nothing of the other inodes, which may be open,
loaded or out of order; as far as the sectors that the inode does not have go, all that are in use
might as well be set aside. An operation on the inode is told from before its load to after its end.
-/
namespace TieredVolume

open View

variable {w w' : View} {live spare : Set Sector} {places : Finset Place} {h s : Sector} {nd : Node}
  {l : Nat} {faults : Fault → Prop} {n : Nat}

namespace View

/-- The header and the index blocks are where their places ask for them, every sector is in use, and
none is at two places. -/
structure WellFormed (w : View) (h : Sector) : Prop where
  header : (w.header h).Is .data
  index : ∀ p b, ¬ Place.Leaf p → w.link h p = some b → (Record.ofBlock (w.block b)).Is .indexBlock
  unique : ∀ q q' s, w.sector h q = some s → w.sector h q' = some s → q = q'
  stored : ∀ q s, w.sector h q = some s → w.Stored s

/-- The sectors in use that an inode does not have. -/
def beside (w : View) (h : Sector) : Set Sector := {s | w.Stored s ∧ ∀ q, w.sector h q ≠ some s}

/-- An inode that is open, between two operations. -/
structure AtRest (w : View) (h : Sector) (nd : Node) : Prop extends WellFormed w h where
  node : w.node h = some nd
  unloaded : w.loaded h = none

/-- An inode that is open, with its record in memory. -/
structure AtHand (w : View) (h : Sector) (nd : Node) : Prop extends WellFormed w h where
  node : w.node h = some nd
  loaded : ∃ r, w.loaded h = some r

/-- The view with the record of an inode in memory. -/
def load (w : View) (h : Sector) : View := w.setLoaded h (some (Record.ofBlock (w.block h)))

/-- The view with the record of an inode in its sector again. -/
def unload (w : View) (h : Sector) : View := (w.setLoaded h none).put h (w.header h).toBlock

end View

theorem View.WellFormed.forest (hw : w.WellFormed h) : Forest w {h} (w.beside h) where
  header := by
    rintro _ rfl
    exact hw.header
  index := by
    rintro _ rfl
    exact hw.index
  unique := by
    rintro _ rfl _ rfl q q' s hq hq'
    exact ⟨rfl, hw.unique q q' s hq hq'⟩
  stored := by
    rintro _ rfl q s hq
    exact ⟨hw.stored q s hq, fun hin => hin.2 q hq⟩
  setAside := fun _ hs => hs.1
  owned := fun s hs => by
    by_cases hq : ∃ q, w.sector h q = some s
    · exact .inr ⟨h, rfl, hq⟩
    · exact .inl ⟨hs, fun q hq' => hq ⟨q, hq'⟩⟩

/-- Every inode of a forest is well formed. -/
theorem Forest.wellFormed (hf : Forest w live spare) (hh : h ∈ live) : w.WellFormed h where
  header := hf.header h hh
  index := hf.index h hh
  unique := fun q q' s hq hq' => (hf.unique h hh h hh q q' s hq hq').2
  stored := fun q s hq => (hf.stored h hh q s hq).1

theorem View.Kept.sector (hk : Kept w w' h) (q : Option Place) : w'.sector h q = w.sector h q := by
  cases q with
  | none => rfl
  | some p => exact hk.link p

/-- A well-formed inode that is kept stays well formed if its sectors stay in use. -/
theorem View.WellFormed.of_kept (hw : w.WellFormed h) (hk : Kept w w' h)
    (hstored : ∀ q s, w.sector h q = some s → w'.Stored s) : w'.WellFormed h where
  header := by
    rw [hk.header]
    exact hw.header
  index := fun p b hp hb => by
    rw [hk.link] at hb
    rw [hk.block p b hb]
    exact hw.index p b hp hb
  unique := fun q q' s hq hq' => by
    rw [hk.sector] at hq hq'
    exact hw.unique q q' s hq hq'
  stored := fun q s hq => by
    rw [hk.sector] at hq
    exact hstored q s hq

/-- The header hangs on no place of its tree. -/
theorem View.WellFormed.link_ne (hw : w.WellFormed h) (p : Place) : w.link h p ≠ some h := fun hp =>
  absurd (hw.unique (some p) none h hp rfl) nofun

theorem View.WellFormed.header_stored (hw : w.WellFormed h) : w.Stored h := hw.stored none h rfl

/-! ### Loading -/

theorem kept_load (hl : w.loaded h = none) : Kept w (w.load h) h := by
  refine ⟨?_, fun _ _ _ => rfl⟩
  simp only [View.header, View.load, View.setLoaded, Function.update_self, Option.getD_some, hl,
    Option.getD_none]

theorem kept_unload (hself : ∀ p, w.link h p ≠ some h) : Kept w (w.unload h) h := by
  refine ⟨?_, fun p s hs => ?_⟩
  · simp only [View.header, View.unload, View.put, View.setLoaded, Function.update_self,
      Option.getD_none, Record.ofBlock_toBlock]
  · have hne : s ≠ h := fun heq => hself p (heq ▸ hs)
    simp only [View.unload, View.put, View.setLoaded, Function.update_of_ne hne]

/-- A load that nothing happens in leaves all as it was. -/
theorem unload_load (hl : w.loaded h = none) : (w.load h).unload h = w := by
  have hheader : (w.load h).header h = Record.ofBlock (w.block h) := by
    rw [(kept_load hl).header, View.header, hl, Option.getD_none]
  rw [View.unload, hheader, Record.toBlock_ofBlock]
  simp only [View.load, View.put, View.setLoaded, Function.update_idem, Function.update_eq_self,
    ← hl]

theorem beside_load (hl : w.loaded h = none) : (w.load h).beside h = w.beside h := by
  unfold View.beside
  simp only [(kept_load hl).sector]
  rfl

/-- A loaded inode stays at hand through whatever leaves it well formed. -/
theorem View.AtHand.of_wellFormed (hw : w.AtHand h nd) (hw' : w'.WellFormed h)
    (hnode : w'.node = w.node) (hloaded : (w'.loaded h).isSome = (w.loaded h).isSome) :
    w'.AtHand h nd where
  toWellFormed := hw'
  node := hnode ▸ hw.node
  loaded := Option.isSome_iff_exists.mp
    (hloaded.trans (Option.isSome_iff_exists.mpr hw.loaded))

theorem View.AtRest.of_wellFormed (hw : w.AtRest h nd) (hw' : w'.WellFormed h)
    (hnode : w'.node = w.node) (hloaded : (w'.loaded h).isSome = (w.loaded h).isSome) :
    w'.AtRest h nd where
  toWellFormed := hw'
  node := hnode ▸ hw.node
  unloaded := by
    rw [hw.unloaded, Option.isSome_none] at hloaded
    exact Option.isNone_iff_eq_none.mp (Option.isSome_eq_false_iff.mp hloaded)

theorem View.AtRest.load (hw : w.AtRest h nd) : (w.load h).AtHand h nd where
  toWellFormed := hw.toWellFormed.of_kept (kept_load hw.unloaded) hw.stored
  node := hw.node
  loaded := ⟨_, Function.update_self ..⟩

theorem View.AtHand.unload (hw : w.AtHand h nd) : (w.unload h).AtRest h nd where
  toWellFormed := hw.toWellFormed.of_kept (kept_unload hw.link_ne) hw.stored
  node := hw.node
  unloaded := Function.update_self ..

/-! ### Binding -/

/-- Of these places of an inode some may have got a sector that was free; nothing else was taken and
nothing that the inode had has changed. -/
structure Extends (places : Finset Place) (h : Sector) (w w' : View) : Prop where
  forest : Forest w' {h} (w.beside h)
  grown : Grown {h} h w w'
  paid : Paid places h w w'

namespace Extends

theorem refl (hw : w.WellFormed h) (places : Finset Place) : Extends places h w w :=
  ⟨hw.forest, Grown.refl {h} h w, Paid.refl places h w⟩

theorem wellFormed (he : Extends places h w w') : w'.WellFormed h := he.forest.wellFormed rfl

theorem atHand (he : Extends places h w w') (hw : w.AtHand h nd) : w'.AtHand h nd :=
  hw.of_wellFormed he.wellFormed he.grown.node he.grown.isLoaded

theorem atRest (he : Extends places h w w') (hw : w.AtRest h nd) : w'.AtRest h nd :=
  hw.of_wellFormed he.wellFormed he.grown.node he.grown.isLoaded

/-- What was done while the inode was loaded, told from before the load to after its end. -/
theorem unload (hl : w.loaded h = none) (he : Extends places h (w.load h) w') :
    Extends places h w (w'.unload h) := by
  have hk := kept_load hl
  have hk' := kept_unload he.wellFormed.link_ne
  have hg := he.grown
  refine ⟨?_, ?_, ?_⟩
  · rw [← beside_load hl]
    exact he.forest.of_kept rfl rfl fun _ hh => Set.mem_singleton_iff.mp hh ▸ hk'
  · refine ⟨hg.total, hg.node, fun t ht => ?_, ?_, ?_, hg.used, fun p s hs => ?_,
      fun p s hp hs => ?_, fun p s hp hnone hs => ?_, fun h' hh hne => absurd hh hne⟩
    · simp only [View.unload, View.put, View.setLoaded, Function.update_of_ne ht, hg.loaded t ht,
        View.load]
    · simp only [View.unload, View.put, View.setLoaded, Function.update_self, hl]
    · rw [hk'.header, hg.header, hk.header]
    · rw [hk'.link]
      exact hg.link p s ((hk.link p).trans hs)
    · have hs₁ := (hk.link p).trans hs
      rw [hk'.block p s (hg.link p s hs₁), hg.block p s hp hs₁, hk.block p s hs]
    · rw [hk'.link] at hs
      rw [hk'.block p s hs, hg.fresh p s hp ((hk.link p).trans hnone) hs]
  · refine ⟨?_, fun p hp => ?_⟩
    · rw [missing_congr hk'.link, ← missing_congr hk.link]
      exact he.paid.count
    · rw [hk'.link, he.paid.frame p hp, hk.link]

end Extends

/-- What is left of a refused binding. -/
structure Exhausted (places : Finset Place) (h : Sector) (w : View) (why : Refusal) (w' : View) :
    Prop extends Extends places h w w' where
  why : why = .noSpace
  full : w'.Full
  short : ∃ p ∈ places, w'.link h p = none

namespace Exhausted

variable {why : Refusal}

theorem unload (hl : w.loaded h = none) (hx : Exhausted places h (w.load h) why w') :
    Exhausted places h w why (w'.unload h) where
  toExtends := hx.toExtends.unload hl
  why := hx.why
  full := hx.full
  short := by
    obtain ⟨p, hp, hnone⟩ := hx.short
    exact ⟨p, hp, by rw [(kept_unload hx.wellFormed.link_ne).link, hnone]⟩

/-- Fewer sectors were free than were missing. -/
theorem lt (hx : Exhausted places h w why w') : w.vacant.ncard < (w.missing h places).card := by
  obtain ⟨p, hp, hnone⟩ := hx.short
  exact hx.paid.lt_of_full hx.full hp hnone

end Exhausted

theorem Inode.Refused.exhausted {why : Refusal}
    (hr : Refused {h} (w.beside h) places h w why w') : Exhausted places h w why w' :=
  ⟨⟨hr.forest, hr.grown, hr.paid⟩, hr.why, hr.full, hr.short⟩

/-! ### What the volume itself shows -/

/-- What is shown of a volume, the volume shows of itself. -/
theorem Volume.Shows.itself {v : Volume n} (hv : v.Shows w) : v.Shows v.view :=
  hv.congr hv.total hv.used hv.node hv.loaded hv.block

theorem Volume.Shows.kept_of_wellFormed {v : Volume n} (hv : v.Shows w) (hw : w.WellFormed h) :
    Kept w v.view h := by
  refine ⟨?_, fun p s hs => hv.block s (hw.stored (some p) s hs)⟩
  rw [View.header, View.header, hv.loaded, hv.block h hw.header_stored]

theorem Volume.Shows.stored_iff {v : Volume n} (hv : v.Shows w) : v.view.Stored s ↔ w.Stored s := by
  rw [View.Stored, View.Stored, hv.used, hv.total]

theorem Volume.Shows.wellFormed {v : Volume n} (hv : v.Shows w) (hw : w.WellFormed h) :
    v.view.WellFormed h :=
  hw.of_kept (hv.kept_of_wellFormed hw) fun q s hq => hv.stored_iff.mpr (hw.stored q s hq)

theorem Volume.Shows.atRest {v : Volume n} (hv : v.Shows w) (hw : w.AtRest h nd) :
    v.view.AtRest h nd :=
  ⟨hv.wellFormed hw.toWellFormed, by rw [hv.node, hw.node], by rw [hv.loaded, hw.unloaded]⟩

/-- What was done left an inode alone: it is as it was, its sectors are in use, and it is not
loaded. -/
structure Undisturbed (s : Sector) (v v' : Volume n) : Prop where
  shows : v'.Shows v'.view
  kept : Kept v.view v'.view s
  stored : ∀ q t, v.view.sector s q = some t → v'.view.Stored t
  unloaded : v'.view.loaded s = none

theorem Undisturbed.wellFormed {v v' : Volume n} (hu : Undisturbed s v v')
    (hw : v.view.WellFormed s) : v'.view.WellFormed s := hw.of_kept hu.kept hu.stored

theorem Undisturbed.atRest {v v' : Volume n} (hu : Undisturbed s v v') (hw : v.view.WellFormed s)
    (hn : v'.view.node s = some nd) : v'.view.AtRest s nd := ⟨hu.wellFormed hw, hn, hu.unloaded⟩

namespace Inode

open Volume Attempt

/-! ### Operations on one inode -/

theorem load_atHand (hw : w.AtRest h nd) :
    Does Shows faults (load (n := n) h) w fun _ w' => w' = w.load h := by
  have hheader : w.header h = Record.ofBlock (w.block h) := by
    rw [View.header, hw.unloaded, Option.getD_none]
  exact load_does hw.node hw.unloaded hw.header_stored (hheader ▸ hw.header.isValid)

theorem unload_atRest (hw : w.AtHand h nd) :
    Does Shows faults (unload (n := n) h) w fun _ w' => w' = w.unload h := by
  obtain ⟨r, hr⟩ := hw.loaded
  refine (unload_does hw.node hr hw.header_stored).mono ?_
  rintro - w' rfl
  rw [View.unload, header_of_loaded hr]

/-- An operation on a loaded inode, told from before the load to after its end. -/
theorem withLoaded_atRest {α : Type} {body : VolumeM n α} {post : α → View → Prop}
    (hw : w.AtRest h nd)
    (hbody : Does Shows faults body (w.load h) fun a w' => w'.AtHand h nd ∧ post a (w'.unload h)) :
    Does Shows faults (withLoaded h body) w post := by
  refine Does.andThen (load_atHand hw) ?_
  rintro - w₁ rfl
  refine Does.andThen hbody fun a w₂ ⟨hw₂, hpost⟩ => ?_
  refine Does.andThen (unload_atRest hw₂) ?_
  rintro - w₃ rfl
  exact Does.pure hpost

/-- The same for an attempt, which ends its load also if it is refused. -/
theorem loaded_atRest {α : Type} {body : Attempt n α} {ok : α → View → Prop}
    {refused : Refusal → View → Prop} (hw : w.AtRest h nd)
    (hbody : Tries Shows faults body (w.load h)
      (fun a w' => w'.AtHand h nd ∧ ok a (w'.unload h))
      (fun why w' => w'.AtHand h nd ∧ refused why (w'.unload h))) :
    Tries Shows faults (do always (load h); thenAlways body (unload h)) w ok refused := by
  refine Tries.bind (Tries.always ((load_atHand hw).mono ?_))
  rintro - w₁ rfl
  refine Tries.thenAlways (hbody.mono ?_ ?_)
  · rintro a w₂ ⟨hw₂, hok⟩
    refine (unload_atRest hw₂).mono ?_
    rintro - w₃ rfl
    exact hok
  · rintro why w₂ ⟨hw₂, hrefused⟩
    refine (unload_atRest hw₂).mono ?_
    rintro - w₃ rfl
    exact hrefused

end Inode
end TieredVolume
