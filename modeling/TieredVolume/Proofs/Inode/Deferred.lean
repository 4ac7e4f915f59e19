import TieredVolume.Proofs.Inode.AtRest
import TieredVolume.Proofs.Inode.FiniteMap
import TieredVolume.Proofs.Inode.Lifetime

/-!
The end of an inode that was removed. While somebody has it open, it keeps all its sectors, and is
read and written as before. The last one to close it gives back all of them, each once, and nothing
else; an inode that was not removed keeps them.
-/
namespace TieredVolume

open View

variable {w w' w'' : View} {places : Finset Place} {h s t : Sector} {nd : Node} {gone : List Sector}
  {offset k : Nat} {bytes : Bytes} {faults : Fault → Prop} {n : Nat}

/-! ### Giving back -/

/-- Some sectors were given back. But for them and what is in the header `h`, all is as it was. -/
structure GaveBack (gone : List Sector) (h : Sector) (w w' : View) : Prop where
  total : w'.total = w.total
  loaded : w'.loaded = w.loaded
  used : ∀ t, w'.used t = true ↔ w.used t = true ∧ t ∉ gone
  block : ∀ t, t ≠ h → w'.Stored t → w'.block t = w.block t

namespace GaveBack

theorem setNode (hg : GaveBack gone h w w') (node : Option Node) :
    GaveBack gone h w (w'.setNode s node) := ⟨hg.total, hg.loaded, hg.used, hg.block⟩

theorem free (hg : GaveBack gone h w w') : GaveBack (h :: gone) h w (w'.free h) where
  total := hg.total
  loaded := hg.loaded
  used := fun t => by
    by_cases ht : t = h
    · simp [View.free, ht]
    · simp [View.free, ht, hg.used]
  block := fun t hne ht => hg.block t hne ⟨by
    have hused := ht.1
    simpa only [View.free, Function.update_of_ne hne] using hused, ht.2⟩

/-- As many sectors more are free. -/
theorem ncard_vacant (hg : GaveBack gone h w w') (hnodup : gone.Nodup)
    (hused : ∀ t ∈ gone, t.block < w.total ∧ w.used t = true) :
    w'.vacant.ncard = w.vacant.ncard + gone.length := by
  classical
  have hvacant : w'.vacant = w.vacant ∪ ↑gone.toFinset := by
    ext t
    have hiff := hg.used t
    simp only [View.vacant, Set.mem_ofPred_eq, hg.total, Set.mem_union, List.coe_toFinset]
    constructor
    · rintro ⟨hlt, hfree⟩
      by_cases ht : t ∈ gone
      · exact .inr ht
      · exact .inl ⟨hlt, by grind⟩
    · rintro (⟨hlt, hfree⟩ | ht)
      · exact ⟨hlt, by grind⟩
      · exact ⟨(hused t ht).1, by grind⟩
  have hdisjoint : Disjoint w.vacant ↑gone.toFinset := Set.disjoint_left.mpr fun t ht hin => by
    have hfree := ht.2
    rw [(hused t (List.mem_toFinset.mp (Finset.mem_coe.mp hin))).2] at hfree
    cases hfree
  rw [hvacant, Set.ncard_union_eq hdisjoint, Set.ncard_coe_finset,
    List.toFinset_card_of_nodup hnodup]

end GaveBack

theorem View.WellFormed.nodup_tree (hw : w.WellFormed h) : (w.tree h).Nodup :=
  hw.forest.nodup_tree rfl

theorem View.WellFormed.stored_of_mem_tree (hw : w.WellFormed h) (ht : t ∈ w.tree h) :
    w.Stored t := by
  obtain ⟨q, hq⟩ := mem_tree.mp ht
  exact hw.stored q t hq

/-! ### What an inode keeps -/

/-- The inode has all the sectors that it had, in the places where it had them, and reaches as far
as it did. -/
structure Outlasts (h : Sector) (w w' : View) : Prop where
  link : ∀ p t, w.link h p = some t → w'.link h p = some t
  size : w.size h ≤ maxSectors * sectorSize →
    w.size h ≤ w'.size h ∧ w'.size h ≤ maxSectors * sectorSize

theorem Outlasts.trans (ho : Outlasts h w w') (ho' : Outlasts h w' w'') : Outlasts h w w'' where
  link := fun p t ht => ho'.link p t (ho.link p t ht)
  size := fun hlimit => by
    obtain ⟨hle, hlimit⟩ := ho.size hlimit
    obtain ⟨hle', hlimit⟩ := ho'.size hlimit
    exact ⟨hle.trans hle', hlimit⟩

theorem View.Kept.outlasts (hk : Kept w w' h) : Outlasts h w w' where
  link := fun p t ht => (hk.link p).trans ht
  size := fun hlimit => by rw [hk.size]; exact ⟨Nat.le_refl _, hlimit⟩

theorem Extends.outlasts (he : Extends places h w w') : Outlasts h w w' where
  link := he.grown.link
  size := fun hlimit => by rw [he.grown.size]; exact ⟨Nat.le_refl _, hlimit⟩

theorem Rewritten.outlasts (ho : Rewritten h offset bytes k w w') : Outlasts h w w' where
  link := ho.link
  size := fun hlimit => by
    obtain ⟨hend, hsize⟩ := ho.size hlimit
    have hk := ho.written_le
    omega

theorem View.AtRest.setNode (hw : w.AtRest h nd) (nd' : Node) :
    (w.setNode h (some nd')).AtRest h nd' where
  toWellFormed := hw.toWellFormed.of_kept (kept_setNode w _) hw.stored
  node := Function.update_self ..
  unloaded := hw.unloaded

namespace Inode

open Volume Attempt

/-- All that hangs on an inode is given back, though the record is loaded meanwhile and goes back
to the header in the end. -/
theorem releaseContents_atRest (hw : w.AtRest h nd) :
    Does Shows faults (releaseContents (n := n) h) w fun _ w' =>
      GaveBack (w.contents h) h w w' ∧ w'.node = w.node := by
  have hk := kept_load hw.unloaded
  have hw₁ := hw.load
  obtain ⟨r, hr⟩ := hw₁.loaded
  have hcontents : (w.load h).contents h = w.contents h := by
    rw [View.contents, hk.header, View.contents]
    rfl
  refine Does.andThen (load_atHand hw) ?_
  rintro - w₁ rfl
  refine Does.andThen (cutContents_does hw₁.forest rfl hw₁.node hr) ?_
  rintro - w₂ rfl
  refine Does.andThen (unload_does hw₁.node (Function.update_self ..) (stored_cut hw₁.forest rfl)) ?_
  rintro - w₃ rfl
  rw [hcontents]
  refine Does.pure ⟨⟨rfl, ?_, fun t => ?_, fun t hne _ => ?_⟩, rfl⟩
  · simp only [View.put, View.setLoaded, View.freeAll, View.load, Function.update_idem]
    rw [← hw.unloaded, Function.update_eq_self]
  · simp only [View.put, View.setLoaded, View.freeAll, View.load]
    by_cases ht : t ∈ w.contents h
    · simp [ht]
    · simp [ht]
  · simp only [View.put, View.setLoaded, View.freeAll, View.load, Function.update_of_ne hne]

/-- The last one to close a removed inode gives back its whole tree. -/
theorem close_atRest_removed (hw : w.AtRest h nd) (hlast : nd.openers ≤ 1)
    (hremoved : nd.removed = true) :
    Does Shows faults (close (n := n) h) w fun _ w' =>
      GaveBack (w.tree h) h w w' ∧ w'.node = Function.update w.node h none := by
  refine Does.andThen (node_does_of_unloaded hw.node hw.unloaded) ?_
  rintro nd' w' ⟨rfl, -, rfl⟩
  rw [if_neg (by omega), hremoved]
  refine Does.andThen (releaseContents_atRest hw) ?_
  rintro - w₁ ⟨hg, hnode⟩
  refine Does.andThen (erase_does (by rw [hg.loaded, hw.unloaded])) ?_
  rintro - w₂ rfl
  have hheader : (w₁.setNode h none).Stored h :=
    ⟨(hg.used h).mpr ⟨hw.header_stored.1, hw.forest.notMem_contents rfl⟩,
      hg.total ▸ hw.header_stored.2⟩
  refine (release_does hheader).mono ?_
  rintro - w₃ rfl
  exact ⟨(hg.setNode none).free, by rw [← hnode]; rfl⟩

theorem markRemoved_does (hw : w.AtRest h nd) :
    Does Shows faults (markRemoved (n := n) h) w fun _ w' =>
      w' = w.setNode h (some { nd with removed := true }) := by
  refine Does.andThen (node_does_of_unloaded hw.node hw.unloaded) ?_
  rintro nd' w' ⟨rfl, hbare, rfl⟩
  exact setNode_does hw.unloaded hbare

/-! ### What the users of an inode do -/

/-- Bytes laid over others from `offset` on. -/
def laidOver (f : Nat → UInt8) (offset : Nat) (bytes : Bytes) (i : Nat) : UInt8 :=
  if offset ≤ i ∧ i < offset + bytes.length then bytes.getD (i - offset) 0 else f i

theorem laidOver_nil (f : Nat → UInt8) (offset : Nat) : laidOver f offset [] = f :=
  funext fun i => if_neg (by rw [List.length_nil]; omega)

/-- What those who use an inode know of it: how often they have it open, whether it was removed, and
which bytes they have written. -/
structure Usage where
  openers : Nat
  removed : Bool
  byte : Nat → UInt8

/-- One thing that is done with an open inode, or beside it. Opening it again is also what the copy
of a handle does. -/
inductive Uses (s : Sector) (u : Usage) (v : Volume n) : Usage → Volume n → Prop
  | «open» {v' : Volume n} (hrun : «open» s v = .ok () v') :
      Uses s u v { u with openers := u.openers + 1 } v'
  | close {v' : Volume n} (hmore : 1 < u.openers) (hrun : close s v = .ok () v') :
      Uses s u v { u with openers := u.openers - 1 } v'
  | markRemoved {v' : Volume n} (hrun : markRemoved s v = .ok () v') :
      Uses s u v { u with removed := true } v'
  | readAt {v' : Volume n} {offset count : Nat} {bytes : Bytes}
      (hrun : readAt s offset count v = .ok bytes v') : Uses s u v u v'
  | writeAt {v' : Volume n} {offset k : Nat} {bytes : Bytes}
      (hrun : (writeAt s offset bytes).run v = .ok (.ok k) v') :
      Uses s u v { u with byte := laidOver u.byte offset (bytes.take k) } v'
  | refused {v' : Volume n} {offset : Nat} {bytes : Bytes} {why : Refusal}
      (hrun : (writeAt s offset bytes).run v = .ok (.error why) v') : Uses s u v u v'
  | grow {v' : Volume n} {size offset : Nat} {answer : Except Refusal Unit}
      (hrun : (grow s size offset).run v = .ok answer v') : Uses s u v u v'
  | allocateAt {v' : Volume n} {offset : Nat} {answer : Except Refusal Sector}
      (hrun : (allocateAt s offset).run v = .ok answer v') : Uses s u v u v'
  | meanwhile {v' : Volume n} {nd nd' : Node} (h : Undisturbed s v v')
      (hn : v.view.node s = some nd) (hn' : v'.view.node s = some nd')
      (hopeners : nd'.openers = nd.openers) (hremoved : nd'.removed = nd.removed) : Uses s u v u v'

/-- What can come of an open inode of the volume `v` before the last one closes it. -/
inductive InUse (s : Sector) (v : Volume n) : Usage → Volume n → Prop
  | start {nd : Node} (hn : v.view.node s = some nd) :
      InUse s v ⟨nd.openers, nd.removed, v.view.byte s⟩ v
  | step {u u' : Usage} {v₁ v₂ : Volume n} (h : InUse s v u v₁) (hstep : Uses s u v₁ u' v₂) :
      InUse s v u' v₂

/-- What holds of an inode as long as somebody has it open. -/
structure Carried (s : Sector) (v : Volume n) (u : Usage) (v' : Volume n) : Prop where
  shows : v'.Shows v'.view
  atRest : ∃ nd, v'.view.AtRest s nd ∧ nd.openers = u.openers ∧ nd.removed = u.removed
  outlasts : Outlasts s v.view v'.view
  byte : v'.view.byte s = u.byte

namespace Carried

variable {v v₁ v₂ : Volume n} {u u' : Usage}

/-- What a step leaves of the inode is carried on. -/
theorem step (hc : Carried s v u v₁) (hv : v₂.Shows w) (hw : w.AtRest s nd)
    (hopeners : nd.openers = u'.openers) (hremoved : nd.removed = u'.removed)
    (houtlasts : Outlasts s v₁.view w) (hbyte : w.byte s = u'.byte) : Carried s v u' v₂ where
  shows := hv.itself
  atRest := ⟨nd, hv.atRest hw, hopeners, hremoved⟩
  outlasts := (hc.outlasts.trans houtlasts).trans
    (hv.kept_of_wellFormed hw.toWellFormed).outlasts
  byte := by
    rw [← hbyte]
    exact funext (hv.kept_of_wellFormed hw.toWellFormed).byte

/-- A step that keeps the inode. -/
theorem keep (hc : Carried s v u v₁) (hv : v₂.Shows w) (hw : w.AtRest s nd)
    (hopeners : nd.openers = u'.openers) (hremoved : nd.removed = u'.removed)
    (hkept : Kept v₁.view w s) (hbyte : u'.byte = u.byte) : Carried s v u' v₂ :=
  hc.step hv hw hopeners hremoved hkept.outlasts (by rw [funext hkept.byte, hc.byte, hbyte])

/-- A step that gives the inode another node. -/
theorem setNode {nd' : Node} (hc : Carried s v u v₁) (hw : v₁.view.AtRest s nd)
    (hv : v₂.Shows (v₁.view.setNode s (some nd'))) (hopeners : nd'.openers = u'.openers)
    (hremoved : nd'.removed = u'.removed) (hbyte : u'.byte = u.byte) : Carried s v u' v₂ :=
  hc.keep hv (hw.setNode nd') hopeners hremoved (kept_setNode ..) hbyte

theorem extend (hc : Carried s v u v₁) (hw : v₁.view.AtRest s nd) (hopeners : nd.openers = u.openers)
    (hremoved : nd.removed = u.removed) (hv : v₂.Shows w) (he : Extends places s v₁.view w) :
    Carried s v u v₂ :=
  hc.step hv (he.atRest hw) hopeners hremoved he.outlasts (by rw [funext he.grown.byte, hc.byte])

theorem overlay (hc : Carried s v u v₁) (hw : v₁.view.AtRest s nd)
    (hopeners : nd.openers = u.openers) (hremoved : nd.removed = u.removed) (hv : v₂.Shows w)
    (ho : Rewritten s offset bytes k v₁.view w) :
    Carried s v { u with byte := laidOver u.byte offset (bytes.take k) } v₂ :=
  hc.step hv (ho.atRest hw) hopeners hremoved ho.outlasts
    (funext fun i => by rw [ho.byte, hc.byte]; rfl)

/-- Each use of an open inode carries it on. -/
theorem uses (hc : Carried s v u v₁) (hstep : Uses s u v₁ u' v₂) : Carried s v u' v₂ := by
  obtain ⟨nd, hw, hopeners, hremoved⟩ := hc.atRest
  cases hstep with
  | «open» hrun =>
    obtain ⟨w, hv, rfl⟩ := Does.of_ok open_does hc.shows hrun
    rw [View.opened, hw.node, Option.getD_some] at hv
    exact hc.setNode hw hv (congrArg (· + 1) hopeners) hremoved rfl
  | close hmore hrun =>
    obtain ⟨w, hv, rfl⟩ := Does.of_ok (close_does_shared hw.node hw.unloaded (hopeners ▸ hmore))
      hc.shows hrun
    exact hc.setNode hw hv (congrArg (· - 1) hopeners) hremoved rfl
  | markRemoved hrun =>
    obtain ⟨w, hv, rfl⟩ := Does.of_ok (markRemoved_does hw) hc.shows hrun
    exact hc.setNode hw hv hopeners rfl rfl
  | readAt hrun =>
    obtain ⟨w, hv, -, rfl⟩ := Does.of_ok (readAt_atRest hw (.inr trivial)) hc.shows hrun
    exact hc.keep hv hw hopeners hremoved (Kept.refl _ s) rfl
  | writeAt hrun =>
    obtain ⟨w, hv, ⟨-, rfl, rfl⟩ | ho⟩ := Does.of_ok
      (writeAt_answers hw (.inr trivial) (.inr trivial)) hc.shows hrun
    · exact hc.keep hv hw hopeners hremoved (Kept.refl _ s) (laidOver_nil ..)
    · exact hc.overlay hw hopeners hremoved hv ho
  | refused hrun =>
    obtain ⟨w, hv, hx⟩ := Does.of_ok (writeAt_answers hw (.inr trivial) (.inr trivial))
      hc.shows hrun
    exact hc.extend hw hopeners hremoved hv hx.toExtends
  | @grow _ size offset answer hrun =>
    obtain ⟨w, hv, hpost⟩ := Does.of_ok (grow_atRest hw (.inr trivial) (.inr trivial))
      hc.shows hrun
    cases answer with
    | ok a =>
      have hlaid := hc.overlay hw hopeners hremoved hv hpost
      rwa [List.take_nil, laidOver_nil] at hlaid
    | error why => exact hc.extend hw hopeners hremoved hv hpost.toExtends
  | @allocateAt _ offset answer hrun =>
    obtain ⟨w, hv, hpost⟩ := Does.of_ok (allocateAt_atRest hw (.inr trivial)) hc.shows hrun
    cases answer with
    | ok a => exact hc.extend hw hopeners hremoved hv hpost.1
    | error why => exact hc.extend hw hopeners hremoved hv hpost.toExtends
  | @meanwhile _ nd₁ nd₂ h hn hn' hopeners' hremoved' =>
    rw [hw.node, Option.some.injEq] at hn
    subst hn
    exact hc.keep h.shows (h.atRest hw.toWellFormed hn') (hopeners'.trans hopeners)
      (hremoved'.trans hremoved) h.kept rfl

end Carried

theorem InUse.carried {v v' : Volume n} {u : Usage} (hv : v.Shows v.view) (hw : v.view.AtRest s nd)
    (huse : InUse s v u v') : Carried s v u v' := by
  induction huse with
  | start hn =>
    rw [hw.node, Option.some.injEq] at hn
    subst hn
    exact ⟨hv, ⟨nd, hw, rfl, rfl⟩, (Kept.refl v.view s).outlasts, rfl⟩
  | step _ hstep ih => exact ih.uses hstep

/-! ### Up to the last one, and then -/

/-- What an inode that is open does for those who use it: it has the sectors that it had, they are
in use, and what was written is read and can be written over. -/
structure Serves (s : Sector) (v : Volume n) (u : Usage) (v' : Volume n) : Prop where
  atRest : ∃ nd, v'.view.AtRest s nd ∧ nd.openers = u.openers ∧ nd.removed = u.removed
  kept : ∀ t ∈ v.view.tree s, t ∈ v'.view.tree s ∧ v'.view.used t = true
  readAt : v.view.size s ≤ maxSectors * sectorSize → ∀ offset count, ∃ v'',
    readAt s offset count v' = .ok ((v'.view.stretch s offset
      (min count (v'.view.size s - offset))).map u.byte) v'' ∧ v''.Shows v'.view
  /-- Unless it is denied, a write goes as far as there are sectors, and one that ends inside the
  file is not refused. -/
  writeAt : ∀ offset bytes, offset + bytes.length ≤ maxSectors * sectorSize → ∃ answer v'',
    (writeAt s offset bytes).run v' = .ok answer v'' ∧
    match answer with
    | .ok k => InUse s v { u with byte := laidOver u.byte offset (bytes.take k) } v'' ∧
        ((∀ nd, v'.view.node s = some nd → nd.denials = 0) →
          k = (v''.view.stretch s offset bytes.length).length)
    | .error why => InUse s v u v'' ∧ why = .noSpace ∧ v'.view.size s < offset + bytes.length

/-- The end of an inode: its node is gone and its tree is free, each sector of it once. -/
structure Freed (s : Sector) (v v' : Volume n) : Prop where
  shows : v'.Shows v'.view
  node : v'.view.node = Function.update v.view.node s none
  nodup : (v.view.tree s).Nodup
  gaveBack : GaveBack (v.view.tree s) s v.view v'.view
  freeCount : v'.map.freeCount = v.map.freeCount + (v.view.tree s).length

theorem Freed.of_gaveBack {v v' : Volume n} (hv : v.Shows v.view) (hw : v.view.WellFormed s)
    (hv' : v'.Shows w') (hg : GaveBack (v.view.tree s) s v.view w')
    (hnode : w'.node = Function.update v.view.node s none) : Freed s v v' where
  shows := hv'.itself
  node := hv'.node.trans hnode
  nodup := hw.nodup_tree
  gaveBack := ⟨hv'.total.trans hg.total, hv'.loaded.trans hg.loaded, fun t => by
    rw [hv'.used]
    exact hg.used t, fun t hne ht => by
    have ht' := hv'.stored_iff.mp ht
    rw [hv'.block t ht', hg.block t hne ht']⟩
  freeCount := by
    rw [hv'.freeCount, hv.freeCount]
    refine hg.ncard_vacant hw.nodup_tree fun t ht => ?_
    have hused := (hw.stored_of_mem_tree ht).1
    exact ⟨hv.lt hused, hused⟩

theorem InUse.serves {v v' : Volume n} {u : Usage} (huse : InUse s v u v')
    (hv : v.Shows v.view) (hw : v.view.AtRest s nd) : Serves s v u v' := by
  have hc := huse.carried hv hw
  obtain ⟨nd, hw', hopeners, hremoved⟩ := hc.atRest
  refine ⟨hc.atRest, fun t ht => ?_, fun hlimit offset count => ?_, fun offset bytes hend => ?_⟩
  · obtain ⟨q, hq⟩ := mem_tree.mp ht
    have hq' : v'.view.sector s q = some t := by
      cases q with
      | none => exact hq
      | some p => exact hc.outlasts.link p t hq
    exact ⟨mem_tree.mpr ⟨q, hq'⟩, (hw'.stored q t hq').1⟩
  · have hrun : Yields never (Inode.readAt (n := n) s offset count) v' _ :=
      readAt_atRest hw' (.inl (hc.outlasts.size hlimit).2) v' hc.shows
    obtain ⟨bytes, v'', hok, w, hv'', rfl, rfl⟩ := hrun.ok_of_never
    exact ⟨v'', by rw [hok, hc.byte], hv''⟩
  have hrun : Yields never (Inode.writeAt (n := n) s offset bytes).run v' _ :=
    writeAt_answers hw' (.inl (lt_offsetLimit hend)) (.inl hend) v' hc.shows
  obtain ⟨why | k, v'', hok, w, hv'', hpost⟩ := hrun.ok_of_never
  · have hx : Exhausted _ s v'.view why w := hpost
    exact ⟨_, v'', hok, huse.step (.refused hok), hx.why, View.size_lt_of_missing hx.short⟩
  refine ⟨_, v'', hok, huse.step (.writeAt hok), fun hallowed => ?_⟩
  rcases hpost with ⟨hidle, rfl, rfl⟩ | ho
  · rw [hidle.resolve_right (by rw [hallowed nd hw'.node]; exact Nat.lt_irrefl 0)]
    rfl
  · rw [View.stretch_congr (hv''.kept_of_wellFormed ho.wellFormed).link]
    exact ho.written

/-- A removed inode is released by the last one to close it, and not before. In any order of opening
and closing, with whatever is read and written in between, it keeps its sectors and its contents as
long as it is open. The last close frees its whole tree, each sector once, and nothing else; of an
inode that was not removed it frees nothing. -/
theorem release_deferred {v v' : Volume n} {u : Usage} (hv : v.Shows v.view)
    (hw : v.view.AtRest s nd) (huse : InUse s v u v') :
    Serves s v u v' ∧
    (∃ v'', «open» s v' = .ok () v'' ∧ v''.map = v'.map ∧
      InUse s v { u with openers := u.openers + 1 } v'') ∧
    (1 < u.openers → ∃ v'', close s v' = .ok () v'' ∧ v''.map = v'.map ∧
      InUse s v { u with openers := u.openers - 1 } v'') ∧
    (u.openers ≤ 1 → ∃ v'', close s v' = .ok () v'' ∧
      if u.removed then Freed s v' v''
      else v''.map = v'.map ∧ v''.Shows (v'.view.setNode s none)) := by
  have hc := huse.carried hv hw
  obtain ⟨nd, hw', hopeners, hremoved⟩ := hc.atRest
  refine ⟨huse.serves hv hw, ?_, fun hmore => ?_, fun hlast => ?_⟩
  · have hrun : Yields never («open» (n := n) s) v' _ := open_does v' hc.shows
    obtain ⟨_, v'', hok, w, hv'', rfl⟩ := hrun.ok_of_never
    exact ⟨v'', hok, hc.shows.map_congr hv'' rfl rfl, huse.step (.open hok)⟩
  · have hrun : Yields never (close (n := n) s) v' _ :=
      close_does_shared hw'.node hw'.unloaded (hopeners ▸ hmore) v' hc.shows
    obtain ⟨_, v'', hok, w, hv'', rfl⟩ := hrun.ok_of_never
    exact ⟨v'', hok, hc.shows.map_congr hv'' rfl rfl, huse.step (.close hmore hok)⟩
  rw [← hopeners] at hlast
  rw [← hremoved]
  cases hr : nd.removed with
  | true =>
    have hrun : Yields never (close (n := n) s) v' _ :=
      close_atRest_removed hw' hlast hr v' hc.shows
    obtain ⟨_, v'', hok, w, hv'', hg, hnode⟩ := hrun.ok_of_never
    exact ⟨v'', hok, Freed.of_gaveBack hc.shows hw'.toWellFormed hv'' hg hnode⟩
  | false =>
    have hrun : Yields never (close (n := n) s) v' _ :=
      close_does_last hw'.node hw'.unloaded hlast hr v' hc.shows
    obtain ⟨_, v'', hok, w, hv'', rfl⟩ := hrun.ok_of_never
    exact ⟨v'', hok, hc.shows.map_congr hv'' rfl rfl, hv''⟩

/-- The root of a new volume, marked as removed while it is open once, and then closed. -/
theorem release_deferred_root : ∃ (v v' v'' : Volume cacheCapacity) (u : Usage),
    v.Shows v.view ∧ v.view.AtRest rootSector { openers := 1 } ∧ InUse rootSector v u v' ∧
    u.openers = 1 ∧ u.removed = true ∧ close rootSector v' = .ok () v'' ∧
    Freed rootSector v' v'' := by
  obtain ⟨v, hv, hw, -⟩ := exists_atRest_root
  have hrun : Yields never (markRemoved (n := cacheCapacity) rootSector) v _ :=
    markRemoved_does hw v hv
  obtain ⟨_, v', hok, -⟩ := hrun.ok_of_never
  have huse := (InUse.start hw.node).step (.markRemoved hok)
  obtain ⟨-, -, -, hlast⟩ := release_deferred hv hw huse
  obtain ⟨v'', hclose, hfreed⟩ := hlast (Nat.le_refl 1)
  exact ⟨v, v', v'', _, hv, hw, huse, rfl, rfl, hclose, hfreed⟩

end Inode
end TieredVolume
