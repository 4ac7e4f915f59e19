import TieredVolume.Proofs.Inode.Forest

/-!
Trees that grow. A link that is set to a fresh sector adds one place to the tree of one inode; the
bytes of the file do not change, since what is added is zeros.
-/
namespace TieredVolume

open View

variable {w w' w'' : View} {live spare : Set Sector} {h h' s t fresh b : Sector} {p : Place}
  {up : List (Fin 64)} {c : Fin 64} {r : Record} {l : Nat}

/-! ### Growing trees -/

/-- The tree of the inode `h` may have grown, by sectors of zeros at the leaves. -/
structure Grown (live : Set Sector) (h : Sector) (w w' : View) : Prop where
  total : w'.total = w.total
  node : w'.node = w.node
  loaded : ∀ t, t ≠ h → w'.loaded t = w.loaded t
  isLoaded : (w'.loaded h).isSome = (w.loaded h).isSome
  header : w'.header h = { w.header h with index := (w'.header h).index }
  used : ∀ s, w.used s = true → w'.used s = true
  link : ∀ p s, w.link h p = some s → w'.link h p = some s
  block : ∀ p s, Place.Leaf p → w.link h p = some s → w'.block s = w.block s
  fresh : ∀ p s, Place.Leaf p → w.link h p = none → w'.link h p = some s →
    w'.block s = Block.zero
  others : ∀ h' ∈ live, h' ≠ h → Kept w w' h'

namespace Grown

theorem refl (live : Set Sector) (h : Sector) (w : View) : Grown live h w w :=
  ⟨rfl, rfl, fun _ _ => rfl, rfl, rfl, fun _ => id, fun _ _ => id, fun _ _ _ _ => rfl,
    fun _ _ _ hn hs => absurd (hn.symm.trans hs) nofun, fun h' _ _ => Kept.refl w h'⟩

theorem trans (hg : Grown live h w w') (hg' : Grown live h w' w'') : Grown live h w w'' where
  total := hg'.total.trans hg.total
  node := hg'.node.trans hg.node
  loaded := fun t ht => (hg'.loaded t ht).trans (hg.loaded t ht)
  isLoaded := hg'.isLoaded.trans hg.isLoaded
  header := by rw [hg'.header, hg.header]
  used := fun s hs => hg'.used s (hg.used s hs)
  link := fun p s hs => hg'.link p s (hg.link p s hs)
  block := fun p s hp hs => (hg'.block p s hp (hg.link p s hs)).trans (hg.block p s hp hs)
  fresh := fun p s hp hn hs => by
    cases hs' : w'.link h p with
    | none => exact hg'.fresh p s hp hs' hs
    | some s' =>
      have heq : s' = s := Option.some.inj ((hg'.link p s' hs').symm.trans hs)
      subst heq
      rw [hg'.block p s' hp hs', hg.fresh p s' hp hn hs']
  others := fun h' hh hne => (hg.others h' hh hne).trans (hg'.others h' hh hne)

theorem exists_loaded (hg : Grown live h w w') (hl : w.loaded h = some r) :
    ∃ r', w'.loaded h = some r' := by
  have hsome := hg.isLoaded
  rw [hl, Option.isSome_some] at hsome
  exact Option.isSome_iff_exists.mp hsome

theorem size (hg : Grown live h w w') : w'.size h = w.size h := by
  rw [View.size, View.size, hg.header]

theorem data (hg : Grown live h w w') (hs : w.data h l = some s) : w'.data h l = some s := by
  obtain ⟨path, hpath, hlink⟩ := exists_place_of_data hs
  rw [View.data, hpath, Option.bind_some, hg.link _ s hlink]

theorem data_ne_none (hg : Grown live h w w') (hs : w.data h l ≠ none) : w'.data h l ≠ none := by
  obtain ⟨s, hs⟩ := Option.ne_none_iff_exists'.mp hs
  rw [hg.data hs]
  nofun

/-- The bytes stay what they are. -/
theorem byte (hg : Grown live h w w') (i : Nat) : w'.byte h i = w.byte h i := by
  unfold View.byte View.data
  cases IndexPath.locate? (i / sectorSize) with
  | none => rfl
  | some path =>
    simp only [Option.bind_some]
    cases hs : w.link h path.place with
    | some s => simp only [hg.link _ s hs, hg.block _ s path.leaf_place hs]
    | none =>
      cases hs' : w'.link h path.place with
      | none => rfl
      | some s' =>
        simp only [hg.fresh _ s' path.leaf_place hs hs', get_zero]

end Grown

theorem grown_of_kept (htotal : w'.total = w.total) (hnode : w'.node = w.node)
    (hloaded : w'.loaded = w.loaded) (hused : ∀ s, w.used s = true → w'.used s = true)
    (hkept : ∀ h' ∈ live, Kept w w' h') (hh : h ∈ live) : Grown live h w w' where
  total := htotal
  node := hnode
  loaded := fun t _ => by rw [hloaded]
  isLoaded := by rw [hloaded]
  header := by rw [(hkept h hh).header]
  used := hused
  link := fun p s hs => by rw [(hkept h hh).link, hs]
  block := fun p s _ hs => (hkept h hh).block p s hs
  fresh := fun p s _ hn hs => by
    rw [(hkept h hh).link, hn] at hs
    cases hs
  others := fun h' hh' _ => hkept h' hh'

theorem Linked.grown (hl : Linked live h p fresh w w') (hh : h ∈ live)
    (hloaded : ∀ t, t ≠ h → w'.loaded t = w.loaded t)
    (hisLoaded : (w'.loaded h).isSome = (w.loaded h).isSome)
    (hzero : p.Leaf → w.block fresh = Block.zero) : Grown live h w w' where
  total := hl.total
  node := hl.node
  loaded := hloaded
  isLoaded := hisLoaded
  header := hl.header h hh
  used := fun s hs => by rw [hl.used, hs]
  link := fun p s hs => hl.link_mono hh hs
  block := fun q s hq hs => hl.data h hh q s hq hs
  fresh := fun q s hq hn hs => by
    rcases hl.link_cases hh hs with ⟨-, rfl, rfl⟩ | hs
    · rw [hl.fresh, hzero hq]
    · rw [hn] at hs
      cases hs
  others := hl.others

/-! ### Setting a link -/

theorem child_lt (c : Fin 64) : c.val < 79 := by omega

theorem child_indexBlock (hb : w.block b = Record.indexBlock.toBlock) (c : Fin 64) :
    w.child b c = none := by
  simp only [child, hb, Record.ofBlock_toBlock, Record.indexBlock, Record.blank,
    Vector.getElem_replicate, Sector.decode_noneRaw]

theorem header_of_loaded (hl : w.loaded h = some r) : w.header h = r := by
  rw [header, hl, Option.getD_some]

/-- Setting a link of the header of a loaded file. -/
theorem linked_header (hh : h ∈ live) (hraw : Sector.decode fresh.raw = some fresh)
    (hl : w.loaded h = some r) (hp : p.up = [])
    (hnone : w.link h p = none)
    (hbare : ¬ p.Leaf → w.block fresh = Record.indexBlock.toBlock) :
    Linked live h p fresh w
      (w.setLoaded h (some { r with index := r.index.set p.slot.val fresh.raw p.slot.isLt })) where
  total := rfl
  used := rfl
  node := rfl
  header := fun h' hh' => by
    by_cases heq : h' = h
    · subst heq
      simp only [View.header, View.setLoaded, Function.update_self, hl, Option.getD_some]
    · simp only [View.header, View.setLoaded, Function.update_of_ne heq]
  none := hnone
  top_self := fun _ => by
    simp only [View.header, View.setLoaded, Function.update_self, Option.getD_some,
      Vector.getElem_set_self, hraw]
  top_other := fun h' hh' slot hne => by
    by_cases heq : h' = h
    · subst heq
      have hslot : p.slot.val ≠ slot.val := fun hs => hne ⟨rfl, Fin.ext hs.symm, hp⟩
      rw [header_of_loaded (w := w) hl]
      simp only [View.header, View.setLoaded, Function.update_self, Option.getD_some,
        Vector.getElem_set_ne _ _ hslot]
    · simp only [View.header, View.setLoaded, Function.update_of_ne heq]
  step_self := fun c up hup => by
    rw [hp] at hup
    cases hup
  step_other := fun _ _ _ _ _ _ _ _ _ => rfl
  bare := fun hleaf c => child_indexBlock (hbare hleaf) c
  index := fun _ => id
  data := fun _ _ _ _ _ _ => rfl
  others := fun h' hh' hne => by
    refine ⟨?_, fun _ _ _ => rfl⟩
    simp only [View.header, View.setLoaded, Function.update_of_ne hne]
  fresh := rfl

/-- Setting a link of an index block. -/
theorem linked_child (hf : Forest w live (insert fresh spare)) (hh : h ∈ live)
    (hraw : Sector.decode fresh.raw = some fresh)
    (hp : p.up = c :: up) (hb : w.trail h p.slot up = some b)
    (hnone : w.link h p = none)
    (hbare : ¬ p.Leaf → w.block fresh = Record.indexBlock.toBlock) (node : Record)
    (hnode : node = Record.ofBlock (w.block b)) :
    Linked live h p fresh w
      (w.put b (Record.toBlock { node with index := node.index.set c.val fresh.raw (child_lt c) })) := by
  subst hnode
  have hfits : up.length < IndexPath.depthOf p.slot := by
    have hle := p.fits
    rw [hp, List.length_cons] at hle
    exact hle
  let q : Place := ⟨p.slot, up, hfits.le⟩
  have hq : w.sector h (some q) = some b := hb
  have hunique : ∀ h' ∈ live, ∀ q', w.sector h' q' = some b → h' = h ∧ q' = some q :=
    fun h' hh' q' hq' => hf.unique h' hh' h hh q' (some q) b hq' hq
  have hne : ∀ h' ∈ live, h' ≠ b := fun h' hh' heq => by
    have hsome := (hunique h' hh' none (by rw [sector, heq])).2
    cases hsome
  have hheader : ∀ h' ∈ live, ∀ x, (w.put b x).header h' = w.header h' := fun h' hh' x => by
    simp only [View.header, View.put, Function.update_of_ne (hne h' hh')]
  have hfresh : fresh ≠ b := fun heq =>
    hf.sector_ne_of_spare (.inl rfl) hh (some q) (by rw [hq, heq])
  refine
    { total := rfl, used := rfl, node := rfl, none := hnone
      header := fun h' hh' => by rw [hheader h' hh']
      top_self := fun hup => by rw [hp] at hup; cases hup
      top_other := fun h' hh' slot _ => by rw [hheader h' hh']
      step_self := fun c' up' hup => ?_
      step_other := fun h' hh' slot' up' b' c' hfits' hb' hother => ?_
      bare := fun hleaf c' => ?_
      index := fun b' hb' => ?_
      data := fun h' hh' q' s hleaf hs => ?_
      others := fun h' hh' hother => kept_put fun q' hq' => hother (hunique h' hh' q' hq').1
      fresh := by simp only [View.put, Function.update_of_ne hfresh] }
  · obtain ⟨rfl, rfl⟩ := List.cons.inj (hp.symm.trans hup)
    refine ⟨b, hb, ?_⟩
    simp only [child, View.put, Function.update_self, Record.ofBlock_toBlock,
      Vector.getElem_set_self, hraw]
  · by_cases heq : b' = b
    · subst heq
      obtain ⟨rfl, hplace⟩ := hunique h' hh' (some ⟨slot', up', Nat.le_of_succ_le hfits'⟩) hb'
      have hslot : slot' = p.slot := congrArg Place.slot (Option.some.inj hplace)
      have hup : up' = up := congrArg Place.up (Option.some.inj hplace)
      have hc : c.val ≠ c'.val := fun hc => hother ⟨rfl, hslot, by rw [hp, hup, Fin.ext hc]⟩
      simp only [child, View.put, Function.update_self, Record.ofBlock_toBlock,
        Vector.getElem_set_ne _ _ hc]
    · simp only [child, View.put, Function.update_of_ne heq]
  · refine child_indexBlock ?_ c'
    simp only [View.put, Function.update_of_ne hfresh, hbare hleaf]
  · by_cases heq : b' = b
    · subst heq
      simp only [View.put, Function.update_self, Record.ofBlock_toBlock]
      exact hb'.withIndex _
    · simpa only [View.put, Function.update_of_ne heq] using hb'
  · have hsb : s ≠ b := fun heq => by
      subst heq
      obtain ⟨-, hplace⟩ := hunique h' hh' (some q') hs
      have hq' : q' = q := Option.some.inj hplace
      rw [hq', Place.Leaf] at hleaf
      exact hfits.ne hleaf
    simp only [View.put, Function.update_of_ne hsb]

end TieredVolume
