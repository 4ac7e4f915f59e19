import TieredVolume.Inode.Lifetime
import TieredVolume.Proofs.Inode.Shelf

/-!
Giving back the sectors of an inode. What hangs on a header is listed in the order in which it is
given back, each block after what hangs on it; the list names what is linked at the places of the
tree, each sector once.
-/
namespace TieredVolume

open View

variable {w w' : View} {live spare : Set Sector} {h b s t : Sector} {slot : Fin 79}
  {up : List (Fin 64)} {faults : Fault → Prop} {n : Nat}

/-! ### Sectors that hang on a list of links -/

/-- The sector that link `i` leads to. -/
def linkAt (raws : List UInt32) (i : Nat) : Option Sector := raws[i]?.bind Sector.decode

/-- What hangs on links, of which the first has the number `start`, as `f` tells for each. -/
def hungFrom (f : Nat → Sector → List Sector) : (start : Nat) → List UInt32 → List Sector
  | _, [] => []
  | start, raw :: rest => (Sector.decode raw).elim [] (f start) ++ hungFrom f (start + 1) rest

section Hung

variable {f : Nat → Sector → List Sector} {start : Nat} {raws : List UInt32}

theorem mem_hungFrom :
    t ∈ hungFrom f start raws ↔ ∃ i s, linkAt raws i = some s ∧ t ∈ f (start + i) s := by
  induction raws generalizing start with
  | nil => simp [hungFrom, linkAt]
  | cons raw rest ih =>
    rw [hungFrom, List.mem_append, ih]
    constructor
    · rintro (hfirst | ⟨i, s, hlink, ht⟩)
      · cases hs : Sector.decode raw with
        | none => simp [hs] at hfirst
        | some s => exact ⟨0, s, by simp [linkAt, hs], by simpa [hs] using hfirst⟩
      · exact ⟨i + 1, s, by simpa [linkAt] using hlink, by rwa [Nat.add_right_comm] at ht⟩
    · rintro ⟨i, s, hlink, ht⟩
      cases i with
      | zero =>
        have hs : Sector.decode raw = some s := by simpa [linkAt] using hlink
        exact .inl (by simpa [hs] using ht)
      | succ i => exact .inr ⟨i, s, by simpa [linkAt] using hlink, by rwa [Nat.add_right_comm]⟩

theorem nodup_hungFrom (hnodup : ∀ i s, linkAt raws i = some s → (f (start + i) s).Nodup)
    (hdisjoint : ∀ i j s s', i ≠ j → linkAt raws i = some s → linkAt raws j = some s' →
      ∀ t ∈ f (start + i) s, t ∉ f (start + j) s') : (hungFrom f start raws).Nodup := by
  induction raws generalizing start with
  | nil => exact List.nodup_nil
  | cons raw rest ih =>
    have hrest : ∀ i, linkAt (raw :: rest) (i + 1) = linkAt rest i := fun i => by simp [linkAt]
    have hsum : ∀ i, start + 1 + i = start + (i + 1) := fun i => by omega
    rw [hungFrom, List.nodup_append]
    refine ⟨?_, ih (fun i s hs => ?_) fun i j s s' hij hs hs' => ?_, ?_⟩
    · cases hs : Sector.decode raw with
      | none => exact List.nodup_nil
      | some s => exact hnodup 0 s (by simp [linkAt, hs])
    · rw [hsum]
      exact hnodup (i + 1) s ((hrest i).trans hs)
    · rw [hsum, hsum]
      exact hdisjoint (i + 1) (j + 1) s s' (by omega) ((hrest i).trans hs) ((hrest j).trans hs')
    · intro t ht t' ht' heq
      subst heq
      cases hs : Sector.decode raw with
      | none => simp [hs] at ht
      | some s =>
        obtain ⟨j, s', hs', ht'⟩ := mem_hungFrom.mp ht'
        rw [hsum] at ht'
        exact hdisjoint 0 (j + 1) s s' (by omega) (by simp [linkAt, hs]) ((hrest j).trans hs') t
          (by simpa [hs] using ht) ht'

end Hung

/-! ### The sectors of a tree -/

/-- The links of an index block. -/
def blockLinksOf (block : Sector → Block) (b : Sector) : List UInt32 :=
  (Record.ofBlock (block b)).index.toList.take (Record.linkCount .indexBlock)

/-- A sector behind all that hangs on it through `depth` levels of index blocks. -/
def below (block : Sector → Block) : (depth : Nat) → Sector → List Sector
  | 0, b => [b]
  | depth + 1, b => hungFrom (fun _ => below block depth) 0 (blockLinksOf block b) ++ [b]

/-- Whether the index blocks down to `depth` levels are what they should be. -/
def Sprouts (block : Sector → Block) : (depth : Nat) → Sector → Prop
  | 0, _ => True
  | depth + 1, b => (Record.ofBlock (block b)).Is .indexBlock ∧
      ∀ i c, linkAt (blockLinksOf block b) i = some c → Sprouts block depth c

/-- What hangs on the header of an inode. -/
def View.contents (w : View) (h : Sector) : List Sector :=
  hungFrom (fun slot => below w.block (IndexPath.depthOf slot)) 0 (w.header h).index.toList

/-- All sectors of an inode. -/
def View.tree (w : View) (h : Sector) : List Sector := h :: w.contents h

theorem linkAt_block {i : Nat} : linkAt (blockLinksOf w.block b) i = some s ↔
    ∃ c : Fin 64, c.val = i ∧ w.child b c = some s := by
  have hlen : (Record.ofBlock (w.block b)).index.toList.length = 79 := by simp
  simp only [linkAt, blockLinksOf, Record.linkCount, child]
  by_cases hi : i < 64
  · rw [List.getElem?_take_of_lt hi, List.getElem?_eq_getElem (by omega), Option.bind_some]
    simp only [Vector.getElem_toList]
    constructor
    · intro hs
      exact ⟨⟨i, hi⟩, rfl, hs⟩
    · rintro ⟨c, rfl, hs⟩
      exact hs
  · rw [List.getElem?_take_eq_none (Nat.not_lt.mp hi)]
    constructor
    · intro hnone
      cases hnone
    · rintro ⟨c, rfl, -⟩
      exact absurd c.isLt hi

theorem linkAt_header {i : Nat} : linkAt (w.header h).index.toList i = some s ↔
    ∃ slot : Fin 79, slot.val = i ∧ w.trail h slot [] = some s := by
  have hlen : (w.header h).index.toList.length = 79 := by simp
  simp only [linkAt, trail]
  by_cases hi : i < 79
  · rw [List.getElem?_eq_getElem (by omega), Option.bind_some]
    simp only [Vector.getElem_toList]
    constructor
    · intro hs
      exact ⟨⟨i, hi⟩, rfl, hs⟩
    · rintro ⟨slot, rfl, hs⟩
      exact hs
  · rw [List.getElem?_eq_none (by omega)]
    constructor
    · intro hnone
      cases hnone
    · rintro ⟨slot, rfl, -⟩
      exact absurd slot.isLt hi

theorem mem_below {depth : Nat} (hb : w.trail h slot up = some b) :
    t ∈ below w.block depth b ↔
      ∃ more, more.length ≤ depth ∧ w.trail h slot (more ++ up) = some t := by
  induction depth generalizing up b with
  | zero =>
    rw [below, List.mem_singleton]
    constructor
    · rintro rfl
      exact ⟨[], by simp, hb⟩
    · rintro ⟨more, hlen, ht⟩
      rw [List.length_eq_zero_iff.mp (Nat.le_zero.mp hlen), List.nil_append, hb] at ht
      exact (Option.some.inj ht).symm
  | succ depth ih =>
    rw [below, List.mem_append, mem_hungFrom, List.mem_singleton]
    constructor
    · rintro (⟨i, s, hs, ht⟩ | rfl)
      · obtain ⟨c, -, hc⟩ := linkAt_block.mp hs
        have hchild : w.trail h slot (c :: up) = some s := by rw [trail, hb, Option.bind_some, hc]
        obtain ⟨more, hlen, ht⟩ := (ih hchild).mp ht
        refine ⟨more ++ [c], ?_, by rwa [List.append_assoc, List.singleton_append]⟩
        rw [List.length_append, List.length_singleton]
        omega
      · exact ⟨[], by simp, hb⟩
    · rintro ⟨more, hlen, ht⟩
      rcases List.eq_nil_or_concat more with rfl | ⟨more, c, rfl⟩
      · rw [List.nil_append, hb] at ht
        exact .inr (Option.some.inj ht).symm
      · rw [List.concat_eq_append, List.append_assoc, List.singleton_append] at ht
        rw [List.concat_eq_append, List.length_append, List.length_singleton] at hlen
        cases hc : w.child b c with
        | none =>
          have hnone : w.trail h slot (c :: up) = none := by rw [trail, hb, Option.bind_some, hc]
          rw [trail_append_none hnone] at ht
          cases ht
        | some s =>
          refine .inl ⟨c.val, s, linkAt_block.mpr ⟨c, rfl, hc⟩, ?_⟩
          have hchild : w.trail h slot (c :: up) = some s := by rw [trail, hb, Option.bind_some, hc]
          exact (ih hchild).mpr ⟨more, by omega, ht⟩

theorem nodup_below {depth : Nat} (hb : w.trail h slot up = some b)
    (hlen : up.length + depth ≤ IndexPath.depthOf slot)
    (hunique : ∀ u u' t, u.length ≤ IndexPath.depthOf slot → u'.length ≤ IndexPath.depthOf slot →
      w.trail h slot u = some t → w.trail h slot u' = some t → u = u') :
    (below w.block depth b).Nodup := by
  induction depth generalizing up b with
  | zero => simp [below]
  | succ depth ih =>
    have hchild : ∀ c s, w.child b c = some s → w.trail h slot (c :: up) = some s :=
      fun c s hc => by rw [trail, hb, Option.bind_some, hc]
    have hfits : ∀ (c : Fin 64) (more : List (Fin 64)), more.length ≤ depth →
        (more ++ c :: up).length ≤ IndexPath.depthOf slot := fun c more hmore => by
      rw [List.length_append, List.length_cons]
      omega
    rw [below, List.nodup_append]
    refine ⟨nodup_hungFrom (fun i s hs => ?_) fun i j s s' hij hs hs' t ht ht' => ?_,
      by simp, ?_⟩
    · obtain ⟨c, -, hc⟩ := linkAt_block.mp hs
      exact ih (hchild c s hc) (by rw [List.length_cons]; omega)
    · obtain ⟨c, hci, hc⟩ := linkAt_block.mp hs
      obtain ⟨c', hci', hc'⟩ := linkAt_block.mp hs'
      obtain ⟨more, hmore, ht⟩ := (mem_below (hchild c s hc)).mp ht
      obtain ⟨more', hmore', ht'⟩ := (mem_below (hchild c' s' hc')).mp ht'
      have heq := hunique _ _ t (hfits c more hmore) (hfits c' more' hmore') ht ht'
      have hsame : ∀ (more : List (Fin 64)) (c : Fin 64), more ++ c :: up = more.concat c ++ up :=
        fun more c => by simp
      rw [hsame, hsame, List.append_cancel_right_eq] at heq
      have hcc : c = c' := by
        have hlast := congrArg List.getLast? heq
        simpa using hlast
      exact hij (by rw [← hci, ← hci', hcc])
    · intro t ht t' ht' heq
      rw [List.mem_singleton.mp ht'] at heq
      subst heq
      obtain ⟨i, s, hs, ht⟩ := mem_hungFrom.mp ht
      obtain ⟨c, -, hc⟩ := linkAt_block.mp hs
      obtain ⟨more, hmore, ht⟩ := (mem_below (hchild c s hc)).mp ht
      have heq := hunique _ _ t (hfits c more hmore) (by omega) ht hb
      have hlength := congrArg List.length heq
      rw [List.length_append, List.length_cons] at hlength
      omega

/-- The contents of an inode are what is linked at its places. -/
theorem View.mem_contents : t ∈ w.contents h ↔ ∃ p, w.link h p = some t := by
  rw [View.contents, mem_hungFrom]
  constructor
  · rintro ⟨i, s, hs, ht⟩
    obtain ⟨slot, rfl, hslot⟩ := linkAt_header.mp hs
    obtain ⟨more, hlen, ht⟩ := (mem_below hslot).mp ht
    rw [Nat.zero_add] at hlen
    rw [List.append_nil] at ht
    exact ⟨⟨slot, more, hlen⟩, ht⟩
  · rintro ⟨p, hp⟩
    cases htop : w.trail h p.slot [] with
    | none =>
      have hnone := trail_append_none htop p.up
      rw [List.append_nil] at hnone
      rw [View.link, hnone] at hp
      cases hp
    | some s =>
      refine ⟨p.slot.val, s, linkAt_header.mpr ⟨p.slot, rfl, htop⟩, (mem_below htop).mpr ?_⟩
      exact ⟨p.up, by rw [Nat.zero_add]; exact p.fits, by rw [List.append_nil]; exact hp⟩

theorem View.mem_tree : t ∈ w.tree h ↔ ∃ q, w.sector h q = some t := by
  rw [View.tree, List.mem_cons, View.mem_contents]
  constructor
  · rintro (rfl | ⟨p, hp⟩)
    · exact ⟨none, rfl⟩
    · exact ⟨some p, hp⟩
  · rintro ⟨- | p, hq⟩
    · exact .inl (Option.some.inj hq).symm
    · exact .inr ⟨p, hq⟩

namespace Forest

variable (hf : Forest w live spare) (hh : h ∈ live)

include hf hh

theorem trail_unique {slot slot' : Fin 79} {u u' : List (Fin 64)}
    (hu : u.length ≤ IndexPath.depthOf slot) (hu' : u'.length ≤ IndexPath.depthOf slot')
    (ht : w.trail h slot u = some t) (ht' : w.trail h slot' u' = some t) :
    slot = slot' ∧ u = u' := by
  have hplace := (hf.unique h hh h hh (some ⟨slot, u, hu⟩) (some ⟨slot', u', hu'⟩) t ht ht').2
  exact ⟨congrArg Place.slot (Option.some.inj hplace), congrArg Place.up (Option.some.inj hplace)⟩

theorem sprouts {depth : Nat} (hb : w.trail h slot up = some b)
    (hlen : up.length + depth = IndexPath.depthOf slot) : Sprouts w.block depth b := by
  induction depth generalizing up b with
  | zero => trivial
  | succ depth ih =>
    refine ⟨hf.index h hh ⟨slot, up, by omega⟩ b (by simp only [Place.Leaf]; omega) hb,
      fun i c hc => ?_⟩
    obtain ⟨i, -, hi⟩ := linkAt_block.mp hc
    have hchild : w.trail h slot (i :: up) = some c := by rw [trail, hb, Option.bind_some, hi]
    exact ih hchild (by rw [List.length_cons]; omega)

theorem nodup_contents : (w.contents h).Nodup := by
  refine nodup_hungFrom (fun i s hs => ?_) fun i j s s' hij hs hs' t ht ht' => ?_
  · obtain ⟨slot, rfl, hslot⟩ := linkAt_header.mp hs
    rw [Nat.zero_add]
    exact nodup_below hslot (by simp) fun u u' t hu hu' ht ht' =>
      (hf.trail_unique hh hu hu' ht ht').2
  · obtain ⟨slot, rfl, hslot⟩ := linkAt_header.mp hs
    obtain ⟨slot', rfl, hslot'⟩ := linkAt_header.mp hs'
    obtain ⟨more, hmore, ht⟩ := (mem_below hslot).mp ht
    obtain ⟨more', hmore', ht'⟩ := (mem_below hslot').mp ht'
    rw [Nat.zero_add] at hmore hmore'
    rw [List.append_nil] at ht ht'
    exact hij (congrArg Fin.val (hf.trail_unique hh hmore hmore' ht ht').1)

/-- The header of a file does not hang on it. -/
theorem notMem_contents : h ∉ w.contents h := fun hin => by
  obtain ⟨p, hp⟩ := View.mem_contents.mp hin
  have hplace := (hf.unique h hh h hh (some p) none h hp rfl).2
  cases hplace

theorem nodup_tree : (w.tree h).Nodup :=
  List.nodup_cons.mpr ⟨hf.notMem_contents hh, hf.nodup_contents hh⟩

end Forest

/-! ### Giving back -/

/-- The view with some sectors given back. -/
def View.freeAll (w : View) (gone : List Sector) : View :=
  { w with used := fun t => if t ∈ gone then false else w.used t }

theorem freeAll_nil (w : View) : w.freeAll [] = w := by
  simp only [View.freeAll, List.not_mem_nil, if_false]

theorem freeAll_append (w : View) (gone more : List Sector) :
    (w.freeAll gone).freeAll more = w.freeAll (gone ++ more) := by
  simp only [View.freeAll, View.mk.injEq, true_and, and_true]
  funext t
  by_cases ht : t ∈ more
  · simp [ht]
  · simp [ht]

theorem free_eq_freeAll (w : View) (s : Sector) : w.free s = w.freeAll [s] := by
  simp only [View.free, View.freeAll, View.mk.injEq, true_and, and_true]
  funext t
  by_cases ht : t = s
  · simp [ht]
  · simp [ht]

theorem stored_freeAll {gone : List Sector} :
    (w.freeAll gone).Stored t ↔ t ∉ gone ∧ w.Stored t := by
  by_cases ht : t ∈ gone
  · simp [Stored, View.freeAll, ht]
  · simp [Stored, View.freeAll, ht]

namespace Inode

open Volume

theorem releaseTree_does {depth : Nat} (hs : Sprouts w.block depth b)
    (hnodup : (below w.block depth b).Nodup) (hstored : ∀ t ∈ below w.block depth b, w.Stored t) :
    Does Shows faults (releaseTree (n := n) depth b) w fun _ w' =>
      w' = w.freeAll (below w.block depth b) := by
  induction depth generalizing w b with
  | zero =>
    refine (release_does (hstored b (List.mem_singleton.mpr rfl))).mono ?_
    rintro - w' rfl
    exact free_eq_freeAll w b
  | succ depth ih =>
    obtain ⟨hindex, hchildren⟩ := hs
    -- the children, one after the other
    have hforM : ∀ (raws : List UInt32) (start : Nat) (w : View),
        (∀ i c, linkAt raws i = some c → Sprouts w.block depth c) →
        (hungFrom (fun _ => below w.block depth) start raws).Nodup →
        (∀ t ∈ hungFrom (fun _ => below w.block depth) start raws, w.Stored t) →
        Does Shows faults ((raws.filterMap Sector.decode).forM (releaseTree (n := n) depth)) w
          fun _ w' => w' = w.freeAll (hungFrom (fun _ => below w.block depth) start raws) := by
      intro raws
      induction raws with
      | nil =>
        intro start w _ _ _
        exact Does.pure (freeAll_nil w).symm
      | cons raw rest ihrest =>
        intro start w hsprouts hnodup hstored
        have hlink : ∀ i, linkAt (raw :: rest) (i + 1) = linkAt rest i := fun i => by simp [linkAt]
        rw [hungFrom] at hnodup hstored ⊢
        cases hc : Sector.decode raw with
        | none =>
          rw [List.filterMap_cons_none hc]
          rw [hc] at hnodup hstored
          exact ihrest (start + 1) w (fun i c hi => hsprouts (i + 1) c ((hlink i).trans hi))
            hnodup hstored
        | some c =>
          rw [hc, Option.elim_some] at hnodup hstored
          rw [List.filterMap_cons_some hc]
          rw [List.nodup_append] at hnodup
          obtain ⟨hfirst, hrest, hdisjoint⟩ := hnodup
          change Does Shows faults (releaseTree depth c >>= fun _ =>
            (rest.filterMap Sector.decode).forM (releaseTree depth)) w _
          refine Does.andThen (ih (hsprouts 0 c (by simp [linkAt, hc])) hfirst fun t ht =>
            hstored t (List.mem_append_left _ ht)) ?_
          rintro - w' rfl
          refine (ihrest (start + 1) (w.freeAll (below w.block depth c))
            (fun i c hi => hsprouts (i + 1) c ((hlink i).trans hi)) hrest fun t ht => ?_).mono ?_
          · refine stored_freeAll.mpr ⟨fun hin => hdisjoint t hin t ht rfl, ?_⟩
            exact hstored t (List.mem_append_right _ ht)
          · rintro - w' rfl
            rw [freeAll_append]
            rfl
    rw [below] at hnodup hstored ⊢
    rw [List.nodup_append] at hnodup
    obtain ⟨hhung, -, hdisjoint⟩ := hnodup
    refine Does.andThen (fetch_does (hstored b (by simp)) hindex.isValid) ?_
    rintro node w' ⟨rfl, rfl⟩
    refine Does.bind (Does.ofExcept hindex.links ?_)
    refine Does.andThen (hforM _ 0 w' hchildren hhung fun t ht =>
      hstored t (List.mem_append_left _ ht)) ?_
    rintro - w'' rfl
    refine (release_does (stored_freeAll.mpr ⟨fun hin => ?_, hstored b (by simp)⟩)).mono ?_
    · exact hdisjoint b hin b (List.mem_singleton.mpr rfl) rfl
    · rintro - w'' rfl
      rw [free_eq_freeAll, freeAll_append]
      rfl

theorem releaseLinks_does {raws : List UInt32} {start : Nat}
    (hsprouts : ∀ i c, linkAt raws i = some c →
      Sprouts w.block (IndexPath.depthOf (start + i)) c)
    (hnodup : (hungFrom (fun slot => below w.block (IndexPath.depthOf slot)) start raws).Nodup)
    (hstored : ∀ t ∈ hungFrom (fun slot => below w.block (IndexPath.depthOf slot)) start raws,
      w.Stored t) :
    Does Shows faults (releaseLinks (n := n) start raws) w fun _ w' =>
      w' = w.freeAll (hungFrom (fun slot => below w.block (IndexPath.depthOf slot)) start raws) := by
  induction raws generalizing w start with
  | nil => exact Does.pure (freeAll_nil w).symm
  | cons raw rest ih =>
    have hlink : ∀ i, linkAt (raw :: rest) (i + 1) = linkAt rest i := fun i => by simp [linkAt]
    have hsum : ∀ i, start + 1 + i = start + (i + 1) := fun i => by omega
    rw [hungFrom] at hnodup hstored ⊢
    cases hc : Sector.decode raw with
    | none =>
      have hrun : releaseLinks (n := n) start (raw :: rest) = releaseLinks (start + 1) rest := by
        rw [releaseLinks, hc]
      rw [hrun]
      rw [hc] at hnodup hstored
      exact ih (fun i c hi => hsum i ▸ hsprouts (i + 1) c ((hlink i).trans hi)) hnodup hstored
    | some c =>
      rw [releaseLinks, hc]
      rw [hc, Option.elim_some] at hnodup hstored
      rw [List.nodup_append] at hnodup
      obtain ⟨hfirst, hrest, hdisjoint⟩ := hnodup
      refine Does.andThen (releaseTree_does (hsprouts 0 c (by simp [linkAt, hc])) hfirst
        fun t ht => hstored t (List.mem_append_left _ ht)) ?_
      rintro - w' rfl
      refine (ih (w := w.freeAll (below w.block (IndexPath.depthOf start) c))
        (fun i c hi => hsum i ▸ hsprouts (i + 1) c ((hlink i).trans hi)) hrest
        fun t ht => ?_).mono ?_
      · refine stored_freeAll.mpr ⟨fun hin => hdisjoint t hin t ht rfl, ?_⟩
        exact hstored t (List.mem_append_right _ ht)
      · rintro - w' rfl
        rw [freeAll_append]
        rfl

/-- The links of a header lead to all that hangs on it. -/
theorem releaseContents_links (hf : Forest w live spare) (hh : h ∈ live) :
    Does Shows faults (releaseLinks (n := n) 0 (w.header h).index.toList) w fun _ w' =>
      w' = w.freeAll (w.contents h) := by
  refine releaseLinks_does (fun i c hi => ?_) (hf.nodup_contents hh) fun t ht => ?_
  · obtain ⟨slot, rfl, hslot⟩ := linkAt_header.mp hi
    rw [Nat.zero_add]
    exact hf.sprouts hh hslot (by simp)
  · obtain ⟨p, hp⟩ := View.mem_contents.mp ht
    exact hf.link_stored hh hp

end Inode
end TieredVolume
