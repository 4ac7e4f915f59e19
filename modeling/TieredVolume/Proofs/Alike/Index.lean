import TieredVolume.Proofs.Alike.Basic
import TieredVolume.Proofs.Inode.Index

/-!
Setting sectors aside and binding them, twice over. Which sector is free first is told by the map
alone, and whatever was in it is overwritten before it is linked, so that two volumes with one view
bind the same sectors.
-/
namespace TieredVolume

open View

variable {w w₂ : View} {live spare : Set Sector} {h s : Sector} {slot : Fin 79} {up : List (Fin 64)}
  {r : Record} {nd : Node} {l first count stop : Nat} {c : Fin 64} {steps : List (Fin 64)} {b : Block}

theorem stored_take (hs : ¬ IsMap w.total s) : (w.take s b).Stored s :=
  ⟨Function.update_self .., hs⟩

theorem View.Stored.take (hs : w.Stored s) (t : Sector) : (w.take t b).Stored s := by
  refine ⟨?_, hs.2⟩
  by_cases hst : s = t
  · rw [hst]
    exact Function.update_self ..
  · exact (Function.update_of_ne hst ..).trans hs.1

/-- What was in a sector before it is overwritten is forgotten. -/
theorem put_take (w : View) (s : Sector) (b b' : Block) : (w.take s b).put s b' = w.take s b' := by
  simp only [View.put, View.take, Function.update_idem]

namespace Volume

/-- Both runs set aside the same sector, which is the first free one, or both are refused. -/
theorem allocate_inStep (htotal : w₂.total = w.total) (hused : w₂.used = w.used) :
    InStep (fun n => (allocate (n := n) 1).run) w w₂ fun
      | .ok s, w', w₂' => s.block < w.total ∧ w.total < sectorLimit ∧ w.used s = false ∧
          ¬ IsMap w.total s ∧ ∃ b b₂, w' = w.take s b ∧ w₂' = w₂.take s b₂
      | .error _, w', w₂' => w' = w ∧ w₂' = w₂ := by
  refine InStep.of_does allocate_tries allocate_tries ?_
  rintro (why | s) (why₂ | s₂) w' w₂' hx hy
  · obtain ⟨rfl, -, rfl⟩ := hx
    obtain ⟨rfl, -, rfl⟩ := hy
    exact ⟨rfl, rfl, rfl⟩
  · obtain ⟨-, hfull, -⟩ := hx
    obtain ⟨hlt, -, hfree, -⟩ := hy
    rw [hused, hfull s₂ (htotal ▸ hlt)] at hfree
    cases hfree
  · obtain ⟨hlt, -, hfree, -⟩ := hx
    obtain ⟨-, hfull, -⟩ := hy
    rw [← hused, hfull s (htotal ▸ hlt)] at hfree
    cases hfree
  · obtain ⟨hlt, hlimit, hfree, hmap, hbelow, b, rfl⟩ := hx
    obtain ⟨-, -, hfree₂, -, hbelow₂, b₂, rfl⟩ := hy
    rw [hused] at hfree₂ hbelow₂
    obtain hbefore | heq | hbefore := Nat.lt_trichotomy s.block s₂.block
    · rw [hbelow₂ s hbefore] at hfree
      cases hfree
    · obtain rfl := Sector.block_injective heq
      exact ⟨rfl, hlt, hlimit, hfree, hmap, b, b₂, rfl, rfl⟩
    · rw [hbelow s₂ hbefore] at hfree₂
      cases hfree₂

end Volume

namespace Inode

open Volume Attempt

/-! ### Looking up -/

theorem find?_alike (hf : Forest w live spare) (hh : h ∈ live) (hn : w.node h = some nd)
    (hl : w.loaded h = some r) : Alike (fun n => find? (n := n) h l) w := by
  by_cases hlogical : l < maxSectors
  · exact Alike.of_does (find?_does hf hh hn hl (.inl hlogical))
  · unfold find?
    rw [locate_eq_error (IndexPath.locate?_eq_none_iff.mpr (Nat.not_lt.mp hlogical))]
    exact InStep.andThen InStep.throw fun _ _ _ => False.elim

/-! ### Binding -/

/-- A fresh sector comes with contents of its own. -/
theorem allocateFor_inStep (data : Bool) :
    InStep (fun n => (allocateFor (n := n) data).run) w w fun
      | .ok s, w', w₂' => w' = w₂' ∧ w.used s = false ∧ ¬ IsMap w.total s ∧
          w' = w.take s (if data then Block.zero else Record.indexBlock.toBlock)
      | .error _, w', w₂' => w' = w₂' := by
  refine InStep.bind (allocate_inStep rfl rfl) ?_ fun _ _ _ hpost => hpost.1.trans hpost.2.symm
  rintro s _ _ ⟨-, -, hfree, hmap, b, b₂, rfl, rfl⟩
  refine InStep.always_bind (InStep.moved (fill_does (stored_take hmap) data)
    (fill_does (stored_take hmap) data) ((put_take ..).trans (put_take ..).symm) ?_)
  exact InStep.pure ⟨rfl, hfree, hmap, put_take ..⟩

/-- A fresh sector is hung on an index block, and binding goes on below it. -/
theorem hang_alike {node : Record} (hs : w.Stored s) (hnode : node.Is .indexBlock)
    (hrest : ∀ (fresh : Sector) (w' : View), w'.Stored fresh →
      (steps ≠ [] → w'.block fresh = Record.indexBlock.toBlock) →
      Alike (fun n => (bindBelow (n := n) steps fresh).run) w') :
    Alike (fun n => (do
      let fresh ← allocateFor (n := n) steps.isEmpty
      always do
        onCache (store s (← ofExcept (node.setLink .indexBlock c fresh.raw)))
      bindBelow steps fresh).run) w := by
  refine InStep.bind (allocateFor_inStep steps.isEmpty) ?_ fun _ _ _ => id
  rintro fresh _ _ ⟨rfl, hfree, hmap, rfl⟩
  have hne : fresh ≠ s := fun heq => by
    rw [heq, hs.1] at hfree
    cases hfree
  refine InStep.always_bind (Alike.moved (Does.bind (Does.ofExcept
    (hnode.setLink (show c.val < Record.linkCount .indexBlock from c.isLt) (by omega))
    (store_does (hs.take fresh) _))) ?_)
  have hfresh := stored_take (b := if steps.isEmpty then Block.zero else Record.indexBlock.toBlock) hmap
  refine hrest fresh _ hfresh fun hsteps => ?_
  refine (Function.update_of_ne hne ..).trans ((Function.update_self ..).trans (if_neg ?_))
  simpa using hsteps

/-- Below a fresh sector everything is still to be bound. -/
theorem bindBelow_fresh_alike (hs : w.Stored s)
    (hblock : steps ≠ [] → w.block s = Record.indexBlock.toBlock) :
    Alike (fun n => (bindBelow (n := n) steps s).run) w := by
  induction steps generalizing w s with
  | nil => exact InStep.pure rfl
  | cons c steps ih =>
    have hrecord : Record.ofBlock (w.block s) = Record.indexBlock := by
      rw [hblock (List.cons_ne_nil c steps), Record.ofBlock_toBlock]
    have hindex : Record.indexBlock.Is .indexBlock := Record.is_indexBlock
    have hlink := hindex.link (show c.val < Record.linkCount .indexBlock from c.isLt) (by omega)
    have hchild : Sector.decode Record.indexBlock.index[c.val] = none := by
      simp only [Record.indexBlock, Record.blank, Vector.getElem_replicate, Sector.decode_noneRaw]
    refine InStep.always_bind (Alike.known (fetch_does hs (hrecord ▸ hindex.isValid)) ?_)
    rw [hrecord]
    refine InStep.always_bind (Alike.known (Does.ofExcept hlink ⟨rfl, rfl⟩) ?_)
    simp only [hchild]
    exact hang_alike hs hindex fun fresh w' => ih

theorem bindBelow_alike (hf : Forest w live spare) (hh : h ∈ live) (hs : w.trail h slot up = some s)
    (hlen : steps.length + up.length = IndexPath.depthOf slot) :
    Alike (fun n => (bindBelow (n := n) steps s).run) w := by
  induction steps generalizing up s with
  | nil => exact InStep.pure rfl
  | cons c steps ih =>
    rw [List.length_cons] at hlen
    let q : Place := ⟨slot, up, by omega⟩
    have hindex := hf.index h hh q s (by simp only [Place.Leaf, q]; omega) hs
    have hstored : w.Stored s := hf.link_stored (p := q) hh hs
    have hlink := hindex.link (show c.val < Record.linkCount .indexBlock from c.isLt) (by omega)
    have hchild : w.child s c = Sector.decode (Record.ofBlock (w.block s)).index[c.val] := rfl
    refine InStep.always_bind (Alike.known (fetch_does hstored hindex.isValid) ?_)
    refine InStep.always_bind (Alike.known (Does.ofExcept hlink ⟨rfl, rfl⟩) ?_)
    rw [← hchild]
    cases hnext : w.child s c with
    | some next =>
      have htrail : w.trail h slot (c :: up) = some next := by
        rw [View.trail, hs, Option.bind_some, hnext]
      exact ih htrail (by rw [List.length_cons]; omega)
    | none => exact hang_alike hstored hindex fun fresh w' => bindBelow_fresh_alike

theorem bind_alike (hf : Forest w live spare) (hh : h ∈ live) (hn : w.node h = some nd)
    (hl : w.loaded h = some r) : Alike (fun n => (bind (n := n) h l).run) w := by
  unfold bind
  cases hpath : IndexPath.locate? l with
  | none =>
    rw [locate_eq_error hpath]
    exact InStep.always_bind (InStep.andThen InStep.throw fun _ _ _ => False.elim)
  | some path =>
    have hdata := hf.header h hh
    rw [header_of_loaded hl] at hdata
    have htop : w.trail h path.place.slot [] =
        Sector.decode (w.header h).index[path.place.slot.val] := rfl
    have hlink : ∀ {n : Nat}, Does Shows never
        (do ofExcept ((← record (n := n) h).link .data path.slot)) w fun raw w' =>
          raw = (w.header h).index[path.place.slot.val] ∧ w' = w := fun {n} => by
      refine Does.andThen (record_does hn hl) ?_
      rintro r' w' ⟨rfl, rfl⟩
      exact Does.ofExcept (link_header hf hh hl path) ⟨rfl, rfl⟩
    refine InStep.always_bind (Alike.known (Does.ofExcept (locate_eq_ok hpath) ⟨rfl, rfl⟩) ?_)
    refine InStep.always_bind (Alike.known hlink ?_)
    rw [← htop]
    cases hnext : w.trail h path.place.slot [] with
    | some next =>
      exact bindBelow_alike hf hh hnext (by
        rw [List.length_nil]
        exact (IndexPath.depthOf_slot path).symm)
    | none =>
      refine InStep.bind (allocateFor_inStep path.steps.isEmpty) ?_ fun _ _ _ => id
      rintro fresh _ _ ⟨rfl, -, hmap, rfl⟩
      refine InStep.always_bind (Alike.moved (updateRecord_does (w := w.take fresh _) hn hl
        (hdata.setLink path.slot_lt path.slot_lt)) ?_)
      have hfresh := stored_take
        (b := if path.steps.isEmpty then Block.zero else Record.indexBlock.toBlock) hmap
      refine bindBelow_fresh_alike hfresh fun hsteps => ?_
      exact (Function.update_self ..).trans (if_neg (by simpa using hsteps))

theorem bindRange_alike (hf : Forest w live spare) (hh : h ∈ live) (hn : w.node h = some nd)
    (hl : w.loaded h = some r) : Alike (fun n => (bindRange (n := n) h first count).run) w := by
  induction count generalizing w first r with
  | zero => exact InStep.pure rfl
  | succ count ih =>
    refine Alike.bind (bind_alike hf hh hn hl) (bind_tries hf hh hn hl (.inr trivial) subset_rfl) ?_
    rintro t w' ⟨hf', hg, -⟩
    obtain ⟨r', hl'⟩ := hg.exists_loaded hl
    exact ih hf' (by rw [hg.node, hn]) hl'

theorem bindThrough_alike (hf : Forest w live spare) (hh : h ∈ live) (hn : w.node h = some nd)
    (hl : w.loaded h = some r) : Alike (fun n => (bindThrough (n := n) h stop).run) w :=
  InStep.always_bind (Alike.known (record_does hn hl) (bindRange_alike hf hh hn hl))

end Inode
end TieredVolume
