import Mathlib.Data.Set.Card
import TieredVolume.Inode.Lifetime
import TieredVolume.Proofs.Cache.History
import TieredVolume.Proofs.View

/-!
The table of open inodes and the headers they are read from, and what opening, closing and loading
do to them. Nothing is asked of what hangs on the headers, and an inode may be loaded many times over.
-/
namespace TieredVolume

/-! ### The table -/

namespace OpenTable

variable {t : OpenTable} {s s' : Sector} {node : Node}

theorem mem_keys : s ∈ t.map Prod.fst ↔ t.find? s ≠ none := by
  induction t with
  | nil => simp [find?]
  | cons p rest ih =>
    obtain ⟨k, v⟩ := p
    simp only [find?] at ih ⊢
    simp only [List.map_cons, List.mem_cons, List.lookup_cons, ih]
    by_cases hs : s = k
    · simp [hs]
    · simp only [hs, false_or, beq_eq_false_iff_ne.mpr hs]

theorem nodup_insert (h : (t.map Prod.fst).Nodup) : ((insert s node t).map Prod.fst).Nodup := by
  induction t with
  | nil => simp [insert]
  | cons p rest ih =>
    obtain ⟨k, v⟩ := p
    obtain ⟨hk, hrest⟩ := List.nodup_cons.mp h
    rw [insert]
    by_cases hs : s = k
    · rw [if_pos hs]
      exact List.nodup_cons.mpr ⟨hs ▸ hk, hrest⟩
    · rw [if_neg hs]
      refine List.nodup_cons.mpr ⟨fun hin => hk ?_, ih hrest⟩
      have hfind := mem_keys.mp hin
      rw [find?_insert, if_neg (Ne.symm hs)] at hfind
      exact mem_keys.mpr hfind

theorem nodup_erase (h : (t.map Prod.fst).Nodup) : ((erase s t).map Prod.fst).Nodup :=
  (List.filter_sublist.map _).nodup h

/-- With one node for each sector, there are as many nodes as open inodes. -/
theorem length_eq_ncard (h : (t.map Prod.fst).Nodup) :
    t.length = {s | t.find? s ≠ none}.ncard := by
  classical
  have hset : {s | t.find? s ≠ none} = ↑(t.map Prod.fst).toFinset := by
    ext s
    rw [List.coe_toFinset]
    exact mem_keys.symm
  rw [hset, Set.ncard_coe_finset, List.toFinset_card_of_nodup h, List.length_map]

theorem eq_nil (h : ∀ s, t.find? s = none) : t = [] := by
  have hkeys : t.map Prod.fst = [] := List.eq_nil_iff_forall_not_mem.mpr fun s hs =>
    mem_keys.mp hs (h s)
  exact List.map_eq_nil_iff.mp hkeys

end OpenTable

namespace Inode

open Volume

/-! ### The table and the headers -/

/-- What the table holds and what is in the headers. -/
structure Desk where
  node : Sector → Option Node
  header : Sector → Record

namespace Desk

def setNode (t : Desk) (s : Sector) (node : Option Node) : Desk :=
  { t with node := Function.update t.node s node }

def setHeader (t : Desk) (s : Sector) (r : Record) : Desk :=
  { t with header := Function.update t.header s r }

theorem node_setNode (t : Desk) (s : Sector) (node : Option Node) (s' : Sector) :
    (t.setNode s node).node s' = if s' = s then node else t.node s' := Function.update_apply ..

end Desk

variable {n blocks : Nat} {t : Desk} {s : Sector} {nd : Node} {r : Record} {l : LoadedRecord}
  {faults : Fault → Prop}

/-- The volume has this table and these headers. -/
structure Lays (blocks : Nat) (v : Volume n) (t : Desk) : Prop where
  cache : Cache.Usable blocks v.cache
  keys : (v.table.map Prod.fst).Nodup
  node : ∀ s, v.table.find? s = t.node s
  header : ∀ s, Record.ofBlock ((v.cache.current s).getD Block.zero) = t.header s

/-- A sector past the end of the device holds no record. -/
theorem Lays.exists_current {v : Volume n} (hv : Lays blocks v t) (hr : (t.header s).isValid) :
    ∃ b, v.cache.current s = some b ∧ Record.ofBlock b = t.header s := by
  have hheader := hv.header s
  cases hb : v.cache.current s with
  | some b => exact ⟨b, rfl, by rwa [hb, Option.getD_some] at hheader⟩
  | none =>
    rw [← hheader, hb, Option.getD_none] at hr
    exact absurd hr (by decide)

theorem node_lays (hn : t.node s = some nd) :
    Does (Lays blocks) faults (node (n := n) s) t fun nd' t' => nd' = nd ∧ t' = t := fun v hv => by
  refine Yields.bind (Yields.get ?_)
  rw [hv.node, hn]
  exact Yields.pure ⟨t, hv, rfl, rfl⟩

theorem setNode_lays : Does (Lays blocks) faults (setNode (n := n) s nd) t fun _ t' =>
    t' = t.setNode s (some nd) := fun v hv => by
  refine Yields.modify ⟨t.setNode s (some nd), ⟨hv.cache, OpenTable.nodup_insert hv.keys,
    fun s' => ?_, hv.header⟩, rfl⟩
  rw [OpenTable.find?_insert, hv.node, Desk.node_setNode]

theorem erase_lays : Does (Lays blocks) faults
    (modify fun v : Volume n => { v with table := v.table.erase s }) t fun _ t' =>
      t' = t.setNode s none := fun v hv => by
  refine Yields.modify ⟨t.setNode s none, ⟨hv.cache, OpenTable.nodup_erase hv.keys,
    fun s' => ?_, hv.header⟩, rfl⟩
  rw [OpenTable.find?_erase, hv.node, Desk.node_setNode]

/-- A change of the cache alone. -/
theorem Lays.withCache {v : Volume n} {c : Cache n} {touched : Set Sector}
    {next : Sector → Option Block} {header : Sector → Record} (hv : Lays blocks v t)
    (hc : c.Coherent ∅) (hch : Cache.Changes touched next v.cache c)
    (hout : ∀ s' : Sector, blocks ≤ s'.block → next s' = none)
    (hheader : ∀ s', Record.ofBlock ((next s').getD Block.zero) = header s') :
    Lays blocks { v with cache := c } { t with header } where
  cache := hv.cache.of_changes hc hch
  keys := hv.keys
  node := hv.node
  header := fun s' => by
    have hnext := (hch.stepped hc (hv.cache.blockCount.symm ▸ hout)).current s'
    rw [hnext, hheader]

theorem fetch_lays (hr : (t.header s).isValid) :
    Does (Lays blocks) faults (onCache (n := n) (fetch s)) t fun r t' =>
      r = t.header s ∧ t' = t := fun v hv => by
  obtain ⟨b, hb, hheader⟩ := hv.exists_current hr
  refine Yields.onCache (Yields.andThen (Cache.readSector_yields hv.cache.coherent hv.cache.ready
    (by simp) hb) ?_)
  rintro b' c ⟨rfl, hc, hf⟩
  refine Yields.ofExcept (by rw [Record.validate, hheader, if_pos hr]) ⟨t, ?_, rfl, rfl⟩
  exact hv.withCache hc hf.changes_current
    (fun s' hs' => hv.cache.coherent.current_eq_none (hv.cache.blockCount.symm ▸ hs')) hv.header

theorem store_lays (hr : (t.header s).isValid) :
    Does (Lays blocks) faults (onCache (n := n) (store s r)) t fun _ t' => t' = t.setHeader s r :=
    fun v hv => by
  obtain ⟨b, hb, -⟩ := hv.exists_current hr
  refine Yields.onCache ((Cache.writeSector_yields hv.cache.coherent hv.cache.ready (by simp) hb
    r.toBlock).mono ?_)
  rintro - c ⟨hc, hch, -⟩
  refine ⟨t.setHeader s r, hv.withCache hc hch (fun s' hs' => ?_) (fun s' => ?_), rfl⟩
  · have hnone := hv.cache.coherent.current_eq_none (hv.cache.blockCount.symm ▸ hs')
    rw [if_neg fun heq => ?_, hnone]
    rw [heq, hb] at hnone
    cases hnone
  · rw [Function.update_apply]
    by_cases hs : s' = s
    · rw [if_pos hs, if_pos hs, Option.getD_some, Record.ofBlock_toBlock]
    · rw [if_neg hs, if_neg hs]
      exact hv.header s'

/-! ### Opening, closing and loading -/

theorem open_lays : Does (Lays blocks) faults («open» (n := n) s) t fun _ t' =>
    t' = t.setNode s (some { (t.node s).getD {} with
      openers := ((t.node s).getD {}).openers + 1 }) := fun v hv => by
  refine Yields.bind (Yields.get ?_)
  rw [hv.node]
  exact setNode_lays v hv

/-- Closing an inode that others have open. -/
theorem close_lays_shared (hn : t.node s = some nd) (hmore : 1 < nd.openers) :
    Does (Lays blocks) faults (close (n := n) s) t fun _ t' =>
      t' = t.setNode s (some { nd with openers := nd.openers - 1 }) := by
  refine Does.andThen (node_lays hn) ?_
  rintro nd' t' ⟨rfl, rfl⟩
  rw [if_pos hmore]
  exact setNode_lays

/-- The last one to close an inode that was not removed ends its node. -/
theorem close_lays_last (hn : t.node s = some nd) (hlast : ¬ 1 < nd.openers)
    (hremoved : nd.removed = false) :
    Does (Lays blocks) faults (close (n := n) s) t fun _ t' => t' = t.setNode s none := by
  refine Does.andThen (node_lays hn) ?_
  rintro nd' t' ⟨rfl, rfl⟩
  rw [if_neg hlast, hremoved]
  refine Does.andThen erase_lays ?_
  rintro - t' rfl
  exact Does.pure rfl

theorem load_lays_first (hn : t.node s = some nd) (hl : nd.loaded = none)
    (hr : (t.header s).isValid) : Does (Lays blocks) faults (load (n := n) s) t fun _ t' =>
      t' = t.setNode s (some { nd with loaded := some { record := t.header s } }) := by
  refine Does.andThen (node_lays hn) ?_
  rintro nd' t' ⟨rfl, rfl⟩
  rw [hl]
  refine Does.andThen (fetch_lays hr) ?_
  rintro r t' ⟨rfl, rfl⟩
  exact setNode_lays

theorem load_lays_nested (hn : t.node s = some nd) (hl : nd.loaded = some l) :
    Does (Lays blocks) faults (load (n := n) s) t fun _ t' =>
      t' = t.setNode s (some { nd with loaded := some { l with nested := l.nested + 1 } }) := by
  refine Does.andThen (node_lays hn) ?_
  rintro nd' t' ⟨rfl, rfl⟩
  rw [hl]
  exact setNode_lays

theorem unload_lays_last (hn : t.node s = some nd) (hl : nd.loaded = some { nested := 0, record := r })
    (hr : (t.header s).isValid) : Does (Lays blocks) faults (unload (n := n) s) t fun _ t' =>
      t' = (t.setNode s (some { nd with loaded := none })).setHeader s r := by
  refine Does.andThen (node_lays hn) ?_
  rintro nd' t' ⟨rfl, rfl⟩
  rw [hl]
  refine Does.andThen setNode_lays ?_
  rintro - t' rfl
  exact store_lays hr

theorem unload_lays_nested {k : Nat} (hn : t.node s = some nd)
    (hl : nd.loaded = some { nested := k + 1, record := r }) :
    Does (Lays blocks) faults (unload (n := n) s) t fun _ t' =>
      t' = t.setNode s (some { nd with loaded := some { nested := k, record := r } }) := by
  refine Does.andThen (node_lays hn) ?_
  rintro nd' t' ⟨rfl, rfl⟩
  rw [hl]
  exact setNode_lays

theorem updateRecord_lays {f : Record → Except Fault Record} (hn : t.node s = some nd)
    (hl : nd.loaded = some l) (hf : f l.record = .ok r) :
    Does (Lays blocks) faults (updateRecord (n := n) s f) t fun _ t' =>
      t' = t.setNode s (some { nd with loaded := some { l with record := r } }) := by
  refine Does.andThen (node_lays hn) ?_
  rintro nd' t' ⟨rfl, rfl⟩
  rw [hl]
  exact Does.bind (Does.ofExcept hf setNode_lays)

/-! ### Counters -/

/-- What is counted of the use of an inode, whichever handle it is used by. -/
inductive Counter
  | descriptors
  | cwdUsers
  | denials
  deriving DecidableEq

namespace Counter

def get : Counter → Node → Nat
  | descriptors, nd => nd.descriptors
  | cwdUsers, nd => nd.cwdUsers
  | denials, nd => nd.denials

def set : Counter → Nat → Node → Node
  | descriptors, k, nd => { nd with descriptors := k }
  | cwdUsers, k, nd => { nd with cwdUsers := k }
  | denials, k, nd => { nd with denials := k }

def raise : Counter → Sector → VolumeM n Unit
  | descriptors => attach
  | cwdUsers => enterCwd
  | denials => denyWrite

def lower : Counter → Sector → VolumeM n Unit
  | descriptors => detach
  | cwdUsers => leaveCwd
  | denials => allowWrite

variable {c : Counter}

theorem raise_lays (hn : t.node s = some nd) :
    Does (Lays blocks) faults (c.raise (n := n) s) t fun _ t' =>
      t' = t.setNode s (some (c.set (c.get nd + 1) nd)) := by
  cases c with
  | descriptors | cwdUsers | denials =>
    refine Does.andThen (node_lays hn) ?_
    rintro nd' t' ⟨rfl, rfl⟩
    exact setNode_lays

theorem lower_lays (hn : t.node s = some nd) (hpos : c.get nd ≠ 0) :
    Does (Lays blocks) faults (c.lower (n := n) s) t fun _ t' =>
      t' = t.setNode s (some (c.set (c.get nd - 1) nd)) := by
  cases c with
  | descriptors | cwdUsers | denials =>
    refine Does.andThen (node_lays hn) ?_
    rintro nd' t' ⟨rfl, rfl⟩
    rw [Counter.get] at hpos
    dsimp only
    rw [if_neg hpos]
    exact setNode_lays

end Counter

end Inode
end TieredVolume
