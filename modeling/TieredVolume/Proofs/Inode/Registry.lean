import TieredVolume.Proofs.Inode.Account
import TieredVolume.Proofs.Inode.FiniteMap

/-!
The registry of open inodes, whoever uses it. An inode is open as long as somebody has a handle on
it, and all handles on it share what is known of it. Its record is in memory as long as one load of
it has not ended, whichever began first and whichever ends first; meanwhile all see the last change
of it, while its header is as it was. The last load to end puts the last change into the header.
-/
namespace TieredVolume
namespace Inode

open Volume

variable {n blocks : Nat} {t : Desk} {s : Sector} {nd : Node} {l : LoadedRecord}
  {A : Sector → Account} {a : Account} {faults : Fault → Prop}

/-! ### What is done -/

/-- Such accounts on the desk. -/
def desk (A : Sector → Account) : Desk := ⟨fun s => (A s).node, fun s => (A s).stored⟩

theorem desk_update : desk (Function.update A s a) =
    ((desk A).setNode s a.node).setHeader s a.stored :=
  congrArg₂ Desk.mk (Function.comp_update Account.node A s a)
    (Function.comp_update Account.stored A s a)

theorem desk_update_of_stored (h : a.stored = (A s).stored) :
    desk (Function.update A s a) = (desk A).setNode s a.node := by
  rw [desk_update, h]
  exact congrArg (Desk.mk _) (Function.update_eq_self s (desk A).header)

theorem open_does_account (hs : (A s).Sound) :
    Does (Lays blocks) faults («open» (n := n) s) (desk A) fun _ t' =>
      t' = desk (Function.update A s (A s).opened) := by
  refine open_lays.mono ?_
  rintro - t' rfl
  rw [desk_update_of_stored (Account.stored_congr (Account.loads_opened _) rfl rfl),
    Account.node_opened hs]
  rfl

def Deed.run (s : Sector) : Deed → VolumeM n Unit
  | «open» => Inode.open s
  | clone _ => Inode.open s
  | close _ => Inode.close s
  | load _ => Inode.load s
  | unload _ => Inode.unload s
  | modify _ f => updateRecord s fun r => .ok (f r)
  | raise _ c => c.raise s
  | lower _ c => c.lower s

/-- Every deed that can be done is done, and leaves what the account says. -/
theorem Deed.run_lays {d : Deed} (hs : (A s).Sound) (h : d.next (A s) = some a) :
    Does (Lays blocks) faults (d.run (n := n) s) (desk A) fun _ t' =>
      t' = desk (Function.update A s a) := by
  cases d with
  | «open» =>
    obtain rfl := Option.some.inj h
    exact open_does_account hs
  | clone i =>
    obtain ⟨-, ⟨⟩⟩ := Option.ite_none_right_eq_some.mp h
    exact open_does_account hs
  | close i =>
    obtain ⟨hi, ⟨⟩⟩ := Option.ite_none_right_eq_some.mp h
    have hn : (desk A).node s = _ := Account.node_eq (Account.ne_nil hi)
    rw [desk_update_of_stored (Account.stored_congr (Account.loads_closed hi) rfl rfl)]
    by_cases hmore : 1 < (A s).handles.length
    · rw [Account.node_closed_shared hi hmore]
      exact close_lays_shared hn hmore
    · rw [Account.node_closed_last hi hmore]
      exact close_lays_last hn hmore rfl
  | load i =>
    obtain ⟨hvalid, k, hi, rfl⟩ := Deed.next_load h
    have hn : (desk A).node s = _ := Account.node_eq (Account.ne_nil hi)
    rw [desk_update_of_stored (Account.stored_loaded hi), Account.node_loaded hi]
    by_cases hfirst : (A s).loads = 0
    · have hstored : (desk A).header s = (A s).latest := if_pos hfirst
      refine (load_lays_first hn (Account.memory_of_zero hfirst)
        (hstored ▸ hvalid.resolve_left (not_not.mpr hfirst))).mono ?_
      rintro - t' rfl
      rw [hstored, hfirst]
      rfl
    · refine (load_lays_nested hn (Account.memory_of_ne hfirst)).mono ?_
      rintro - t' rfl
      rw [Nat.sub_add_cancel (Nat.pos_of_ne_zero hfirst)]
      rfl
  | unload i =>
    obtain ⟨k, hi, rfl⟩ := Deed.next_unload h
    have hn : (desk A).node s = _ := Account.node_eq (Account.ne_nil hi)
    have hl := Account.memory_unloaded hi
    cases hlast : ((A s).unloaded i k).loads with
    | zero =>
      rw [hlast] at hl
      rw [desk_update, Account.node_unloaded hi, Account.memory_of_zero hlast, Account.stored,
        if_pos hlast]
      have hstored : (desk A).header s = (A s).before := if_neg (Account.loads_ne_zero hi)
      refine (unload_lays_last hn hl (hstored ▸ hs.before (Account.loads_ne_zero hi))).mono ?_
      rintro - t' rfl
      rfl
    | succ m =>
      have hmore : ((A s).unloaded i k).loads ≠ 0 := by omega
      rw [hlast] at hl
      rw [desk_update_of_stored (Account.stored_unloaded hi hmore), Account.node_unloaded hi,
        Account.memory_of_ne hmore, hlast]
      refine (unload_lays_nested hn hl).mono ?_
      rintro - t' rfl
      rfl
  | modify i f =>
    obtain ⟨k, hi, rfl⟩ := Deed.next_modify h
    have hn : (desk A).node s = _ := Account.node_eq (Account.ne_nil hi)
    rw [desk_update_of_stored (Account.stored_modified hi f), Account.node_modified hi]
    exact updateRecord_lays (f := fun r => .ok (f r)) hn
      (Account.memory_of_ne (Account.loads_ne_zero hi)) rfl
  | raise i c =>
    obtain ⟨hi, ⟨⟩⟩ := Option.ite_none_right_eq_some.mp h
    have hopen := Account.ne_nil_of_lt hi
    have hn : (desk A).node s = _ := Account.node_eq hopen
    refine (Counter.raise_lays hn).mono ?_
    rintro - t' rfl
    rw [desk_update_of_stored (Account.stored_counted _ c _), Account.node_counted hopen,
      Account.get_nodeWith]
  | lower i c =>
    obtain ⟨⟨hi, hpos⟩, ⟨⟩⟩ := Option.ite_none_right_eq_some.mp h
    have hopen := Account.ne_nil_of_lt hi
    have hn : (desk A).node s = _ := Account.node_eq hopen
    refine (Counter.lower_lays hn (by rwa [Account.get_nodeWith])).mono ?_
    rintro - t' rfl
    rw [desk_update_of_stored (Account.stored_counted _ c _), Account.node_counted hopen,
      Account.get_nodeWith]

/-! ### Whatever is done -/

/-- Deeds one after the other, each with the header sector of the inode that it is done to. -/
abbrev Deeds := List (Sector × Deed)

namespace Deeds

def run : Deeds → VolumeM n Unit
  | [] => pure ()
  | (s, d) :: rest => do
    d.run s
    run rest

def next : (Sector → Account) → Deeds → Option (Sector → Account)
  | A, [] => some A
  | A, (s, d) :: rest => (d.next (A s)).bind fun a => next (Function.update A s a) rest

/-- The record of an inode after all changes of it. -/
def change (s : Sector) : Record → Deeds → Record
  | r, [] => r
  | r, (s', d) :: rest => change s (if s' = s then d.change r else r) rest

variable {deeds : Deeds} {A' : Sector → Account}

theorem latest_next (h : deeds.next A = some A') (s : Sector) :
    (A' s).latest = change s (A s).latest deeds := by
  induction deeds generalizing A with
  | nil => rw [← Option.some.inj h, change]
  | cons deed rest ih =>
    obtain ⟨s', d⟩ := deed
    obtain ⟨a, ha, hrest⟩ := Option.bind_eq_some_iff.mp h
    rw [ih hrest, change]
    by_cases hs : s' = s
    · rw [if_pos hs, ← hs, Function.update_self, Deed.latest_next ha]
    · rw [if_neg hs, Function.update_of_ne (Ne.symm hs)]

theorem run_lays (hs : ∀ s, (A s).Sound) (h : deeds.next A = some A') :
    Does (Lays blocks) faults (run (n := n) deeds) (desk A) fun _ t' =>
      t' = desk A' ∧ ∀ s, (A' s).Sound := by
  induction deeds generalizing A with
  | nil =>
    obtain rfl := Option.some.inj h
    exact Does.pure ⟨rfl, hs⟩
  | cons deed rest ih =>
    obtain ⟨s, d⟩ := deed
    obtain ⟨a, ha, hrest⟩ := Option.bind_eq_some_iff.mp h
    refine Does.andThen (Deed.run_lays (hs s) ha) ?_
    rintro - t' rfl
    refine ih (fun s' => ?_) hrest
    by_cases hs' : s' = s
    · rw [hs', Function.update_self]
      exact (hs s).next ha
    · rw [Function.update_of_ne hs']
      exact hs s'

end Deeds

/-! ### What the registry tells -/

/-- What is told of the accounts. An inode is open just if there is a handle on it, and all handles
are told the same. Through a load that has not ended the record is seen as it was changed last, while
the header holds what was in it before the outermost load; with no load left it holds the last
change. That is also what the next load sees. -/
structure Tells (A : Sector → Account) (v : Volume n) : Prop where
  isOpen : ∀ s, Inode.isOpen s v = .ok (decide ((A s).handles ≠ [])) v
  openCount : v.table.length = {s | (A s).handles ≠ []}.ncard
  node : ∀ s, (A s).handles ≠ [] → ∃ nd, Inode.node s v = .ok nd v ∧
    nd.openers = (A s).handles.length ∧ ∀ c : Counter, c.get nd = (A s).counts c
  record : ∀ s, 0 < (A s).loads → Inode.record s v = .ok (A s).latest v
  header : ∀ s, Record.ofBlock (v.view.block s) =
    if 0 < (A s).loads then (A s).before else (A s).latest
  reload : ∀ s, (A s).handles ≠ [] → 0 < (A s).loads ∨ (A s).latest.isValid →
    ∃ v', Inode.load s v = .ok () v' ∧ Inode.record s v' = .ok (A s).latest v'

theorem Lays.node_eq_ok {v : Volume n} (hv : Lays blocks v t) (hn : t.node s = some nd) :
    Inode.node s v = .ok nd v := by
  have hfind := hv.node s
  rw [hn] at hfind
  have hnode : Yields never (Inode.node (n := n) s) v fun a v' => a = nd ∧ v' = v := by
    refine Yields.bind (Yields.get ?_)
    rw [hfind]
    exact Yields.pure ⟨rfl, rfl⟩
  obtain ⟨_, _, hok, rfl, rfl⟩ := hnode.ok_of_never
  exact hok

theorem Lays.record_eq_ok {v : Volume n} (hv : Lays blocks v t) (hn : t.node s = some nd)
    (hl : nd.loaded = some l) : Inode.record s v = .ok l.record v := by
  simp only [Inode.record, Bind.bind, EStateM.bind, hv.node_eq_ok hn, hl]
  rfl

theorem Lays.tells {v : Volume n} (hv : Lays blocks v (desk A)) (hs : ∀ s, (A s).Sound) :
    Tells A v where
  isOpen := fun s => by
    have hsome : (v.table.find? s).isSome = decide ((A s).handles ≠ []) := by
      rw [hv.node, Bool.eq_iff_iff, Option.isSome_iff_ne_none, decide_eq_true_iff]
      exact Account.node_ne_none
    rw [← hsome]
    rfl
  openCount := by
    rw [OpenTable.length_eq_ncard hv.keys]
    congr 1
    ext s
    rw [Set.mem_ofPred_eq, Set.mem_ofPred_eq, hv.node]
    exact Account.node_ne_none
  node := fun s hopen => ⟨_, hv.node_eq_ok (Account.node_eq hopen), rfl,
    fun c => Account.get_nodeWith c _⟩
  record := fun s hpos => by
    have hloads := Nat.ne_of_gt hpos
    exact hv.record_eq_ok (Account.node_eq (Account.ne_nil_of_loads hloads))
      (Account.memory_of_ne hloads)
  header := fun s => by
    have hstored : Record.ofBlock (v.view.block s) = (A s).stored := hv.header s
    rw [hstored, Account.stored]
    by_cases hloads : (A s).loads = 0
    · rw [if_pos hloads, if_neg (by omega)]
    · rw [if_neg hloads, if_pos (by omega)]
  reload := fun s hopen hvalid => by
    obtain ⟨k, hi⟩ : ∃ k, (A s).handles[0]? = some k :=
      ⟨_, List.getElem?_eq_getElem (List.length_pos_of_ne_nil hopen)⟩
    have hnext : (Deed.load 0).next (A s) = some ((A s).loaded 0 k) :=
      (if_pos (hvalid.imp_left Nat.ne_of_gt)).trans (Option.map_eq_some_iff.mpr ⟨k, hi, rfl⟩)
    have hrun : Yields never (load (n := n) s) v _ := Deed.run_lays (hs s) hnext v hv
    obtain ⟨_, v', hok, _, hv', rfl⟩ := hrun.ok_of_never
    have hn : (desk (Function.update A s ((A s).loaded 0 k))).node s = _ :=
      (congrArg Account.node (Function.update_self ..)).trans (Account.node_loaded hi)
    exact ⟨v', hok, hv'.record_eq_ok hn rfl⟩

theorem lays_idle {v : Volume n} (hcache : Cache.Usable blocks v.cache) (htable : v.table = []) :
    Lays blocks v (desk fun s => .idle (Record.ofBlock (v.view.block s))) where
  cache := hcache
  keys := by
    rw [htable]
    exact List.nodup_nil
  node := fun s => by
    rw [htable]
    rfl
  header := fun _ => rfl

/-- Whatever was done with the inodes of a volume none of which was open, it could be done, and the
registry tells the accounts. No change of a record is lost. -/
theorem registry_exact {v₀ : Volume n} {deeds : Deeds} (hcache : Cache.Usable blocks v₀.cache)
    (htable : v₀.table = [])
    (hdeeds : deeds.next (fun s => .idle (Record.ofBlock (v₀.view.block s))) = some A) :
    ∃ v, deeds.run v₀ = .ok () v ∧ Tells A v ∧
      ∀ s, (A s).latest = Deeds.change s (Record.ofBlock (v₀.view.block s)) deeds := by
  have hrun : Yields never (Deeds.run (n := n) deeds) v₀ _ :=
    Deeds.run_lays (fun s => Account.sound_idle _) hdeeds v₀ (lays_idle hcache htable)
  obtain ⟨_, v, hok, _, hv, rfl, hsound⟩ := hrun.ok_of_never
  exact ⟨v, hok, hv.tells hsound, Deeds.latest_next hdeeds⟩

/-- Two loads of the root of a new volume that overlap, with a change of its length through the one
that began first and ended first. -/
def overlapping : Deeds := [
  (rootSector, .open), (rootSector, .clone 0), (rootSector, .load 0),
  (rootSector, .modify 0 (·.withLength 77)), (rootSector, .load 1), (rootSector, .unload 0)]

theorem registry_exact_overlapping : ∃ (v₀ v : Volume cacheCapacity) (A : Sector → Account),
    Cache.Usable 8 v₀.cache ∧ v₀.table = [] ∧
    overlapping.next (fun s => .idle (Record.ofBlock (v₀.view.block s))) = some A ∧
    (A rootSector).handles = [0, 1] ∧ overlapping.run v₀ = .ok () v ∧ Tells A v := by
  have hsound : (Device.memory (MemoryDisk.blank 8)).Sound := trivial
  obtain ⟨v₀, -, w, hv, hw⟩ : ∃ v, mount (.memory (MemoryDisk.blank 8)) { format := true } =
      .ok (.ok v) ∧ Stores 8 v .blank := mount_eq_ok hsound (by decide) (by decide) rfl
  have htable : v₀.table = [] :=
    OpenTable.eq_nil fun s => find?_of_none hv (congrFun hw.node s)
  have hroot : (Record.ofBlock (v₀.view.block rootSector)).Is .data := by
    have hheader := (hv.wellFormed (hw.forest.wellFormed rfl)).header
    rwa [View.header, hv.loaded, hw.unloaded, Option.getD_none] at hheader
  obtain ⟨A, hA, hhandles⟩ : ∃ A, overlapping.next
      (fun s => .idle (Record.ofBlock (v₀.view.block s))) = some A ∧
      (A rootSector).handles = [0, 1] := by
    simp [overlapping, Deeds.next, Deed.next, Account.idle, Account.opened, Account.loaded,
      Account.modified, Account.unloaded, Account.loads, hroot.isValid]
  obtain ⟨v, hrun, htells, -⟩ := registry_exact (hw.total ▸ hv.usable) htable hA
  exact ⟨v₀, v, A, hw.total ▸ hv.usable, htable, hA, hhandles, hrun, htells⟩

end Inode
end TieredVolume
