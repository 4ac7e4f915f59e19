import TieredVolume.Inode.Load
import TieredVolume.Proofs.Space.Allocation

/-!
Open inodes and loaded records as the view shows them.
-/
namespace TieredVolume

namespace View

def setNode (w : View) (s : Sector) (node : Option Node) : View :=
  { w with node := Function.update w.node s node }

def setLoaded (w : View) (s : Sector) (record : Option Record) : View :=
  { w with loaded := Function.update w.loaded s record }

/-- The node of an inode that is opened once more. -/
def opened (w : View) (s : Sector) : View :=
  w.setNode s (some { (w.node s).getD {} with openers := ((w.node s).getD {}).openers + 1 })

end View

namespace Inode

open Volume

variable {n : Nat} {v : Volume n} {w : View} {s : Sector} {nd : Node} {r : Record}
  {faults : Fault → Prop}

/-- The node that the table holds, with the record that belongs to it. -/
theorem find?_of_node (h : Shows v w) (hn : w.node s = some nd) :
    v.table.find? s = some { nd with loaded := (w.loaded s).map ({ record := · }) } := by
  rw [← h.node] at hn
  rw [← h.loaded]
  simp only [view, Option.map_eq_some_iff] at hn ⊢
  obtain ⟨nd', hfind, rfl⟩ := hn
  rw [hfind]
  have hflat : nd'.loaded = (nd'.loaded.map (·.record)).map ({ record := · }) := by
    cases hl : nd'.loaded with
    | none => rfl
    | some l =>
      have hzero := h.sound.flat s nd' l hfind hl
      cases l
      simp only at hzero
      rw [hzero]
      rfl
  simp only [Option.bind_some, ← hflat]

theorem find?_of_none (h : Shows v w) (hn : w.node s = none) : v.table.find? s = none := by
  rw [← h.node] at hn
  simpa [view] using hn

theorem loaded_of_none (h : Shows v w) (hn : w.node s = none) : w.loaded s = none := by
  rw [← h.loaded]
  simp [view, find?_of_none h hn]

theorem bare_of_node (h : Shows v w) (hn : w.node s = some nd) : nd.loaded = none := by
  rw [← h.node] at hn
  simp only [view, Option.map_eq_some_iff] at hn
  obtain ⟨nd', -, rfl⟩ := hn
  rfl

/-- The view after a node is put into the table. -/
theorem shows_insert (h : Shows v w) (hflat : ∀ l, nd.loaded = some l → l.nested = 0) :
    Shows { v with table := v.table.insert s nd }
      ((w.setNode s (some { nd with loaded := none })).setLoaded s
        (nd.loaded.map (·.record))) where
  sound := ⟨h.sound.cache, h.sound.limit, h.sound.room, h.sound.mapUsed, fun t nd' l hfind hl => by
    rw [OpenTable.find?_insert] at hfind
    split at hfind
    · cases hfind
      exact hflat l hl
    · exact h.sound.flat t nd' l hfind hl⟩
  written := h.written
  tidy := h.tidy
  dirty := h.dirty
  total := h.total
  used := h.used
  node := by
    funext t
    simp only [view, OpenTable.find?_insert, View.setNode, View.setLoaded, ← h.node]
    by_cases ht : t = s
    · rw [ht, if_pos rfl, Function.update_self, Option.map_some]
    · rw [if_neg ht, Function.update_of_ne ht]
  loaded := by
    funext t
    simp only [view, OpenTable.find?_insert, View.setNode, View.setLoaded, ← h.loaded]
    by_cases ht : t = s
    · rw [ht, if_pos rfl, Function.update_self, Option.bind_some]
    · rw [if_neg ht, Function.update_of_ne ht]
  block := h.block

theorem shows_erase (h : Shows v w) (hl : w.loaded s = none) :
    Shows { v with table := v.table.erase s } (w.setNode s none) where
  sound := ⟨h.sound.cache, h.sound.limit, h.sound.room, h.sound.mapUsed, fun t nd' l hfind hl => by
    rw [OpenTable.find?_erase] at hfind
    split at hfind
    · cases hfind
    · exact h.sound.flat t nd' l hfind hl⟩
  written := h.written
  tidy := h.tidy
  dirty := h.dirty
  total := h.total
  used := h.used
  node := by
    funext t
    simp only [view, OpenTable.find?_erase, View.setNode, ← h.node]
    by_cases ht : t = s
    · rw [ht, if_pos rfl, Function.update_self, Option.map_none]
    · rw [if_neg ht, Function.update_of_ne ht]
  loaded := by
    funext t
    simp only [view, OpenTable.find?_erase, View.setNode]
    by_cases ht : t = s
    · rw [ht, if_pos rfl, hl, Option.bind_none]
    · rw [if_neg ht, ← h.loaded]
      rfl
  block := h.block

theorem setLoaded_eq_self (hl : w.loaded s = none) : w.setLoaded s none = w := by
  simp only [View.setLoaded, ← hl, Function.update_eq_self]

theorem setNode_eq_self (hn : w.node s = some nd) : w.setNode s (some nd) = w := by
  simp only [View.setNode, ← hn, Function.update_eq_self]

/-! ### Nodes -/

theorem node_does (hn : w.node s = some nd) :
    Does Shows faults (node (n := n) s) w fun nd' w' =>
      nd' = { nd with loaded := (w.loaded s).map ({ record := · }) } ∧ w' = w := by
  intro v h
  refine Yields.bind (Yields.get ?_)
  rw [find?_of_node h hn]
  exact Yields.pure ⟨w, h, rfl, rfl⟩

theorem setNode_does (hl : w.loaded s = none) (hnd : nd.loaded = none) :
    Does Shows faults (setNode (n := n) s nd) w fun _ w' => w' = w.setNode s (some nd) := by
  intro v h
  refine Yields.modify ⟨_, shows_insert h (by simp [hnd]), ?_⟩
  have hbare : { nd with loaded := none } = nd := by rw [← hnd]
  simp only [hnd, hbare, Option.map_none]
  exact setLoaded_eq_self (w := w.setNode s (some nd)) hl

theorem node_does_of_unloaded (hn : w.node s = some nd) (hl : w.loaded s = none) :
    Does Shows faults (node (n := n) s) w fun nd' w' => nd' = nd ∧ nd.loaded = none ∧ w' = w := by
  intro v h
  refine (node_does hn v h).mono ?_
  rintro nd' v' ⟨w', h', rfl, rfl⟩
  have hbare := bare_of_node h hn
  refine ⟨w', h', ?_, hbare, rfl⟩
  rw [hl, Option.map_none, ← hbare]

theorem open_does : Does Shows faults («open» (n := n) s) w fun _ w' => w' = w.opened s := by
  intro v h
  refine Yields.bind (Yields.get ?_)
  cases hn : w.node s with
  | none =>
    rw [find?_of_none h hn]
    refine Yields.modify ⟨_, shows_insert h nofun, ?_⟩
    have hl := loaded_of_none h hn
    simp only [View.opened, hn]
    exact setLoaded_eq_self (w := w.setNode s _) hl
  | some nd =>
    rw [find?_of_node h hn]
    have hbare := bare_of_node h hn
    refine Yields.modify ⟨_, shows_insert h (fun l hl => ?_), ?_⟩
    · simp only [Option.getD_some, Option.map_eq_some_iff] at hl
      obtain ⟨r, -, rfl⟩ := hl
      rfl
    · simp only [View.opened, hn, Option.getD_some, Option.map_map]
      have hsame : (w.loaded s).map ((·.record) ∘ ({ record := · } : Record → LoadedRecord)) =
          w.loaded s := by
        cases w.loaded s <;> rfl
      rw [hsame]
      simp only [View.setLoaded, View.setNode, Function.update_eq_self, ← hbare]

theorem erase_does (hl : w.loaded s = none) :
    Does Shows faults (modify fun v : Volume n => { v with table := v.table.erase s }) w
      fun _ w' => w' = w.setNode s none := fun _ h =>
  Yields.modify ⟨_, shows_erase h hl, rfl⟩

/-! ### Records -/

theorem load_does (hn : w.node s = some nd) (hl : w.loaded s = none) (hs : w.Stored s)
    (hvalid : (Record.ofBlock (w.block s)).isValid) :
    Does Shows faults (load (n := n) s) w fun _ w' =>
      w' = w.setLoaded s (some (Record.ofBlock (w.block s))) := by
  refine Does.andThen (node_does_of_unloaded hn hl) ?_
  rintro nd' w' ⟨rfl, hbare, rfl⟩
  rw [hbare]
  refine Does.andThen (fetch_does hs hvalid) ?_
  rintro r w' ⟨rfl, rfl⟩
  intro v h
  refine Yields.modify ⟨_, shows_insert h (by simp), ?_⟩
  have hself : w'.setNode s (some { nd' with loaded := none }) = w' := by
    rw [show ({ nd' with loaded := none } : Node) = nd' by rw [← hbare]]
    exact setNode_eq_self hn
  simp only [hself, Option.map_some]

theorem record_does (hn : w.node s = some nd) (hl : w.loaded s = some r) :
    Does Shows faults (record (n := n) s) w fun r' w' => r' = r ∧ w' = w := by
  refine Does.andThen (node_does hn) ?_
  rintro nd' w' ⟨rfl, rfl⟩
  rw [hl]
  exact Does.pure ⟨rfl, rfl⟩

/-- Putting another record, or none, beside an open inode. -/
theorem shows_reload (h : Shows v w) (hn : w.node s = some nd) (r? : Option Record) :
    Shows { v with table := v.table.insert s { nd with loaded := r?.map ({ record := · }) } }
      (w.setLoaded s r?) := by
  have hflat : ∀ l, ({ nd with loaded := r?.map ({ record := · }) } : Node).loaded = some l →
      l.nested = 0 := by simp
  have hinsert := shows_insert (s := s) h hflat
  have hsame : (r?.map ({ record := · } : Record → LoadedRecord)).map (·.record) = r? := by
    cases r? <;> rfl
  have hbare : ({ nd with loaded := none } : Node) = nd := by rw [← bare_of_node h hn]
  simpa only [hsame, hbare, setNode_eq_self hn] using hinsert

theorem updateRecord_does {f : Record → Except Fault Record} {r' : Record}
    (hn : w.node s = some nd) (hl : w.loaded s = some r) (hf : f r = .ok r') :
    Does Shows faults (updateRecord (n := n) s f) w fun _ w' =>
      w' = w.setLoaded s (some r') := by
  refine Does.andThen (node_does hn) ?_
  rintro nd' w' ⟨rfl, rfl⟩
  rw [hl]
  refine Does.bind (Does.ofExcept hf ?_)
  exact fun v h => Yields.modify ⟨_, shows_reload h hn (some r'), rfl⟩

theorem unload_does (hn : w.node s = some nd) (hl : w.loaded s = some r) (hs : w.Stored s) :
    Does Shows faults (unload (n := n) s) w fun _ w' =>
      w' = (w.setLoaded s none).put s r.toBlock := by
  refine Does.andThen (node_does hn) ?_
  rintro nd' w' ⟨rfl, rfl⟩
  rw [hl]
  refine Does.andThen (p := fun _ w'' => w'' = w'.setLoaded s none)
    (fun v h => Yields.modify ⟨_, shows_reload h hn none, rfl⟩) ?_
  rintro - w'' rfl
  exact store_does (w := w'.setLoaded s none) hs r

end Inode
end TieredVolume
