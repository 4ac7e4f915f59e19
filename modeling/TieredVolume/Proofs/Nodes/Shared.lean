import TieredVolume.Proofs.Cache.Blind
import TieredVolume.Proofs.Nodes.Paths

/-!
An inode that is opened once more before it is read. Nothing that is read depends on how often it is
open, and closing it again takes the opening back; so whoever reads an inode can do so through the
handle that there is or through one of their own.
-/
namespace TieredVolume

open OpenTable (Same find?_insert insert_insert)

variable {n : Nat} {α : Type} {s t : Sector} {nd : Node} {v v' : Volume n}

/-- How a run goes on whose first part is known. -/
theorem run_bind_ok {σ β : Type} {x : EStateM Fault σ α} {f : α → EStateM Fault σ β} {a : α}
    {c c' : σ} (hx : x c = .ok a c') : (x >>= f) c = f a c' := by
  simp only [Bind.bind, EStateM.bind, hx]

theorem run_bind_error {σ β : Type} {x : EStateM Fault σ α} {f : α → EStateM Fault σ β} {e : Fault}
    {c c' : σ} (hx : x c = .error e c') : (x >>= f) c = .error e c' := by
  simp only [Bind.bind, EStateM.bind, hx]

/-- The node of an inode that one more has open. -/
def Node.shared (nd : Node) : Node := { nd with openers := nd.openers + 1 }

namespace OpenTable

variable {table : OpenTable}

theorem insert_comm {nd' : Node} (hne : s ≠ t) (h : table.find? s ≠ none) :
    insert t nd' (insert s nd table) = insert s nd (insert t nd' table) := by
  induction table with
  | nil => exact absurd rfl h
  | cons p rest ih =>
    obtain ⟨k, node⟩ := p
    by_cases hs : s = k
    · subst hs
      simp [insert, Ne.symm hne]
    · have hrest : find? rest s ≠ none := by
        rwa [find?, List.lookup_cons, beq_eq_false_iff_ne.mpr hs] at h
      by_cases ht : t = k
      · simp [insert, hs, ht]
      · simp [insert, hs, ht, ih hrest]

/-- The table with an inode open once more, if it is open. -/
def shared (s : Sector) (table : OpenTable) : OpenTable :=
  match table.find? s with
  | none => table
  | some nd => table.insert s nd.shared

theorem shared_eq (hfind : table.find? s = some nd) : table.shared s = table.insert s nd.shared := by
  rw [shared, hfind]

theorem find?_shared (hfind : table.find? s = some nd) :
    (table.shared s).find? s = some nd.shared := by
  rw [shared_eq hfind, find?_insert, if_pos rfl]

theorem shared_insert (table : OpenTable) (s : Sector) (nd : Node) :
    (table.insert s nd).shared s = table.insert s nd.shared := by
  rw [shared_eq ((find?_insert ..).trans (if_pos rfl)), insert_insert]

/-- What is put in for the node does not depend on what was there. -/
theorem insert_shared (hfind : table.find? s = some nd) (nd' : Node) :
    (table.shared s).insert s nd' = table.insert s nd' := by
  rw [shared_eq hfind, insert_insert]

theorem shared_insert_of_ne (hne : s ≠ t) (hfind : table.find? s = some nd) (nd' : Node) :
    (table.insert t nd').shared s = (table.shared s).insert t nd' := by
  have hfind' : (table.insert t nd').find? s = some nd := by rwa [find?_insert, if_neg hne]
  rw [shared_eq hfind', shared_eq hfind, insert_comm hne (by rw [hfind]; nofun)]

end OpenTable

/-- The same of a volume. -/
def Volume.shared (s : Sector) (v : Volume n) : Volume n := { v with table := v.table.shared s }

/-- The operation answers alike, whether or not the inode is open once more, and leaves it so. -/
abbrev BlindTo (s : Sector) (x : VolumeM n α) : Prop := Blind (Volume.shared s) x

theorem BlindTo.onCache (x : CacheM n α) : BlindTo s (Volume.onCache x) := by
  intro v
  simp only [Volume.onCache, Volume.shared]
  cases x v.cache <;> rfl

/-- Goes on with what an operation answers that does not look. -/
theorem BlindTo.bind_at {β : Type} {x : VolumeM n α} {k k' : α → VolumeM n β} (hx : BlindTo s x)
    (hk : ∀ a v', x v = .ok a v' → k' a (v'.shared s) = changed (Volume.shared s) (k a v')) :
    (x >>= k') (v.shared s) = changed (Volume.shared s) ((x >>= k) v) := by
  have hrun := hx v
  cases h : x v with
  | ok a v' =>
    rw [h] at hrun
    rw [run_bind_ok hrun, run_bind_ok h, hk a v' h]
  | error e v' =>
    rw [h] at hrun
    rw [run_bind_error hrun, run_bind_error h, changed]

namespace Inode

open Volume

theorem node_eq_ok (hfind : v.table.find? s = some nd) : node s v = .ok nd v := by
  have hget : (get : VolumeM n (Volume n)) v = .ok v v := rfl
  refine (run_bind_ok hget).trans ?_
  rw [hfind]
  rfl

theorem node_eq_error (hfind : v.table.find? s = none) : node s v = .error .notOpen v := by
  have hget : (get : VolumeM n (Volume n)) v = .ok v v := rfl
  refine (run_bind_ok hget).trans ?_
  rw [hfind]
  rfl

/-- What is done with a node looks only at what sharing it does not change. -/
theorem node_blind {k : Node → VolumeM n α}
    (hk : ∀ (v : Volume n) nd, v.table.find? s = some nd →
      k nd.shared (v.shared s) = changed (shared s) (k nd v)) : BlindTo s (node s >>= k) := by
  intro v
  cases hfind : v.table.find? s with
  | some nd =>
    rw [run_bind_ok (node_eq_ok hfind), run_bind_ok (node_eq_ok (OpenTable.find?_shared hfind)),
      hk v nd hfind]
  | none =>
    have hsame : v.shared s = v := by rw [Volume.shared, OpenTable.shared, hfind]
    rw [hsame, run_bind_error (node_eq_error hfind), changed, hsame]

theorem setNode_shared {nd₁ nd₂ : Node} (hfind : v.table.find? s = some nd)
    (hnode : nd₁ = nd₂.shared) :
    setNode s nd₁ (v.shared s) = changed (shared s) (setNode s nd₂ v) := by
  have hset : ∀ (nd : Node) (v : Volume n),
      setNode s nd v = .ok ⟨⟩ { v with table := v.table.insert s nd } := fun _ _ => rfl
  simp only [hset, changed, Volume.shared, hnode, OpenTable.insert_shared hfind,
    OpenTable.shared_insert]

theorem load_blind (s : Sector) : BlindTo s (load (n := n) s) := by
  refine node_blind fun v nd hfind => ?_
  have hloaded : nd.shared.loaded = nd.loaded := rfl
  simp only [hloaded]
  cases nd.loaded with
  | some l => exact setNode_shared hfind rfl
  | none =>
    refine BlindTo.bind_at (BlindTo.onCache _) fun r v' hrun => ?_
    have htable : v'.table = v.table := (Moves.onCache (R := Same) _ v).of_ok hrun
    exact setNode_shared (htable ▸ hfind) rfl

theorem unload_blind (s : Sector) : BlindTo s (unload (n := n) s) := by
  refine node_blind fun v nd hfind => ?_
  have hloaded : nd.shared.loaded = nd.loaded := rfl
  simp only [hloaded]
  match nd.loaded with
  | none => rfl
  | some ⟨0, r⟩ =>
    obtain ⟨v₁, hset⟩ : ∃ v₁, setNode s { nd with loaded := none } v = .ok ⟨⟩ v₁ := ⟨_, rfl⟩
    have hset' : setNode s { nd.shared with loaded := none } (v.shared s) = changed (shared s)
        (setNode s { nd with loaded := none } v) := setNode_shared hfind rfl
    rw [hset, changed] at hset'
    refine (run_bind_ok hset').trans ?_
    refine Eq.trans ?_ (congrArg (changed (shared s)) (run_bind_ok hset).symm)
    exact BlindTo.onCache _ v₁
  | some ⟨k + 1, r⟩ => exact setNode_shared hfind rfl

theorem record_blind (s : Sector) : BlindTo s (record (n := n) s) := by
  refine node_blind fun v nd hfind => ?_
  have hloaded : nd.shared.loaded = nd.loaded := rfl
  simp only [hloaded]
  cases nd.loaded <;> rfl

theorem withLoaded_blind {body : VolumeM n α} (h : BlindTo s body) : BlindTo s (withLoaded s body) :=
  (load_blind s).bind fun _ => h.bind fun _ => (unload_blind s).bind fun _ => Blind.pure _

theorem find?_blind (s : Sector) (l : Nat) : BlindTo s (find? (n := n) s l) := by
  refine (Blind.ofExcept _).bind fun path => (record_blind s).bind fun r =>
    (Blind.ofExcept _).bind fun raw => ?_
  cases Sector.decode raw with
  | none => exact Blind.pure _
  | some next => exact BlindTo.onCache _

theorem announceNext_blind (s : Sector) (length l : Nat) :
    BlindTo s (announceNext (n := n) s length l) := by
  refine Blind.ite ((find?_blind s _).bind fun next? => ?_) (Blind.pure _)
  cases next? with
  | none => exact Blind.pure _
  | some next => exact BlindTo.onCache _

theorem readSpans_blind (s : Sector) (length : Nat) (spans : List Span) (pieces : List Bytes) :
    BlindTo s (readSpans (n := n) s length spans pieces) := by
  induction spans generalizing pieces with
  | nil => exact Blind.pure _
  | cons span rest ih =>
    refine (find?_blind s _).bind fun sector? => ?_
    cases sector? with
    | none => exact Blind.pure _
    | some sector =>
      exact (BlindTo.onCache _).bind fun _ => (announceNext_blind s _ _).bind fun _ => ih _

theorem readAt_blind (s : Sector) (offset count : Nat) :
    BlindTo s (readAt (n := n) s offset count) :=
  withLoaded_blind <| (record_blind s).bind fun _ =>
    (readSpans_blind s _ _ _).bind fun _ => Blind.pure _

theorem parent_blind (s : Sector) : BlindTo s (parent (n := n) s) :=
  withLoaded_blind <| (record_blind s).bind fun _ => Blind.pure _

/-! ### Opening and closing -/

theorem open_eq (s : Sector) (v : Volume n) : «open» s v = .ok ⟨⟩ { v with
    table := v.table.insert s ((v.table.find? s).getD {}).shared } := rfl

theorem open_eq_shared (hfind : v.table.find? s = some nd) : «open» s v = .ok ⟨⟩ (v.shared s) := by
  rw [open_eq, hfind, Volume.shared, OpenTable.shared_eq hfind, Option.getD_some]

/-- Whether an inode is open once more makes no difference to the opening of any. -/
theorem open_shared (hfind : v.table.find? s = some nd) (t : Sector) :
    «open» t (v.shared s) = changed (shared s) («open» t v) := by
  simp only [open_eq, changed, Volume.shared]
  by_cases ht : s = t
  · subst ht
    rw [hfind, OpenTable.find?_shared hfind, OpenTable.insert_shared hfind, OpenTable.shared_insert]
    rfl
  · have hother : (v.table.shared s).find? t = v.table.find? t := by
      rw [OpenTable.shared_eq hfind, find?_insert, if_neg (Ne.symm ht)]
    rw [hother, OpenTable.shared_insert_of_ne ht hfind]

/-- Closing takes back one opening. -/
theorem close_shared (hfind : v.table.find? s = some nd) (hopen : 0 < nd.openers) :
    close s (v.shared s) = .ok ⟨⟩ v := by
  refine (run_bind_ok (node_eq_ok (OpenTable.find?_shared hfind))).trans ?_
  have hmore : 1 < nd.shared.openers := Nat.succ_lt_succ hopen
  rw [if_pos hmore]
  change EStateM.Result.ok PUnit.unit { v with table := (v.table.shared s).insert s nd } = _
  rw [OpenTable.insert_shared hfind, OpenTable.insert_of_find? hfind]

end Inode

namespace Directory

theorem findFrom_blind (dir : Sector) (p : Entry → Bool) (slots offset : Nat) :
    BlindTo dir (findFrom (n := n) dir p slots offset) := by
  induction slots generalizing offset with
  | zero => exact Blind.pure _
  | succ slots ih =>
    refine ((Inode.readAt_blind dir _ _).bind fun _ => Blind.pure _).bind fun entry? => ?_
    cases entry? with
    | none => exact Blind.pure _
    | some entry => exact Blind.ite (Blind.pure _) (ih _)

theorem lookup_blind (dir : Sector) (name : String) : BlindTo dir (lookup (n := n) dir name) :=
  findFrom_blind dir _ _ _

end Directory
end TieredVolume
