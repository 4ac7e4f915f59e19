import Mathlib.Algebra.BigOperators.Group.List.Basic
import TieredVolume.Proofs.Inode.Desk

/-!
The account of an inode that is open: the handles on it with their loads, what is counted of it, and
what became of its record. The account says what is in the table and what is in the header.
-/
namespace TieredVolume
namespace Inode

/-- The account of one inode: who has it open, and what became of its record. -/
structure Account where
  /-- The handles that are alive, each with the number of its loads that have not ended. -/
  handles : List Nat := []
  counts : Counter → Nat := fun _ => 0
  /-- The record as it was changed last. -/
  latest : Record
  /-- The record as it was before the outermost load that has not ended. -/
  before : Record

namespace Account

/-- Nobody has the inode open. -/
def idle (r : Record) : Account where
  latest := r
  before := r

/-- How many loads have not ended, through any handle. -/
def loads (a : Account) : Nat := a.handles.sum

/-- What is in the header. -/
def stored (a : Account) : Record := if a.loads = 0 then a.latest else a.before

/-- The node that counts what is counted here, with such a record in memory. -/
def nodeWith (a : Account) (loaded : Option LoadedRecord) : Node where
  openers := a.handles.length
  descriptors := a.counts .descriptors
  cwdUsers := a.counts .cwdUsers
  denials := a.counts .denials
  loaded := loaded

/-- What is in memory of it. -/
def memory (a : Account) : Option LoadedRecord :=
  if a.loads = 0 then none else some { nested := a.loads - 1, record := a.latest }

/-- What is in the table. -/
def node (a : Account) : Option Node :=
  if a.handles = [] then none else some (a.nodeWith a.memory)

/-- An inode that is opened once more. -/
def opened (a : Account) : Account := { a with handles := 0 :: a.handles }

/-- A handle that is closed. -/
def closed (a : Account) (i : Nat) : Account :=
  let handles := a.handles.eraseIdx i
  { a with handles, counts := if handles = [] then fun _ => 0 else a.counts }

/-- One load more through a handle that has `k`. -/
def loaded (a : Account) (i k : Nat) : Account :=
  { a with
    handles := a.handles.set i (k + 1)
    before := if a.loads = 0 then a.latest else a.before }

/-- A handle is left with `k` loads. -/
def unloaded (a : Account) (i k : Nat) : Account := { a with handles := a.handles.set i k }

def modified (a : Account) (f : Record → Record) : Account := { a with latest := f a.latest }

def counted (a : Account) (c : Counter) (k : Nat) : Account :=
  { a with counts := Function.update a.counts c k }

end Account

/-- What is done with an inode. A handle goes by its place among those that are alive. -/
inductive Deed
  | «open»
  | clone (i : Nat)
  | close (i : Nat)
  | load (i : Nat)
  | unload (i : Nat)
  | modify (i : Nat) (f : Record → Record)
  | raise (i : Nat) (c : Counter)
  | lower (i : Nat) (c : Counter)

namespace Deed

/-- The account after a deed, if it can be done: a handle that is used is alive, one that is closed
has no load left, what is loaded first holds a record, only what is loaded is changed, and nothing is
taken back that was not counted. -/
def next (a : Account) : Deed → Option Account
  | «open» => some a.opened
  | clone i => if i < a.handles.length then some a.opened else none
  | close i => if a.handles[i]? = some 0 then some (a.closed i) else none
  | load i =>
    if a.loads ≠ 0 ∨ a.latest.isValid then a.handles[i]?.map (a.loaded i) else none
  | unload i =>
    match a.handles[i]? with
    | some (k + 1) => some (a.unloaded i k)
    | _ => none
  | modify i f =>
    match a.handles[i]? with
    | some (_ + 1) => some (a.modified f)
    | _ => none
  | raise i c =>
    if i < a.handles.length then some (a.counted c (a.counts c + 1)) else none
  | lower i c =>
    if i < a.handles.length ∧ a.counts c ≠ 0 then some (a.counted c (a.counts c - 1)) else none

variable {a a' : Account} {i : Nat} {f : Record → Record}

theorem next_unload (h : (unload i).next a = some a') :
    ∃ k, a.handles[i]? = some (k + 1) ∧ a.unloaded i k = a' := by
  rw [next] at h
  split at h
  · exact ⟨_, by assumption, Option.some.inj h⟩
  · cases h

theorem next_modify (h : (modify i f).next a = some a') :
    ∃ k, a.handles[i]? = some (k + 1) ∧ a.modified f = a' := by
  rw [next] at h
  split at h
  · exact ⟨_, by assumption, Option.some.inj h⟩
  · cases h

theorem next_load (h : (load i).next a = some a') :
    (a.loads ≠ 0 ∨ a.latest.isValid) ∧ ∃ k, a.handles[i]? = some k ∧ a.loaded i k = a' := by
  obtain ⟨hvalid, h⟩ := Option.ite_none_right_eq_some.mp h
  exact ⟨hvalid, Option.map_eq_some_iff.mp h⟩

end Deed

namespace Account

variable {a a' : Account} {i k : Nat} {c : Counter}

/-- Nothing is counted of an inode that nobody has open, and what was loaded was a record. -/
structure Sound (a : Account) : Prop where
  counts : a.handles = [] → ∀ c, a.counts c = 0
  before : a.loads ≠ 0 → a.before.isValid

theorem node_eq (hopen : a.handles ≠ []) : a.node = some (a.nodeWith a.memory) :=
  if_neg hopen

theorem node_ne_none : a.node ≠ none ↔ a.handles ≠ [] := by
  rw [node]
  split
  · exact ⟨fun hne => absurd rfl hne, fun hne => absurd ‹_› hne⟩
  · exact ⟨fun _ => ‹_›, fun _ => Option.some_ne_none _⟩

theorem loads_of_nil (h : a.handles = []) : a.loads = 0 := by rw [loads, h, List.sum_nil]

theorem ne_nil_of_loads (h : a.loads ≠ 0) : a.handles ≠ [] := fun hnil => h (loads_of_nil hnil)

theorem sound_idle (r : Record) : (idle r).Sound :=
  ⟨fun _ _ => rfl, fun hloads => absurd rfl hloads⟩

theorem memory_of_zero (h : a.loads = 0) : a.memory = none := if_pos h

theorem memory_of_ne (h : a.loads ≠ 0) :
    a.memory = some { nested := a.loads - 1, record := a.latest } := if_neg h

theorem memory_congr (hloads : a'.loads = a.loads) (hlatest : a'.latest = a.latest) :
    a'.memory = a.memory := by rw [memory, memory, hloads, hlatest]

theorem stored_congr (hloads : a'.loads = a.loads) (hlatest : a'.latest = a.latest)
    (hbefore : a'.before = a.before) : a'.stored = a.stored := by
  rw [stored, stored, hloads, hlatest, hbefore]

theorem ne_nil (hi : a.handles[i]? = some k) : a.handles ≠ [] := fun hnil => by
  rw [hnil] at hi
  cases hi

theorem ne_nil_of_lt (hi : i < a.handles.length) : a.handles ≠ [] :=
  List.ne_nil_of_length_pos (Nat.zero_lt_of_lt hi)

/-! #### Handles -/

theorem sum_set {handles : List Nat} (hi : handles[i]? = some k) (m : Nat) :
    (handles.set i m).sum + k = handles.sum + m := by
  induction handles generalizing i with
  | nil => cases hi
  | cons head rest ih =>
    cases i with
    | zero =>
      cases hi
      simp only [List.set_cons_zero, List.sum_cons]
      omega
    | succ i =>
      have hrest := ih hi
      simp only [List.set_cons_succ, List.sum_cons]
      omega

theorem sum_eraseIdx {handles : List Nat} (hi : handles[i]? = some 0) :
    (handles.eraseIdx i).sum = handles.sum := by
  obtain ⟨hlt, hzero⟩ := List.getElem?_eq_some_iff.mp hi
  have hsum := List.add_sum_eraseIdx hlt fun _ _ => AddCommute.all ..
  rwa [hzero, Nat.zero_add] at hsum

theorem loads_opened (a : Account) : a.opened.loads = a.loads := by
  simp only [loads, opened, List.sum_cons, Nat.zero_add]

theorem node_opened (hs : a.Sound) : a.opened.node =
    some { a.node.getD {} with openers := (a.node.getD {}).openers + 1 } := by
  rw [node_eq (List.cons_ne_nil 0 a.handles), memory_congr (loads_opened a) rfl]
  by_cases hopen : a.handles = []
  · have hcounts := hs.counts hopen
    rw [memory_of_zero (loads_of_nil hopen), node, if_pos hopen]
    simp only [opened, nodeWith, hopen, hcounts, Option.getD_none, List.length_cons, List.length_nil]
  · rw [node_eq hopen]
    rfl

section Closed

variable (hi : a.handles[i]? = some 0)

include hi

theorem loads_closed : (a.closed i).loads = a.loads := sum_eraseIdx hi

theorem length_closed : (a.closed i).handles.length = a.handles.length - 1 :=
  List.length_eraseIdx_of_lt (List.getElem?_eq_some_iff.mp hi).1

theorem node_closed_shared (hmore : 1 < a.handles.length) : (a.closed i).node =
    some { a.nodeWith a.memory with openers := a.handles.length - 1 } := by
  have hlength := length_closed hi
  have hopen : (a.closed i).handles ≠ [] := List.ne_nil_of_length_pos (by omega)
  have hcounts : (a.closed i).counts = a.counts := if_neg hopen
  rw [node_eq hopen, memory_congr (loads_closed hi) rfl, nodeWith, hcounts, hlength]
  rfl

theorem node_closed_last (hlast : ¬ 1 < a.handles.length) : (a.closed i).node = none :=
  if_pos (List.length_eq_zero_iff.mp (by rw [length_closed hi]; omega))

end Closed

/-! #### Loads -/

section Loads

variable (hi : a.handles[i]? = some k)

include hi

theorem loads_loaded : (a.loaded i k).loads = a.loads + 1 := by
  have hsum := sum_set hi (k + 1)
  simp only [loads, loaded]
  omega

theorem stored_loaded : (a.loaded i k).stored = a.stored := by
  rw [stored, loads_loaded hi, if_neg (Nat.succ_ne_zero _)]
  rfl

theorem handles_loaded : (a.loaded i k).handles ≠ [] := by
  simpa only [loaded, ne_eq, List.set_eq_nil_iff] using ne_nil hi

theorem node_loaded : (a.loaded i k).node =
    some (a.nodeWith (some { nested := a.loads, record := a.latest })) := by
  rw [node_eq (handles_loaded hi), memory, loads_loaded hi, if_neg (Nat.succ_ne_zero _)]
  simp only [loaded, nodeWith, List.length_set, Nat.add_sub_cancel]

end Loads

section Unloads

variable (hi : a.handles[i]? = some (k + 1))

include hi

theorem loads_unloaded : (a.unloaded i k).loads + 1 = a.loads := by
  have hsum := sum_set hi k
  simp only [loads, unloaded]
  omega

theorem loads_ne_zero : a.loads ≠ 0 := by
  have hloads := loads_unloaded hi
  omega

theorem handles_unloaded : (a.unloaded i k).handles ≠ [] := by
  simpa only [unloaded, ne_eq, List.set_eq_nil_iff] using ne_nil hi

theorem node_unloaded : (a.unloaded i k).node =
    some (a.nodeWith (a.unloaded i k).memory) := by
  rw [node_eq (handles_unloaded hi)]
  simp only [unloaded, nodeWith, List.length_set]

/-- As long as another load has not ended, the header is left alone. -/
theorem stored_unloaded (hmore : (a.unloaded i k).loads ≠ 0) : (a.unloaded i k).stored = a.stored := by
  rw [stored, if_neg hmore, stored, if_neg (loads_ne_zero hi)]
  rfl

theorem memory_unloaded :
    a.memory = some { nested := (a.unloaded i k).loads, record := a.latest } := by
  rw [memory_of_ne (loads_ne_zero hi), ← loads_unloaded hi, Nat.add_sub_cancel]

theorem stored_modified (f : Record → Record) : (a.modified f).stored = a.stored := by
  have hmodified : (a.modified f).stored = a.before := if_neg (loads_ne_zero hi)
  rw [hmodified, stored, if_neg (loads_ne_zero hi)]

theorem node_modified (f : Record → Record) : (a.modified f).node =
    some (a.nodeWith (some { nested := a.loads - 1, record := f a.latest })) := by
  have hmemory : (a.modified f).memory = some { nested := a.loads - 1, record := f a.latest } :=
    if_neg (loads_ne_zero hi)
  have hopen : (a.modified f).handles ≠ [] := ne_nil hi
  rw [node_eq hopen, hmemory]
  rfl

end Unloads

/-! #### Counters -/

theorem get_nodeWith (c : Counter) (l : Option LoadedRecord) :
    c.get (a.nodeWith l) = a.counts c := by
  cases c <;> rfl

theorem stored_counted (a : Account) (c : Counter) (k : Nat) : (a.counted c k).stored = a.stored :=
  rfl

theorem node_counted (hopen : a.handles ≠ []) (c : Counter) (k : Nat) :
    (a.counted c k).node = some (c.set k (a.nodeWith a.memory)) := by
  have hopen' : (a.counted c k).handles ≠ [] := hopen
  rw [node_eq hopen']
  cases c <;> rfl

/-- Whatever is done, the account stays sound. -/
theorem Sound.next {d : Deed} (hs : a.Sound) (h : d.next a = some a') : a'.Sound := by
  have hstays : a'.handles ≠ [] → (a'.loads ≠ 0 → a'.before.isValid) → a'.Sound :=
    fun hopen hbefore => ⟨fun hnil => absurd hnil hopen, hbefore⟩
  cases d with
  | «open» =>
    obtain rfl := Option.some.inj h
    exact hstays (List.cons_ne_nil _ _) (loads_opened a ▸ hs.before)
  | clone i =>
    obtain ⟨-, ⟨⟩⟩ := Option.ite_none_right_eq_some.mp h
    exact hstays (List.cons_ne_nil _ _) (loads_opened a ▸ hs.before)
  | close i =>
    obtain ⟨hi, ⟨⟩⟩ := Option.ite_none_right_eq_some.mp h
    refine ⟨fun hnil c => ?_, loads_closed hi ▸ hs.before⟩
    exact congrFun (if_pos hnil : (a.closed i).counts = _) c
  | load i =>
    obtain ⟨hvalid, k, hi, rfl⟩ := Deed.next_load h
    refine hstays (handles_loaded hi) fun _ => ?_
    have hbefore : (a.loaded i k).before = if a.loads = 0 then a.latest else a.before := rfl
    rw [hbefore]
    split
    · exact hvalid.resolve_left (not_not.mpr ‹_›)
    · exact hs.before ‹_›
  | unload i =>
    obtain ⟨k, hi, rfl⟩ := Deed.next_unload h
    exact hstays (handles_unloaded hi) fun _ => hs.before (loads_ne_zero hi)
  | modify i f =>
    obtain ⟨k, hi, rfl⟩ := Deed.next_modify h
    exact hstays (ne_nil hi) hs.before
  | raise i c =>
    obtain ⟨hi, ⟨⟩⟩ := Option.ite_none_right_eq_some.mp h
    exact hstays (ne_nil_of_lt hi) hs.before
  | lower i c =>
    obtain ⟨⟨hi, -⟩, ⟨⟩⟩ := Option.ite_none_right_eq_some.mp h
    exact hstays (ne_nil_of_lt hi) hs.before

end Account

/-- The record after a deed. -/
def Deed.change : Deed → Record → Record
  | modify _ f => f
  | _ => id

theorem Deed.latest_next {a a' : Account} {d : Deed} (h : d.next a = some a') :
    a'.latest = d.change a.latest := by
  cases d with
  | «open» =>
    obtain rfl := Option.some.inj h
    rfl
  | clone i | close i | raise i c | lower i c =>
    obtain ⟨-, ⟨⟩⟩ := Option.ite_none_right_eq_some.mp h
    rfl
  | load i =>
    obtain ⟨-, k, -, rfl⟩ := Deed.next_load h
    rfl
  | unload i =>
    obtain ⟨k, -, rfl⟩ := Deed.next_unload h
    rfl
  | modify i f =>
    obtain ⟨k, -, rfl⟩ := Deed.next_modify h
    rfl

end Inode
end TieredVolume
