import TieredVolume.Proofs.Cache.History

/-!
What the operations of a cache do not look at. Bringing sectors in and out, reading and writing them
does not depend on the queue of requests, and nothing that a cache does depends on how often its
device was read. So a change of either can be made before an operation as well as after it.
-/
namespace TieredVolume

variable {σ α β : Type}

/-- What a run ends with, the state changed by `f`. -/
def changed (f : σ → σ) : EStateM.Result Fault σ α → EStateM.Result Fault σ α
  | .ok a s => .ok a (f s)
  | .error e s => .error e (f s)

/-- It makes no difference whether the state is changed by `f` before `x` runs or after it. -/
def Blind (f : σ → σ) (x : EStateM Fault σ α) : Prop := ∀ s, x (f s) = changed f (x s)

theorem blind_id (x : EStateM Fault σ α) : Blind id x := by
  intro s
  rw [id]
  cases x s <;> rfl

namespace Blind

variable {f : σ → σ} {x : EStateM Fault σ α}

theorem pure (a : α) : Blind f (pure a : EStateM Fault σ α) := fun _ => rfl

theorem throw (e : Fault) : Blind f (throw e : EStateM Fault σ α) := fun _ => rfl

theorem ofExcept (y : Except Fault α) : Blind f (ofExcept y : EStateM Fault σ α) := by
  cases y with
  | ok a => exact pure a
  | error e => exact throw e

theorem modify {g : σ → σ} (h : ∀ s, g (f s) = f (g s)) :
    Blind f (modify g : EStateM Fault σ PUnit) := by
  intro s
  change EStateM.Result.ok PUnit.unit (g (f s)) = .ok PUnit.unit (f (g s))
  rw [h]

theorem modifyGet {g : σ → α × σ} (h : ∀ s, g (f s) = ((g s).1, f (g s).2)) :
    Blind f (modifyGet g : EStateM Fault σ α) := by
  intro s
  change EStateM.Result.ok (g (f s)).1 (g (f s)).2 = .ok (g s).1 (f (g s).2)
  rw [h]

theorem bind {k : α → EStateM Fault σ β} (hx : Blind f x) (hk : ∀ a, Blind f (k a)) :
    Blind f (x >>= k) := by
  intro s
  simp only [Bind.bind, EStateM.bind, hx s]
  cases x s with
  | ok a s' => exact hk a s'
  | error e s' => rfl

/-- The state is only looked at where `f` changes nothing. -/
theorem get {k : σ → EStateM Fault σ β} (hf : ∀ s, k (f s) = k s) (hk : ∀ s, Blind f (k s)) :
    Blind f (get >>= k) := by
  intro s
  change k (f s) (f s) = changed f (k s s)
  rw [hf, hk]

theorem ite {c : Prop} [Decidable c] {y : EStateM Fault σ α} (hx : Blind f x) (hy : Blind f y) :
    Blind f (if c then x else y) := by
  split
  · exact hx
  · exact hy

theorem forM {k : α → EStateM Fault σ PUnit} (hk : ∀ a, Blind f (k a)) (l : List α) :
    Blind f (l.forM k) := by
  induction l with
  | nil => exact pure _
  | cons a l ih => exact bind (hk a) fun _ => ih

theorem mapM {k : α → EStateM Fault σ β} (hk : ∀ a, Blind f (k a)) (l : List α) :
    Blind f (l.mapM k) := by
  induction l with
  | nil => exact pure _
  | cons a l ih =>
    rw [List.mapM_cons]
    exact bind (hk a) fun _ => bind ih fun _ => pure _

end Blind

namespace Device

/-- A change of a device that its transfers do not look at. -/
structure Unnoticed (f : Device → Device) : Prop where
  read : ∀ k, Blind f (readBlock k)
  write : ∀ k contents, Blind f (writeBlock k contents)
  block : ∀ d k, (f d).block? k = d.block? k
  count : ∀ d, (f d).blockCount = d.blockCount

theorem unnoticed_id : Unnoticed id where
  read := fun _ => blind_id _
  write := fun _ _ => blind_id _
  block := fun _ _ => rfl
  count := fun _ => rfl

/-- A device counts a read when it was made, so one more can be counted before or after others. -/
theorem unnoticed_afterRead : Unnoticed afterRead where
  read := fun k d => by
    cases d with
    | memory disk =>
      by_cases hk : k < disk.blocks.size
      · simp [readBlock, MemoryDisk.readBlock, afterRead, changed, hk]
      · simp [readBlock, MemoryDisk.readBlock, afterRead, changed, hk]
    | image file =>
      simp only [afterRead]
      cases hread : readBlock k (.image file) with
      | ok b d => simp [changed, readBlock_leaves hread, afterRead]
      | error e d =>
        simp only [readBlock] at hread
        split at hread <;> cases hread
        rfl
  write := fun k contents d => by
    cases d with
    | memory disk =>
      by_cases hk : k < disk.blocks.size
      · simp [writeBlock, MemoryDisk.writeBlock, afterRead, changed, hk]
      · simp [writeBlock, MemoryDisk.writeBlock, afterRead, changed, hk]
    | image file =>
      simp only [afterRead, writeBlock]
      cases file.writeBlock k contents <;> rfl
  block := block?_afterRead
  count := fun d => by cases d <;> rfl

end Device

namespace Cache

variable {n : Nat} {d : Device → Device} {q : ReadAhead → ReadAhead} {s : Sector} {i : Fin n}

/-- The cache with its device and its queue changed. -/
def aside (d : Device → Device) (q : ReadAhead → ReadAhead) (c : Cache n) : Cache n :=
  { c with device := d c.device, readAhead := q c.readAhead }

theorem sweep_aside (first : Bool) (count : Nat) (c : Cache n) :
    sweep first count (aside d q c) =
      ((sweep first count c).1, aside d q (sweep first count c).2) := by
  induction count generalizing c with
  | zero => rfl
  | succ count ih =>
    have hslot : (aside d q c).slot (aside d q c).hand = c.slot c.hand := rfl
    cases hs : (c.slot c.hand).passedBy first with
    | none =>
      simp only [sweep, hslot, hs]
      rfl
    | some slot =>
      simp only [sweep, hslot, hs]
      exact ih { c with hand := nextOnRing c.hand, slots := c.slots.set c.hand slot }

theorem sweeps_aside (first : Bool) (count : Nat) (c : Cache n) :
    sweeps first count (aside d q c) =
      ((sweeps first count c).1, aside d q (sweeps first count c).2) := by
  induction count generalizing first c with
  | zero => rfl
  | succ count ih =>
    simp only [sweeps, sweep_aside]
    cases hs : sweep first n c with
    | mk victim c' =>
      cases victim with
      | some i => rfl
      | none => exact ih false c'

theorem onDevice_blind {α : Type} {x : EStateM Fault Device α} (h : Blind d x) :
    Blind (aside d q) (onDevice (n := n) x) := by
  intro c
  simp only [onDevice, aside, h c.device]
  cases x c.device <;> rfl

theorem invalidate_blind (s : Sector) : Blind (aside d q) (invalidate (n := n) s) := by
  refine Blind.modify fun c => ?_
  have hfind : (aside d q c).find? s = c.find? s := rfl
  simp only [hfind]
  cases c.find? s with
  | some i => rfl
  | none => rfl

section Operations

variable (hd : Device.Unnoticed d)

include hd

theorem flushSlot_blind (i : Fin n) : Blind (aside d q) (flushSlot i) := by
  refine Blind.get (fun c => rfl) fun c => ?_
  dsimp only
  split
  · exact Blind.ite (Blind.bind (onDevice_blind (hd.write _ _)) fun _ => Blind.modify fun _ => rfl)
      (Blind.pure _)
  · exact Blind.pure _

theorem evict_blind : Blind (aside d q) (evict (n := n)) := by
  refine Blind.bind (Blind.modifyGet (sweeps_aside true _)) fun victim => ?_
  cases victim with
  | some i => exact Blind.bind (flushSlot_blind hd i) fun _ => Blind.pure i
  | none => exact Blind.throw _

theorem acquire_blind (s : Sector) : Blind (aside d q) (acquire (n := n) s) := by
  refine Blind.get (fun c => rfl) fun c => ?_
  split
  · exact Blind.pure _
  · exact Blind.bind (evict_blind hd) fun i => Blind.bind (Blind.modify fun _ => rfl)
      fun _ => Blind.pure _

theorem fill_blind (i : Fin n) (s : Sector) : Blind (aside d q) (fill i s) :=
  Blind.bind (onDevice_blind (hd.read _)) fun _ => Blind.modify fun _ => rfl

theorem prefetch_blind (s : Sector) : Blind (aside d q) (prefetch (n := n) s) := by
  refine Blind.bind (acquire_blind hd s) fun (i, missed) => ?_
  have hrest : Blind (aside d q) (do modify (updateSlot i Slot.touch); return i) :=
    Blind.bind (Blind.modify fun _ => rfl) fun _ => Blind.pure i
  exact Blind.ite (Blind.bind (fill_blind hd i s) fun _ => hrest) hrest

theorem read_blind (s : Sector) (offset count : Nat) :
    Blind (aside d q) (read (n := n) s offset count) := by
  refine Blind.bind (Blind.ofExcept _) fun _ => Blind.bind ?_ fun _ => Blind.pure _
  refine Blind.bind (prefetch_blind hd s) fun i => ?_
  exact Blind.get (fun _ => rfl) fun _ => Blind.pure _

theorem finishRead_blind (i : Fin n) (s : Sector) (offset count : Nat) :
    Blind (aside d q) (finishRead i s offset count) := by
  refine Blind.bind (fill_blind hd i s) fun _ => Blind.bind (Blind.modify fun _ => rfl) fun _ => ?_
  exact Blind.get (fun _ => rfl) fun _ => Blind.pure _

theorem write_blind (s : Sector) (offset : Nat) (bytes : Bytes) :
    Blind (aside d q) (write (n := n) s offset bytes) := by
  refine Blind.bind (Blind.ofExcept _) fun _ => ?_
  refine Blind.bind (acquire_blind hd s) fun (i, missed) => ?_
  have hrest : Blind (aside d q) (modify (updateSlot i (·.store offset bytes)) : CacheM n PUnit) :=
    Blind.modify fun _ => rfl
  exact Blind.ite (Blind.bind (fill_blind hd i s) fun _ => hrest) hrest

theorem serveReadAhead_blind : Blind (aside d id) (serveReadAhead (n := n)) := by
  refine Blind.get (fun _ => rfl) fun c => Blind.forM (fun s => ?_) _
  exact Blind.bind (prefetch_blind hd s) fun _ => Blind.modify fun _ => rfl

/-- Whatever a cache is used for, what its device does not notice makes no difference. -/
theorem Use.run_blind (u : Use) : Blind (aside d id) (u.run (n := n)) := by
  cases u with
  | read s offset count => exact read_blind hd s offset count
  | write s offset bytes => exact Blind.bind (write_blind hd s offset bytes) fun _ => Blind.pure _
  | zero s => exact Blind.bind (write_blind hd s 0 _) fun _ => Blind.pure _
  | invalidate s => exact Blind.bind (invalidate_blind s) fun _ => Blind.pure _
  | flushAll =>
    exact Blind.bind (Blind.forM (fun i => flushSlot_blind hd i) _) fun _ => Blind.pure _
  | prefetch s => exact Blind.bind (prefetch_blind hd s) fun _ => Blind.pure _
  | startReadAhead => exact Blind.bind (Blind.modify fun _ => rfl) fun _ => Blind.pure _
  | request s => exact Blind.bind (Blind.modify fun _ => rfl) fun _ => Blind.pure _
  | serveReadAhead => exact Blind.bind (serveReadAhead_blind hd) fun _ => Blind.pure _
  | stopReadAhead => exact Blind.bind (Blind.modify fun _ => rfl) fun _ => Blind.pure _

end Operations

end Cache

end TieredVolume
