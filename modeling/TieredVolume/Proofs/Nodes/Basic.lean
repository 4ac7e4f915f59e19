import TieredVolume.Namespace.Operations
import TieredVolume.Proofs.Outcome

/-!
What operations do to the table of open inodes, from any volume on. Transfers and the free map leave
it alone; reading and writing change no more of a node than its record; only opening and closing
change how often an inode is open, so that whatever happens every node in the table counts someone
who has its inode open.
-/
namespace TieredVolume

variable {n : Nat} {α β : Type} {R : OpenTable → OpenTable → Prop} {s t : Sector} {nd : Node}

namespace OpenTable

theorem insert_insert (t : OpenTable) (s : Sector) (nd nd' : Node) :
    insert s nd' (insert s nd t) = insert s nd' t := by
  induction t with
  | nil => simp [insert]
  | cons p rest ih =>
    obtain ⟨k, v⟩ := p
    by_cases hs : s = k
    · simp [insert, hs]
    · simp [insert, hs, ih]

theorem insert_of_find? {t : OpenTable} (h : t.find? s = some nd) : insert s nd t = t := by
  induction t with
  | nil => cases h
  | cons p rest ih =>
    obtain ⟨k, v⟩ := p
    rw [find?, List.lookup_cons] at h
    by_cases hs : s = k
    · subst hs
      rw [beq_self_eq_true] at h
      rw [insert, if_pos rfl, Option.some.inj h]
    · rw [beq_eq_false_iff_ne.mpr hs] at h
      rw [insert, if_neg hs, ih h]

/-- A relation of a table and a later one that holds over any number of steps. -/
class Lasting (R : OpenTable → OpenTable → Prop) : Prop where
  refl : ∀ t, R t t
  trans : ∀ t t' t'', R t t' → R t' t'' → R t t''

/-- What is done to the record of an inode, or to what is counted besides who has it open. -/
def Admits (R : OpenTable → OpenTable → Prop) (s : Sector) : Prop :=
  ∀ (t : OpenTable) (nd nd' : Node), t.find? s = some nd → nd'.openers = nd.openers →
    R t (t.insert s nd')

/-- And opening and closing it. -/
structure Governs (R : OpenTable → OpenTable → Prop) (s : Sector) : Prop where
  admits : Admits R s
  opened : ∀ t : OpenTable, R t (t.insert s
    { (t.find? s).getD {} with openers := ((t.find? s).getD {}).openers + 1 })
  lowered : ∀ (t : OpenTable) nd, t.find? s = some nd → 1 < nd.openers →
    R t (t.insert s { nd with openers := nd.openers - 1 })
  erased : ∀ t : OpenTable, R t (t.erase s)

/-- Nothing happens. -/
def Same (t t' : OpenTable) : Prop := t' = t

instance : Lasting Same := ⟨fun _ => rfl, fun _ _ _ h h' => h'.trans h⟩

/-- Every node in the table counts someone who has the inode open. -/
def Counted (t : OpenTable) : Prop := ∀ s nd, t.find? s = some nd → 0 < nd.openers

/-- The count stays. -/
def Counting (t t' : OpenTable) : Prop := t.Counted → t'.Counted

instance : Lasting Counting := ⟨fun _ => id, fun _ _ _ h h' hc => h' (h hc)⟩

/-- Nothing is done to other nodes. -/
def Sparing (s : Sector) (t t' : OpenTable) : Prop := ∀ s', s' ≠ s → t'.find? s' = t.find? s'

instance (s : Sector) : Lasting (Sparing s) :=
  ⟨fun _ _ _ => rfl, fun _ _ _ h h' s' hs => (h' s' hs).trans (h s' hs)⟩

theorem Counted.insert {t : OpenTable} (h : t.Counted) (hnd : 0 < nd.openers) :
    (t.insert s nd).Counted := by
  intro s' nd' hfind
  rw [find?_insert] at hfind
  split at hfind
  · exact Option.some.inj hfind ▸ hnd
  · exact h s' nd' hfind

theorem Counted.erase {t : OpenTable} (h : t.Counted) (s : Sector) : (t.erase s).Counted := by
  intro s' nd' hfind
  rw [find?_erase] at hfind
  split at hfind
  · cases hfind
  · exact h s' nd' hfind

theorem sparing_insert (t : OpenTable) (s : Sector) (nd : Node) : Sparing s t (t.insert s nd) := by
  intro s' hs
  rw [find?_insert, if_neg hs]

theorem sparing_erase (t : OpenTable) (s : Sector) : Sparing s t (t.erase s) := by
  intro s' hs
  rw [find?_erase, if_neg hs]

theorem governs_counting (s : Sector) : Governs Counting s where
  admits := fun _ _ _ hfind hopen hc => hc.insert (hopen ▸ hc _ _ hfind)
  opened := fun _ hc => hc.insert (Nat.succ_pos _)
  lowered := fun _ _ _ hmore hc => hc.insert (Nat.sub_pos_of_lt hmore)
  erased := fun _ hc => hc.erase s

theorem governs_sparing (s : Sector) : Governs (Sparing s) s where
  admits := fun t _ nd _ _ => sparing_insert t s nd
  opened := fun t => sparing_insert t s _
  lowered := fun t _ _ _ => sparing_insert t s _
  erased := fun t => sparing_erase t s

end OpenTable

open OpenTable

/-- From any volume on, the table is then one that `R` allows. -/
def Moves (R : OpenTable → OpenTable → Prop) (x : VolumeM n α) : Prop :=
  ∀ v, Yields anyFault x v fun _ v' => R v.table v'.table

namespace Moves

variable {x : VolumeM n α} {f : α → VolumeM n β}

theorem throw (e : Fault) : Moves R (throw e : VolumeM n α) := fun _ => Yields.throw trivial

/-- What comes after a fault does not matter. -/
theorem throw_bind (e : Fault) (f : α → VolumeM n β) : Moves R (MonadExcept.throw e >>= f) := fun _ =>
  Yields.bind (Yields.throw trivial)

theorem ite {c : Prop} [Decidable c] {y : VolumeM n α} (hx : Moves R x) (hy : Moves R y) :
    Moves R (if c then x else y) := by
  split
  · exact hx
  · exact hy

/-- An operation that goes on with a node from the table. -/
theorem node {k : Node → VolumeM n β} (h : ∀ (v : Volume n) nd, v.table.find? s = some nd →
    Yields anyFault (k nd) v fun _ v' => R v.table v'.table) : Moves R (Inode.node s >>= k) := by
  intro v
  refine Yields.bind (Yields.bind (Yields.get ?_))
  cases hfind : v.table.find? s with
  | none => exact Yields.throw trivial
  | some nd => exact Yields.pure (h v nd hfind)

variable [Lasting R]

theorem of_same (h : Moves Same x) : Moves R x := fun v =>
  (h v).mono fun _ v' heq => by
    rw [show v'.table = v.table from heq]
    exact Lasting.refl _

theorem pure (a : α) : Moves R (pure a : VolumeM n α) := fun _ => Yields.pure (Lasting.refl _)

theorem get : Moves R (get : VolumeM n (Volume n)) := fun _ => Yields.get (Lasting.refl _)

theorem bind (hx : Moves R x) (hf : ∀ a, Moves R (f a)) : Moves R (x >>= f) := fun v =>
  (hx v).andThen fun a v' h => (hf a v').mono fun _ _ h' => Lasting.trans _ _ _ h h'

theorem ofExcept (y : Except Fault α) : Moves R (ofExcept y : VolumeM n α) := by
  cases y with
  | ok a => exact pure a
  | error e => exact throw e

theorem onCache (x : CacheM n α) : Moves R (Volume.onCache x) := by
  intro v
  unfold Yields
  simp only [Volume.onCache]
  cases x v.cache with
  | ok a c => exact Lasting.refl _
  | error e c => trivial

theorem onMap (x : EStateM Fault FreeMap α) : Moves R (Volume.onMap (n := n) x) := by
  intro v
  unfold Yields
  simp only [Volume.onMap]
  cases x v.map with
  | ok a m => exact Lasting.refl _
  | error e m => trivial

theorem forM {l : List β} {f : β → VolumeM n PUnit} (h : ∀ a, Moves R (f a)) :
    Moves R (l.forM f) := by
  induction l with
  | nil => exact pure _
  | cons a l ih => exact bind (h a) fun _ => ih

end Moves

open Attempt

section Attempts

variable [Lasting R] {x : Attempt n α} {f : α → Attempt n β}

theorem Moves.always {x : VolumeM n α} (h : Moves R x) : Moves R (always x).run :=
  h.bind fun _ => Moves.pure _

theorem Moves.refuse (why : Refusal) : Moves R (refuse why : Attempt n α).run := Moves.pure _

/-- What comes after a refusal does not matter. -/
theorem Moves.refuse_andThen (why : Refusal) (f : α → Attempt n β) :
    Moves R (Attempt.refuse why >>= f : Attempt n β).run := Moves.pure _

theorem Moves.ofAnswer (answer : Except Refusal α) : Moves R (ofAnswer answer : Attempt n α).run :=
  Moves.pure _

theorem Moves.andThen (hx : Moves R x.run) (hf : ∀ a, Moves R (f a).run) :
    Moves R (x >>= f).run := by
  rw [run_bind]
  refine hx.bind fun answer => ?_
  cases answer with
  | ok a => exact hf a
  | error why => exact Moves.pure _

theorem Moves.thenAlways {cleanup : VolumeM n Unit} (hx : Moves R x.run) (h : Moves R cleanup) :
    Moves R (thenAlways x cleanup).run :=
  hx.bind fun _ => h.bind fun _ => Moves.pure _

theorem Moves.onRefusal {cleanup : VolumeM n Unit} (hx : Moves R x.run) (h : Moves R cleanup) :
    Moves R (onRefusal x cleanup).run := by
  refine hx.bind fun answer => ?_
  cases answer with
  | ok a => exact Moves.pure _
  | error why => exact h.bind fun _ => Moves.pure _

end Attempts

/-! ### The cache and the free map -/

namespace Volume

variable [Lasting R]

theorem release_moves (s : Sector) (count : Nat) : Moves R (release (n := n) s count) := by
  refine (Moves.ofExcept _).bind fun _ => (Moves.onMap _).bind fun _ => ?_
  split
  · exact (Moves.get.bind fun _ => Moves.onCache _).bind fun _ => Moves.onCache _
  · exact Moves.onCache _

theorem allocate_moves (count : Nat) : Moves R (allocate (n := n) count).run := by
  refine Moves.ite (Moves.throw_bind _ _) (Moves.get.bind fun v => ?_)
  cases v.map.firstFit count with
  | none => exact Moves.pure _
  | some start =>
    exact (Moves.onMap _).bind fun _ => (Moves.get.bind fun _ => Moves.onCache _).bind fun _ =>
      Moves.pure _

end Volume

/-! ### Inodes -/

namespace Inode

open Volume

section Lasting

variable [Lasting R]

theorem node_moves (s : Sector) : Moves R (node (n := n) s) := by
  refine Moves.get.bind fun v => ?_
  cases v.table.find? s with
  | none => exact Moves.throw _
  | some nd => exact Moves.pure nd

theorem record_moves (s : Sector) : Moves R (record (n := n) s) := by
  refine Moves.node fun v nd _ => ?_
  cases nd.loaded with
  | none => exact Yields.throw trivial
  | some l => exact Yields.pure (Lasting.refl _)

theorem find?_moves (s : Sector) (l : Nat) : Moves R (find? (n := n) s l) := by
  refine (Moves.ofExcept _).bind fun path => (record_moves s).bind fun r =>
    (Moves.ofExcept _).bind fun raw => ?_
  cases Sector.decode raw with
  | none => exact Moves.pure _
  | some next => exact Moves.onCache _

theorem announceNext_moves (s : Sector) (length l : Nat) :
    Moves R (announceNext (n := n) s length l) := by
  refine Moves.ite ((find?_moves s _).bind fun next? => ?_) (Moves.pure _)
  cases next? with
  | none => exact Moves.pure _
  | some next => exact Moves.onCache _

theorem readSpans_moves (s : Sector) (length : Nat) (spans : List Span) (pieces : List Bytes) :
    Moves R (readSpans (n := n) s length spans pieces) := by
  induction spans generalizing pieces with
  | nil => exact Moves.pure _
  | cons span rest ih =>
    refine (find?_moves s _).bind fun sector? => ?_
    cases sector? with
    | none => exact Moves.pure _
    | some sector =>
      exact (Moves.onCache _).bind fun _ => (announceNext_moves s _ _).bind fun _ => ih _

theorem writeSpans_moves (s : Sector) (spans : List Span) (bytes : Bytes) (written : Nat) :
    Moves R (writeSpans (n := n) s spans bytes written) := by
  induction spans generalizing bytes written with
  | nil => exact Moves.pure _
  | cons span rest ih =>
    refine (find?_moves s _).bind fun sector? => ?_
    cases sector? with
    | none => exact Moves.pure _
    | some sector => exact (Moves.onCache _).bind fun _ => ih _ _

theorem releaseTree_moves (depth : Nat) (s : Sector) : Moves R (releaseTree (n := n) depth s) := by
  induction depth generalizing s with
  | zero => exact release_moves s 1
  | succ depth ih =>
    exact (Moves.onCache _).bind fun node => (Moves.ofExcept _).bind fun links =>
      (Moves.forM ih).bind fun _ => release_moves s 1

theorem releaseLinks_moves (slot : Nat) (raws : List UInt32) :
    Moves R (releaseLinks (n := n) slot raws) := by
  induction raws generalizing slot with
  | nil => exact Moves.pure _
  | cons raw rest ih =>
    rw [releaseLinks]
    cases Sector.decode raw with
    | none => exact ih (slot + 1)
    | some s => exact (releaseTree_moves _ s).bind fun _ => ih (slot + 1)

theorem allocateFor_moves (data : Bool) : Moves R (allocateFor (n := n) data).run :=
  (allocate_moves 1).andThen fun _ => (Moves.onCache _).always.andThen fun _ => Moves.pure _

theorem bindBelow_moves (steps : List (Fin 64)) (s : Sector) :
    Moves R (bindBelow (n := n) steps s).run := by
  induction steps generalizing s with
  | nil => exact Moves.pure _
  | cons child steps ih =>
    refine (Moves.onCache _).always.andThen fun node =>
      (Moves.ofExcept _).always.andThen fun raw => ?_
    cases Sector.decode raw with
    | some next => exact ih next
    | none =>
      exact (allocateFor_moves _).andThen fun fresh =>
        ((Moves.ofExcept _).bind fun _ => Moves.onCache _).always.andThen fun _ => ih fresh

/-! ### Reading -/

theorem node_yields {v : Volume n} {faults : Fault → Prop} {post : Node → Volume n → Prop}
    (hfind : v.table.find? s = some nd) (h : post nd v) : Yields faults (node s) v post := by
  refine Yields.bind (Yields.get ?_)
  rw [hfind]
  exact Yields.pure h

/-- What is left of a load when it ends. -/
def ended (l : LoadedRecord) : Option LoadedRecord :=
  match l with
  | ⟨0, _⟩ => none
  | ⟨k + 1, record⟩ => some ⟨k, record⟩

theorem unload_yields {v : Volume n} {l : LoadedRecord} (hfind : v.table.find? s = some nd)
    (hl : nd.loaded = some l) : Yields anyFault (unload s) v fun _ v' =>
      v'.table = v.table.insert s { nd with loaded := ended l } := by
  refine Yields.bind (node_yields hfind ?_)
  rw [hl]
  match l with
  | ⟨0, r⟩ => exact Yields.bind (Yields.modify (Moves.onCache (R := Same) _ _))
  | ⟨k + 1, r⟩ => exact Yields.modify rfl

theorem load_yields {v : Volume n} (hfind : v.table.find? s = some nd) :
    Yields anyFault (load s) v fun _ v' => ∃ l, nd.loaded = ended l ∧
      v'.table = v.table.insert s { nd with loaded := some l } := by
  refine Yields.bind (node_yields hfind ?_)
  cases hl : nd.loaded with
  | some l => exact Yields.modify ⟨_, rfl, rfl⟩
  | none =>
    refine (Moves.onCache (R := Same) _ v).andThen fun r v' hsame =>
      Yields.modify ⟨{ record := r }, rfl, ?_⟩
    rw [show v'.table = v.table from hsame]

/-- An inode that is loaded while something is done that leaves the table alone is then as before. -/
theorem withLoaded_same {body : VolumeM n α} (h : Moves Same body) :
    Moves Same (withLoaded s body) := by
  intro v
  cases hfind : v.table.find? s with
  | none =>
    refine Yields.bind (Yields.bind (Yields.bind (Yields.get ?_)))
    rw [hfind]
    exact Yields.throw trivial
  | some nd =>
    refine (load_yields hfind).andThen fun _ v₁ ⟨l, hl, htable⟩ => (h v₁).andThen fun a v₂ hsame => ?_
    rw [← show v₂.table = v₁.table from hsame] at htable
    have hfind₂ : v₂.table.find? s = some { nd with loaded := some l } := by
      rw [htable, find?_insert, if_pos rfl]
    refine (unload_yields hfind₂ rfl).andThen fun _ v' hv' => Yields.pure ?_
    change v'.table = v.table
    rw [hv', htable, insert_insert, ← hl]
    exact insert_of_find? hfind

theorem readAt_moves (s : Sector) (offset count : Nat) : Moves R (readAt (n := n) s offset count) :=
  Moves.of_same <| withLoaded_same <| (record_moves s).bind fun _ =>
    (readSpans_moves s _ _ _).bind fun _ => Moves.pure _

theorem length_moves (s : Sector) : Moves R (length (n := n) s) :=
  Moves.of_same <| withLoaded_same <| (record_moves s).bind fun _ => Moves.pure _

theorem parent_moves (s : Sector) : Moves R (parent (n := n) s) :=
  Moves.of_same <| withLoaded_same <| (record_moves s).bind fun _ => Moves.pure _

end Lasting

/-! ### Writing -/

section Admits

variable (hs : Admits R s)

include hs

theorem setNode_yields {v : Volume n} {nd' : Node} (hfind : v.table.find? s = some nd)
    (hopen : nd'.openers = nd.openers) :
    Yields anyFault (setNode s nd') v fun _ v' => R v.table v'.table :=
  Yields.modify (hs _ _ _ hfind hopen)

theorem updateNode_moves {f : Node → Node} (hf : ∀ nd, (f nd).openers = nd.openers) :
    Moves R (updateNode (n := n) s f) :=
  Moves.node fun _ nd hfind => setNode_yields hs hfind (hf nd)

theorem markRemoved_moves : Moves R (markRemoved (n := n) s) :=
  updateNode_moves hs (f := ({ · with removed := true })) fun _ => rfl

theorem load_moves : Moves R (load (n := n) s) := by
  refine Moves.node fun v nd hfind => ?_
  cases nd.loaded with
  | some l => exact setNode_yields hs hfind rfl
  | none =>
    refine (Moves.onCache (R := Same) _ v).andThen fun r v' hsame => ?_
    rw [← show v'.table = v.table from hsame] at hfind ⊢
    exact setNode_yields hs hfind rfl

theorem unload_moves : Moves R (unload (n := n) s) := by
  refine Moves.node fun v nd hfind => ?_
  match nd.loaded with
  | none => exact Yields.throw trivial
  | some ⟨0, r⟩ =>
    have hset : Yields anyFault (setNode s { nd with loaded := none }) v fun _ v' =>
        R v.table v'.table := setNode_yields hs hfind rfl
    refine hset.andThen fun _ v' h => ?_
    refine (Moves.onCache (R := Same) _ v').mono fun _ v'' hsame => ?_
    rw [show v''.table = v'.table from hsame]
    exact h
  | some ⟨k + 1, r⟩ => exact setNode_yields hs hfind rfl

theorem updateRecord_moves (f : Record → Except Fault Record) :
    Moves R (updateRecord (n := n) s f) := by
  refine Moves.node fun v nd hfind => ?_
  cases nd.loaded with
  | none => exact Yields.throw trivial
  | some l =>
    refine (Moves.ofExcept (R := Same) _ v).andThen fun r v' hsame => ?_
    rw [← show v'.table = v.table from hsame] at hfind ⊢
    exact setNode_yields hs hfind rfl

variable [Lasting R]

theorem withLoaded_moves {body : VolumeM n α} (h : Moves R body) : Moves R (withLoaded s body) :=
  (load_moves hs).bind fun _ => h.bind fun _ => (unload_moves hs).bind fun _ => Moves.pure _

theorem bind_moves (l : Nat) : Moves R (Inode.bind (n := n) s l).run := by
  refine (Moves.ofExcept _).always.andThen fun path =>
    ((record_moves s).bind fun _ => Moves.ofExcept _).always.andThen fun raw => ?_
  cases Sector.decode raw with
  | some next => exact bindBelow_moves _ next
  | none =>
    exact (allocateFor_moves _).andThen fun fresh => (updateRecord_moves hs _).always.andThen fun _ =>
      bindBelow_moves _ fresh

theorem bindRange_moves (first count : Nat) : Moves R (bindRange (n := n) s first count).run := by
  induction count generalizing first with
  | zero => exact Moves.pure _
  | succ count ih => exact (bind_moves hs first).andThen fun _ => ih _

theorem bindThrough_moves (stop : Nat) : Moves R (bindThrough (n := n) s stop).run :=
  (record_moves s).always.andThen fun _ => bindRange_moves hs _ _

theorem writeAt_moves (offset : Nat) (bytes : Bytes) :
    Moves R (writeAt (n := n) s offset bytes).run := by
  have hwrite : Moves R (always (writeSpans (n := n) s (spans offset bytes.length) bytes 0)).run :=
    (writeSpans_moves s _ _ _).always
  unfold writeAt
  split
  · exact Moves.pure _
  refine (node_moves s).always.andThen fun nd => ?_
  split
  · exact Moves.pure _
  refine (Moves.ofExcept _).always.andThen fun stop => (load_moves hs).always.andThen fun _ =>
    Moves.thenAlways ((record_moves s).always.andThen fun r => ?_) (unload_moves hs)
  split
  · exact hwrite
  · exact (bindThrough_moves hs stop).andThen fun _ => hwrite.andThen fun _ =>
      (updateRecord_moves hs _).always.andThen fun _ => Moves.pure _

theorem grow_moves (size offset : Nat) : Moves R (grow (n := n) s size offset).run :=
  (load_moves hs).always.andThen fun _ => Moves.thenAlways
    ((Moves.ofExcept _).always.andThen fun _ => (bindThrough_moves hs _).andThen fun _ =>
      (updateRecord_moves hs _).always) (unload_moves hs)

theorem allocateAt_moves (offset : Nat) : Moves R (allocateAt (n := n) s offset).run :=
  (load_moves hs).always.andThen fun _ => Moves.thenAlways (bind_moves hs _) (unload_moves hs)

theorem releaseContents_moves : Moves R (releaseContents (n := n) s) :=
  withLoaded_moves hs ((record_moves s).bind fun _ => (Moves.ofExcept _).bind fun _ =>
    (releaseLinks_moves 0 _).bind fun _ => updateRecord_moves hs _)

end Admits

/-! ### Opening and closing -/

section Governs

variable [Lasting R] (hs : Governs R s)

include hs

omit [Lasting R] in
theorem open_moves : Moves R («open» (n := n) s) := fun _ =>
  Yields.bind (Yields.get (Yields.modify (hs.opened _)))

theorem close_moves : Moves R (close (n := n) s) := by
  have herase : Moves R (modify fun v : Volume n => { v with table := v.table.erase s }) := fun _ =>
    Yields.modify (hs.erased _)
  refine Moves.node fun v nd hfind => ?_
  by_cases hmore : 1 < nd.openers
  · rw [if_pos hmore]
    exact Yields.modify (hs.lowered _ _ hfind hmore)
  rw [if_neg hmore]
  cases nd.removed with
  | false => exact (herase.bind fun _ => Moves.pure _) v
  | true =>
    exact ((releaseContents_moves hs.admits).bind fun _ => herase.bind fun _ => release_moves s 1) v

theorem create_moves (length : Nat) (parent : Sector) :
    Moves R (create (n := n) s length parent).run := by
  refine (allocate_moves 1).andThen fun start => (Moves.onCache _).always.andThen fun _ => ?_
  split
  · exact (open_moves hs).always.andThen fun _ => Moves.thenAlways
      (Moves.onRefusal (grow_moves hs.admits _ _) (releaseContents_moves hs.admits)) (close_moves hs)
  · exact Moves.pure _

end Governs

end Inode

end TieredVolume
