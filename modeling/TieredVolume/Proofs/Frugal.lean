import TieredVolume.Namespace.Operations
import TieredVolume.Proofs.Space.Ledger

/-!
Operations that set nothing aside. Whatever the volume, a sector that is in use after such an
operation was in use before, so that no fewer sectors are free. They are told apart by how they are
built; all but those that allocate are frugal.
-/
namespace TieredVolume

variable {n : Nat} {α β : Type}

namespace FreeMap

/-- Nothing is in use that was free before. -/
structure Eased (m m' : FreeMap) : Prop where
  total : m'.total = m.total
  used : ∀ i, m'.isUsed i = true → m.isUsed i = true

theorem Eased.refl (m : FreeMap) : Eased m m := ⟨rfl, fun _ => id⟩

theorem Eased.trans {m m' m'' : FreeMap} (h : Eased m m') (h' : Eased m' m'') : Eased m m'' :=
  ⟨h'.total.trans h.total, fun i hi => h.used i (h'.used i hi)⟩

theorem eased_clear (m : FreeMap) (index : Nat) : Eased m (m.setUsed index false) := by
  refine ⟨rfl, fun i hi => ?_⟩
  unfold isUsed setUsed at hi
  unfold isUsed
  by_cases hbits : i < mapBits m.total
  · simp only [dif_pos hbits, Vector.getElem_setIfInBounds] at hi ⊢
    by_cases heq : index = i
    · rw [if_pos heq] at hi
      cases hi
    · rwa [if_neg heq] at hi
  · rw [dif_neg hbits]

theorem giveBack_eases (start count : Nat) (m : FreeMap) :
    Yields anyFault (giveBack start count) m fun _ m' => Eased m m' := by
  induction count generalizing start m with
  | zero => exact Yields.pure (Eased.refl m)
  | succ count ih =>
    have hrest := (ih (start + 1) (m.setUsed start false)).mono fun _ _ h =>
      (eased_clear m start).trans h
    unfold Yields at hrest ⊢
    simp only [giveBack]
    cases m.isUsed? start with
    | none => trivial
    | some used =>
      cases used with
      | false => trivial
      | true => exact hrest

theorem Eased.freeCount_le {m m' : FreeMap} (h : Eased m m') : m.freeCount ≤ m'.freeCount := by
  rw [freeCount, freeCount, countFree_eq, countFree_eq, h.total]
  refine Nat.add_le_add_left (List.countP_mono_left fun i _ hi => ?_) 0
  cases hused : m'.isUsed i with
  | false => rfl
  | true =>
    rw [h.used i hused] at hi
    cases hi

end FreeMap

/-- From any volume on, no sector is set aside. -/
def Frugal (x : VolumeM n α) : Prop :=
  ∀ v, Yields anyFault x v fun _ v' => FreeMap.Eased v.map v'.map

namespace Frugal

variable {x : VolumeM n α}

/-- Whatever leaves the map alone is frugal. -/
theorem of_map (h : ∀ v, Yields anyFault x v fun _ v' => v'.map = v.map) : Frugal x := by
  intro v
  refine (h v).mono fun _ v' hmap => ?_
  rw [hmap]
  exact FreeMap.Eased.refl v.map

theorem pure (a : α) : Frugal (pure a : VolumeM n α) := of_map fun _ => Yields.pure rfl

theorem throw (e : Fault) : Frugal (throw e : VolumeM n α) := of_map fun _ => Yields.throw trivial

theorem get : Frugal (get : VolumeM n (Volume n)) := of_map fun _ => Yields.get rfl

theorem modify {f : Volume n → Volume n} (h : ∀ v, (f v).map = v.map) :
    Frugal (modify f : VolumeM n PUnit) := of_map fun v => Yields.modify (h v)

theorem bind {f : α → VolumeM n β} (hx : Frugal x) (hf : ∀ a, Frugal (f a)) : Frugal (x >>= f) :=
  fun v => (hx v).andThen fun a v' h => (hf a v').mono fun _ _ h' => h.trans h'

theorem ofExcept (y : Except Fault α) : Frugal (ofExcept y : VolumeM n α) := by
  cases y with
  | ok a => exact pure a
  | error e => exact throw e

theorem onCache (x : CacheM n α) : Frugal (Volume.onCache x) := by
  refine of_map fun v => ?_
  unfold Yields
  simp only [Volume.onCache]
  cases x v.cache with
  | ok a c => rfl
  | error e c => trivial

theorem forM {l : List β} {f : β → VolumeM n PUnit} (h : ∀ a, Frugal (f a)) :
    Frugal (l.forM f) := by
  induction l with
  | nil => exact pure _
  | cons a l ih => exact bind (h a) fun _ => ih

theorem ite {c : Prop} [Decidable c] {x y : VolumeM n α} (hx : Frugal x) (hy : Frugal y) :
    Frugal (if c then x else y) := by
  split
  · exact hx
  · exact hy

end Frugal

/-- The same for an attempt, which moreover is not refused for want of a sector. -/
def Attempt.Frugal (x : Attempt n α) : Prop :=
  ∀ v, Yields anyFault x.run v fun answer v' =>
    answer ≠ .error .noSpace ∧ FreeMap.Eased v.map v'.map

namespace Attempt.Frugal

variable {x : Attempt n α}

theorem pure (a : α) : Frugal (pure a : Attempt n α) := fun v =>
  Yields.pure ⟨nofun, FreeMap.Eased.refl v.map⟩

theorem always {x : VolumeM n α} (hx : TieredVolume.Frugal x) : Frugal (always x) := fun v =>
  (hx v).andThen fun _ _ h => Yields.pure ⟨nofun, h⟩

theorem refuse {why : Refusal} (hwhy : why ≠ .noSpace) : Frugal (refuse why : Attempt n α) :=
  fun v => Yields.pure ⟨fun h => hwhy (Except.error.inj h), FreeMap.Eased.refl v.map⟩

theorem bind {f : α → Attempt n β} (hx : Frugal x) (hf : ∀ a, Frugal (f a)) :
    Frugal (x >>= f) := fun v => by
  rw [run_bind]
  refine (hx v).andThen fun answer v' h => ?_
  cases answer with
  | ok a => exact (hf a v').mono fun _ _ h' => ⟨h'.1, h.2.trans h'.2⟩
  | error why => exact Yields.pure ⟨fun heq => h.1 (by rw [Except.error.inj heq]), h.2⟩

end Attempt.Frugal

/-! ### Sectors given back -/

theorem release_frugal (s : Sector) (count : Nat) : Frugal (Volume.release (n := n) s count) := by
  have hgive : Frugal (Volume.onMap (n := n) (FreeMap.giveBack s.block count)) := fun v =>
    Volume.Yields.onMap (FreeMap.giveBack_eases s.block count v.map)
  have hpersist : Frugal (Volume.persistRun (n := n) s.block count) :=
    Frugal.get.bind fun _ => Frugal.onCache _
  refine (Frugal.ofExcept _).bind fun _ => hgive.bind fun _ => ?_
  split
  · exact hpersist.bind fun _ => Frugal.onCache _
  · exact Frugal.onCache _

/-! ### Inodes -/

namespace Inode

theorem node_frugal (s : Sector) : Frugal (node (n := n) s) := by
  refine Frugal.get.bind fun v => ?_
  cases v.table.find? s with
  | none => exact Frugal.throw _
  | some nd => exact Frugal.pure nd

theorem setNode_frugal (s : Sector) (nd : Node) : Frugal (setNode (n := n) s nd) :=
  Frugal.modify fun _ => rfl

theorem open_frugal (s : Sector) : Frugal («open» (n := n) s) :=
  Frugal.get.bind fun _ => setNode_frugal s _

theorem load_frugal (s : Sector) : Frugal (load (n := n) s) := by
  refine (node_frugal s).bind fun nd => ?_
  cases nd.loaded with
  | none => exact (Frugal.onCache _).bind fun _ => setNode_frugal s _
  | some l => exact setNode_frugal s _

theorem unload_frugal (s : Sector) : Frugal (unload (n := n) s) := by
  refine (node_frugal s).bind fun nd => ?_
  match nd.loaded with
  | none => exact Frugal.throw _
  | some ⟨0, record⟩ => exact (setNode_frugal s _).bind fun _ => Frugal.onCache _
  | some ⟨k + 1, record⟩ => exact setNode_frugal s _

theorem record_frugal (s : Sector) : Frugal (record (n := n) s) := by
  refine (node_frugal s).bind fun nd => ?_
  cases nd.loaded with
  | none => exact Frugal.throw _
  | some l => exact Frugal.pure _

theorem updateRecord_frugal (s : Sector) (f : Record → Except Fault Record) :
    Frugal (updateRecord (n := n) s f) := by
  refine (node_frugal s).bind fun nd => ?_
  cases nd.loaded with
  | none => exact Frugal.throw _
  | some l => exact (Frugal.ofExcept _).bind fun _ => setNode_frugal s _

theorem withLoaded_frugal {body : VolumeM n α} (s : Sector) (h : Frugal body) :
    Frugal (withLoaded s body) :=
  (load_frugal s).bind fun _ => h.bind fun _ => (unload_frugal s).bind fun _ => Frugal.pure _

theorem find?_frugal (s : Sector) (l : Nat) : Frugal (find? (n := n) s l) := by
  refine (Frugal.ofExcept _).bind fun path => (record_frugal s).bind fun r =>
    (Frugal.ofExcept _).bind fun raw => ?_
  cases Sector.decode raw with
  | none => exact Frugal.pure _
  | some next => exact Frugal.onCache _

theorem announceNext_frugal (s : Sector) (length l : Nat) :
    Frugal (announceNext (n := n) s length l) := by
  refine Frugal.ite ((find?_frugal s _).bind fun next? => ?_) (Frugal.pure _)
  cases next? with
  | none => exact Frugal.pure _
  | some next => exact Frugal.onCache _

theorem readSpans_frugal (s : Sector) (length : Nat) (spans : List Span) (pieces : List Bytes) :
    Frugal (readSpans (n := n) s length spans pieces) := by
  induction spans generalizing pieces with
  | nil => exact Frugal.pure _
  | cons span rest ih =>
    refine (find?_frugal s _).bind fun sector? => ?_
    cases sector? with
    | none => exact Frugal.pure _
    | some sector =>
      exact (Frugal.onCache _).bind fun _ => (announceNext_frugal s _ _).bind fun _ => ih _

theorem readAt_frugal (s : Sector) (offset count : Nat) : Frugal (readAt (n := n) s offset count) :=
  withLoaded_frugal s <| (record_frugal s).bind fun _ =>
    (readSpans_frugal s _ _ _).bind fun _ => Frugal.pure _

theorem length_frugal (s : Sector) : Frugal (length (n := n) s) :=
  withLoaded_frugal s <| (record_frugal s).bind fun _ => Frugal.pure _

theorem parent_frugal (s : Sector) : Frugal (parent (n := n) s) :=
  withLoaded_frugal s <| (record_frugal s).bind fun _ => Frugal.pure _

theorem writeSpans_frugal (s : Sector) (spans : List Span) (bytes : Bytes) (written : Nat) :
    Frugal (writeSpans (n := n) s spans bytes written) := by
  induction spans generalizing bytes written with
  | nil => exact Frugal.pure _
  | cons span rest ih =>
    refine (find?_frugal s _).bind fun sector? => ?_
    cases sector? with
    | none => exact Frugal.pure _
    | some sector => exact (Frugal.onCache _).bind fun _ => ih _ _

theorem releaseTree_frugal (depth : Nat) (s : Sector) : Frugal (releaseTree (n := n) depth s) := by
  induction depth generalizing s with
  | zero => exact release_frugal s 1
  | succ depth ih =>
    exact (Frugal.onCache _).bind fun node => (Frugal.ofExcept _).bind fun links =>
      (Frugal.forM ih).bind fun _ => release_frugal s 1

theorem releaseLinks_frugal (slot : Nat) (raws : List UInt32) :
    Frugal (releaseLinks (n := n) slot raws) := by
  induction raws generalizing slot with
  | nil => exact Frugal.pure _
  | cons raw rest ih =>
    rw [releaseLinks]
    cases Sector.decode raw with
    | none => exact ih (slot + 1)
    | some s => exact (releaseTree_frugal _ s).bind fun _ => ih (slot + 1)

theorem releaseContents_frugal (s : Sector) : Frugal (releaseContents (n := n) s) :=
  withLoaded_frugal s <| (record_frugal s).bind fun _ => (Frugal.ofExcept _).bind fun _ =>
    (releaseLinks_frugal 0 _).bind fun _ => updateRecord_frugal s _

theorem close_frugal (s : Sector) : Frugal (close (n := n) s) := by
  have herase : Frugal (modify fun v : Volume n => { v with table := v.table.erase s }) :=
    Frugal.modify fun _ => rfl
  refine (node_frugal s).bind fun nd => ?_
  split
  · exact setNode_frugal s _
  cases nd.removed with
  | false => exact herase.bind fun _ => Frugal.pure _
  | true =>
    exact (releaseContents_frugal s).bind fun _ => herase.bind fun _ =>
      release_frugal s 1

end Inode

/-! ### Directories and paths -/

namespace Directory

theorem findFrom_frugal (dir : Sector) (p : Entry → Bool) (slots offset : Nat) :
    Frugal (findFrom (n := n) dir p slots offset) := by
  induction slots generalizing offset with
  | zero => exact Frugal.pure _
  | succ slots ih =>
    refine ((Inode.readAt_frugal dir _ _).bind fun _ => Frugal.pure _).bind fun entry? => ?_
    cases entry? with
    | none => exact Frugal.pure _
    | some entry => exact Frugal.ite (Frugal.pure _) (ih _)

theorem lookup_frugal (dir : Sector) (name : String) : Frugal (lookup (n := n) dir name) :=
  findFrom_frugal dir _ _ _

theorem freeOffset_frugal (dir : Sector) : Frugal (freeOffset (n := n) dir) := by
  refine (findFrom_frugal dir _ _ _).bind fun found => ?_
  cases found with
  | none => exact Inode.length_frugal dir
  | some found => exact Frugal.pure _

end Directory

namespace Namespace

theorem walk_frugal (names : List String) (s : Sector) (isDir : Bool) :
    Frugal (walk (n := n) names s isDir) := by
  induction names generalizing s isDir with
  | nil => exact Frugal.pure _
  | cons name rest ih =>
    refine Frugal.ite (ih s isDir) (Frugal.ite ?_ (Frugal.ite ?_ ?_))
    · exact (Inode.parent_frugal s).bind fun parent => (Inode.open_frugal parent).bind fun _ =>
        (Inode.close_frugal s).bind fun _ => ih parent true
    · exact (Inode.close_frugal s).bind fun _ => Frugal.pure _
    · refine (Directory.lookup_frugal s name).bind fun found =>
        (Inode.close_frugal s).bind fun _ => ?_
      cases found with
      | none => exact Frugal.pure _
      | some found => exact (Inode.open_frugal _).bind fun _ => ih _ _

theorem resolve_frugal (cwd : Sector) (path : String) : Frugal (resolve (n := n) cwd path) :=
  Frugal.ite (Frugal.pure _) ((Inode.open_frugal _).bind fun _ => walk_frugal _ _ true)

theorem openFile_frugal (path : String) (cwd : Sector) : (openFile (n := n) path cwd).Frugal := by
  refine (Attempt.Frugal.always (resolve_frugal cwd path)).bind fun found => ?_
  match found with
  | none => exact Attempt.Frugal.refuse nofun
  | some (s, true) =>
    exact (Attempt.Frugal.always (Inode.close_frugal s)).bind fun _ => Attempt.Frugal.refuse nofun
  | some (s, false) => exact Attempt.Frugal.pure s

theorem openDirectory_frugal (path : String) (cwd : Sector) :
    (openDirectory (n := n) path cwd).Frugal := by
  refine (Attempt.Frugal.always (resolve_frugal cwd path)).bind fun found => ?_
  match found with
  | none => exact Attempt.Frugal.refuse nofun
  | some (s, true) => exact Attempt.Frugal.pure s
  | some (s, false) =>
    exact (Attempt.Frugal.always (Inode.close_frugal s)).bind fun _ => Attempt.Frugal.refuse nofun

theorem openParent_frugal (dir : String) (cwd : Sector) :
    (openParent (n := n) dir cwd).Frugal := by
  unfold openParent
  split
  · exact (Attempt.Frugal.always (Inode.open_frugal cwd)).bind fun _ => Attempt.Frugal.pure cwd
  · exact openDirectory_frugal dir cwd

end Namespace
end TieredVolume
