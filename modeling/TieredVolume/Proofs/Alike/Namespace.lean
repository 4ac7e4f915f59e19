import TieredVolume.Proofs.Alike.Directory
import TieredVolume.Proofs.Namespace.Operations

/-!
Walking, creating and removing by path, twice over. A new inode takes a sector that may hold
anything in either run; it is either made, or given back as it was.
-/
namespace TieredVolume

variable {total : Nat} {w w₂ : View} {S : Shelf} {p c : List String} {s d cwd : Sector} {b b₂ : Block}
  {isDir : Bool} {nd : Node} {name path : String} {names : List String} {new : Namespace.NewNode}

namespace Namespace

open Volume Attempt

/-! ### Walking -/

theorem walk_alike (hS : Settled S) (hp : S.tree p = some (s, isDir)) (hw : Keeps total w (S.opened s)) :
    Alike (fun n => walk (n := n) names s isDir) w := by
  induction names generalizing p s isDir w with
  | nil => exact InStep.pure rfl
  | cons name rest ih =>
    have hlive : s ∈ (S.opened s).live := hS.linked p s isDir hp
    have hnode := S.node_opened s
    refine InStep.ite (fun _ => ih hp hw) fun _ => InStep.ite (fun _ => ?_) fun _ => ?_
    · obtain ⟨d, hd⟩ := exists_treeOf_tail hp
      have hdlive := hS.linked _ d true hd
      refine Alike.andThen (Inode.parent_alike hlive hnode hw)
        ((Inode.parent_does hlive hnode).lower hw) ?_
      rintro t w₁ ⟨_, hw₁, rfl, rfl⟩
      have hparent : ((S.opened s).file s).parent = d := hS.rooted.parent p s isDir d true hp hd
      rw [hparent]
      refine Alike.andThen Inode.open_alike
        ((Inode.open_stores (S := S.opened s) hdlive).lower hw₁) ?_
      rintro - w₂ ⟨_, hw₂, rfl⟩
      obtain ⟨nd, hnd⟩ : ∃ nd, ((S.opened s).opened d).node s = some nd := by
        rw [Shelf.opened_comm]
        exact ⟨_, Shelf.node_opened _ s⟩
      refine Alike.andThen (Inode.close_alike hw₂ hlive hnd) ((leave_does hS hlive).lower hw₂) ?_
      rintro - w₃ ⟨_, hw₃, rfl⟩
      exact ih hd hw₃
    · cases isDir with
      | false => exact (Inode.close_alike hw hlive hnode).map
      | true =>
        refine Alike.andThen (Directory.lookup_alike hlive hnode hw)
          ((Directory.lookup_does hlive hnode).lower hw) ?_
        rintro found w₁ ⟨_, hw₁, rfl, hfound⟩
        refine Alike.andThen (Inode.close_alike hw₁ hlive hnode) ((close_does hS hlive).lower hw₁) ?_
        rintro - w₂ ⟨S, hw₂, rfl⟩
        rcases found with - | ⟨e, offset⟩
        · exact InStep.pure rfl
        · obtain ⟨i, -, hfound⟩ := hfound
          have hchild : S.tree (name :: p) = some (e.sector, e.isDir) :=
            (treeOf_cons hp).trans hfound.find
          refine Alike.andThen Inode.open_alike
            ((Inode.open_stores (hS.linked _ _ _ hchild)).lower hw₂) ?_
          rintro - w₃ ⟨_, hw₃, rfl⟩
          exact ih hchild hw₃

section Paths

variable (hS : Settled S) (hc : S.tree c = some (cwd, true)) (hw : Keeps total w S)

include hS hc hw

theorem resolve_alike : Alike (fun n => resolve (n := n) cwd path) w := by
  refine InStep.ite (fun _ => InStep.pure rfl) fun _ => ?_
  obtain ⟨q, hq⟩ : ∃ q, S.tree q = some (if Path.isAbsolute path then rootSector else cwd, true) := by
    split
    · exact ⟨[], rfl⟩
    · exact ⟨c, hc⟩
  refine Alike.andThen Inode.open_alike ((Inode.open_stores (hS.linked _ _ _ hq)).lower hw) ?_
  rintro - w₁ ⟨_, hw₁, rfl⟩
  exact walk_alike hS hq hw₁

/-- Opening what a path leads to if it is of one kind, and refusing the other. -/
theorem openKind_alike (isDir : Bool) (other : Refusal)
    {x : (n : Nat) → Option (Sector × Bool) → Attempt n Sector}
    (hnone : ∀ n, x n none = refuse .notFound) (hsame : ∀ n s, x n (some (s, isDir)) = pure s)
    (hother : ∀ n s, x n (some (s, !isDir)) = do
      always (Inode.close s)
      refuse other) :
    Alike (fun n => (do
      let found ← always (resolve (n := n) cwd path)
      x n found).run) w := by
  refine InStep.always_bind (Alike.andThen (resolve_alike hS hc hw) ((resolve_does hS hc).lower hw) ?_)
  rintro found w₁ ⟨_, hw₁, harrives⟩
  cases hq : S.tree.resolve c path with
  | none =>
    rw [hq] at harrives
    obtain ⟨rfl, rfl⟩ := harrives
    simp only [hnone]
    exact InStep.pure rfl
  | some q =>
    rw [hq] at harrives
    obtain ⟨s, kind, hplace, rfl, rfl⟩ := harrives
    by_cases hkind : kind = isDir
    · subst hkind
      simp only [hsame]
      exact InStep.pure rfl
    · obtain rfl : kind = !isDir := Bool.eq_not_of_ne hkind
      simp only [hother]
      exact InStep.always_bind
        (Inode.close_alike hw₁ (hS.linked _ _ _ hplace) (S.node_opened s)).map

theorem openFile_alike : Alike (fun n => (openFile (n := n) path cwd).run) w :=
  openKind_alike hS hc hw false .isADirectory (fun _ => rfl) (fun _ _ => rfl) fun _ _ => rfl

theorem openDirectory_alike : Alike (fun n => (openDirectory (n := n) path cwd).run) w :=
  openKind_alike hS hc hw true .notADirectory (fun _ => rfl) (fun _ _ => rfl) fun _ _ => rfl

theorem openParent_alike : Alike (fun n => (openParent (n := n) path cwd).run) w := by
  unfold openParent
  by_cases hpath : path = ""
  · simp only [if_pos hpath]
    exact InStep.always_bind Inode.open_alike.map
  · simp only [if_neg hpath]
    exact openDirectory_alike hS hc hw

end Paths

/-! ### Creating -/

theorem make_inStep (hw : Keeps total w S) (hs : s ∈ S.spare) :
    InStep (fun n => (new.make (n := n) s d).run) w (w.put s b) fun
      | .ok _, w', w₂' => w' = w₂'
      | .error _, w', w₂' => w' = w₂' ∧ w'.Stored s ∨ w' = w ∧ w₂' = w.put s b := by
  cases new with
  | file size => exact Inode.create_inStep hw hs
  | directory => exact InStep.always_bind (InStep.ofExcept fun _ _ => Inode.create_inStep hw hs)

/-- Giving back a sector that was just taken leaves everything as it was before. -/
theorem release_taken (hfree : w.used s = false) (hmap : ¬ IsMap w.total s) {n : Nat} :
    Does Shows never (release (n := n) s 1) (w.take s b) fun _ w' => w' = w := by
  intro v hv
  refine (release_does (stored_take hmap) v hv).mono ?_
  rintro - v' ⟨w', hv', rfl⟩
  have hput : (w.take s b).free s = w.put s b := by
    simp only [View.take, View.free, View.put, Function.update_idem, ← hfree, Function.update_eq_self]
  have hnot : ¬ w.Stored s := fun hst => by
    rw [hst.1] at hfree
    cases hfree
  exact ⟨w, Shows.of_put (hput ▸ hv') hnot, rfl⟩

/-- A new inode is made in a sector that was just taken, or the sector is given back. -/
theorem makeNew_alike (hw : Keeps total (w.take s b) S) (hs : s ∈ S.spare) (hfree : w.used s = false)
    (hmap : ¬ IsMap w.total s) :
    InStep (fun n => (onRefusal (new.make (n := n) s d) (release s 1)).run) (w.take s b) (w.take s b₂)
      Met := by
  have hmake : InStep (fun n => (new.make (n := n) s d).run) (w.take s b) ((w.take s b).put s b₂) _ :=
    make_inStep hw hs
  rw [put_take] at hmake
  refine InStep.onRefusal hmake (fun _ _ _ hmet => hmet) ?_
  rintro why w' w₂' (⟨rfl, hstored⟩ | ⟨rfl, rfl⟩)
  · exact Alike.of_move (release_does hstored)
  · exact InStep.of_does (release_taken hfree hmap) (release_taken hfree hmap)
      fun _ _ _ _ hx hy => ⟨rfl, hx.trans hy.symm⟩

theorem discard_alike (hw : Keeps total w S) (hs : s ∈ S.live) :
    Alike (fun n => discard (n := n) s) w := by
  have hn := S.node_opened s
  refine Alike.andThen Inode.open_alike ((Inode.open_stores hs).lower hw) ?_
  rintro - w₁ ⟨_, hw₁, rfl⟩
  refine Alike.andThen (Inode.updateNode_alike hw₁ hn fun hbare => hbare)
    ((Inode.updateNode_stores (S := S.opened s) hs hn fun hbare => hbare).lower hw₁) ?_
  rintro - w₂ ⟨_, hw₂, rfl⟩
  exact Inode.close_alike hw₂ hs (Function.update_self ..)

section CreateIn

variable (hdot : name ≠ ".") (hdots : name ≠ "..")

include hdot hdots

theorem addNew_alike (hd : S.Listed d) (hs : s ∈ S.live) (hw : Keeps total w (S.opened d)) :
    Alike (fun n => (onRefusal (Directory.add (n := n) d name s isDir) (discard s)).run) w := by
  have hn := S.node_opened d
  refine Alike.onRefusal (Directory.add_alike (S := S.opened d) hd.live hn hw hd.whole)
    ((Directory.add_tries (S := S.opened d) hd.live hn hd.writable hd.whole hd.orderly hdot hdots
      fun _ => .inr trivial).lower hw) ?_
  rintro why w' ⟨_, hw', rfl, -⟩
  exact discard_alike hw' hs

theorem createIn_alike (hd : S.Listed d) (hw : Keeps total w (S.opened d)) :
    Alike (fun n => (createIn (n := n) d name new).run) w := by
  refine InStep.bind (allocate_inStep rfl rfl) ?_ fun _ _ _ hpost => hpost.1.trans hpost.2.symm
  rintro s _ _ ⟨hlt, hlimit, hfree, hmap, b, b₂, rfl, rfl⟩
  have ha := setAside_take (b := b) hw.forest hlt hlimit hfree hmap
  have hnew := hw.setAside ha
  have hin : s ∈ { S.opened d with spare := insert s (S.opened d).spare }.spare := .inl rfl
  -- the shelf on which the sector is set aside while the directory is not open
  obtain ⟨T, hT⟩ : ∃ T, T = { S with spare := insert s S.spare } := ⟨_, rfl⟩
  have hmake : ∀ {n}, Tries Shows anyFault (onRefusal (new.make (n := n) s d) (release s 1))
      (w.take s b) (fun _ w' => Keeps total w' ((T.plant s ⟨d, List.replicate new.length 0⟩).opened d))
      (fun _ _ => True) := by
    refine Tries.onRefusal (((make_tries hin (.inr fun _ => trivial)).lower hnew).mono ?_ ?_)
    · rintro - w' ⟨_, hw', rfl⟩
      exact hT ▸ hw'
    · rintro why w' ⟨_, hw', -, -, rfl⟩
      exact ((Inode.release_stores hin).lower hw').mono fun _ _ _ => trivial
  refine InStep.bind ((makeNew_alike hnew hin hfree hmap).also hmake) ?_
    fun _ _ _ hpost => hpost.1
  rintro ⟨⟩ w' _ ⟨rfl, hw'⟩
  have hlisted : T.Listed d := hT ▸ ⟨hd.live, hd.whole, hd.orderly, hd.writable⟩
  have hlive : s ∉ T.live := hT ▸ ha.not_live
  exact addNew_alike hdot hdots (hlisted.plant hlive) (.inl rfl) hw'

end CreateIn

section Paths

variable (hS : Settled S) (hc : S.tree c = some (cwd, true)) (hw : Keeps total w S)

include hS hc hw

theorem createNode_alike : Alike (fun n => (createNode (n := n) path cwd new).run) w := by
  unfold createNode
  cases hsplit : Path.parentFile path with
  | none => exact InStep.pure rfl
  | some split =>
    obtain ⟨dir, name⟩ := split
    by_cases hbad : (!isValidName name || decide (name = ".") || decide (name = "..")) = true
    · simp only [if_pos hbad]
      exact InStep.refuse_bind rfl
    · simp only [if_neg hbad]
      simp only [Bool.or_eq_true, Bool.not_eq_true', decide_eq_true_eq, not_or,
        Bool.not_eq_false] at hbad
      obtain ⟨⟨hname, hdot⟩, hdots⟩ := hbad
      refine Alike.bind (openParent_alike hS hc hw) ((openParent_tries hS hc).lower hw) ?_
      rintro d w₁ ⟨_, hw₁, q, -, hq, rfl⟩
      have hd := hS.listed hq
      have hn := S.node_opened d
      refine Alike.thenAlways (createIn_alike hdot hdots hd hw₁)
        ((createIn_tries hS.counted hS.opened hd hname hdot hdots (fun _ => .inr trivial) hS.spare
          (.inr fun _ => trivial)).lower hw₁) ?_ ?_
      · rintro - w₂ ⟨_, hw₂, -, s, bytes, -, -, rfl⟩
        exact Inode.close_alike hw₂ (.inr hd.live) (Shelf.node_opened _ d)
      · rintro why w₂ ⟨_, hw₂, rfl, -⟩
        exact Inode.close_alike (S := S.opened d) hw₂ hd.live hn

theorem remove_alike : Alike (fun n => (remove (n := n) path cwd).run) w := by
  unfold remove
  cases hsplit : Path.parentFile path with
  | none => exact InStep.pure rfl
  | some split =>
    obtain ⟨dir, name⟩ := split
    refine Alike.bind (openParent_alike hS hc hw) ((openParent_tries hS hc).lower hw) ?_
    rintro d w₁ ⟨_, hw₁, q, -, hq, rfl⟩
    have hd := hS.listed hq
    have hn := S.node_opened d
    have hchild : S.tree (name :: q) = findSlot (S.slots d) name := treeOf_cons hq
    have htarget : ∀ t b, findSlot (S.slots d) name = some (t, b) → t ∈ S.live ∧ d ≠ t :=
      fun t b ht => by
        have ht' : S.tree (name :: q) = some (t, b) := hchild.trans ht
        refine ⟨hS.linked _ t b ht', fun heq => ?_⟩
        have hpq := hS.rooted.unique q (name :: q) d true b hq (heq ▸ ht')
        exact List.cons_ne_self name q hpq.symm
    refine Alike.thenAlways (Directory.removeIf_alike (S := S.opened d) hd.live hn hd.writable
      hd.whole (hS.counted.opened d) hw₁ htarget)
      ((Directory.removeIf_tries (S := S.opened d) hd.live hn hd.writable hd.whole hd.orderly
        (hS.counted.opened d) htarget).lower hw₁) ?_ ?_
    · rintro - w₂ ⟨_, hw₂, e, hfind, -, bytes, -, rfl⟩
      have hdt := (htarget _ _ hfind).2
      have hopened : ((S.opened d).setBytes d bytes).removed e.sector =
          ((S.setBytes d bytes).removed e.sector).opened d :=
        Shelf.removed_opened (S := S.setBytes d bytes) hdt
      rw [hopened] at hw₂
      exact Inode.close_alike hw₂ (Shelf.mem_live_removed.mpr ⟨hd.live, fun heq => absurd heq hdt⟩)
        (Shelf.node_opened _ d)
    · rintro why w₂ ⟨_, hw₂, rfl, -⟩
      exact Inode.close_alike (S := S.opened d) hw₂ hd.live hn

end Paths

end Namespace
end TieredVolume
