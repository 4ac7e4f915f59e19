import TieredVolume.Namespace.Operations
import TieredVolume.Proofs.Namespace.Tree

/-!
Walking and opening by path. On a shelf whose directories make a tree, a walk comes to the inode at
the place to which the names lead, with that inode open once more; where they lead nowhere, it
leaves everything as it was.
-/
namespace TieredVolume

variable {total : Nat} {S S' : Shelf} {p q c : List String} {s d cwd : Sector} {b isDir : Bool} {nd : Node}
  {name path : String} {names : List String} {faults : Fault → Prop} {n : Nat}

/-- The tree of a shelf. -/
def Shelf.tree (S : Shelf) : Tree := treeOf S.file

/-- A shelf between two operations. Its inodes are those in the tree and those that were removed
while someone had them open; directories are never denied writing. -/
structure Settled (S : Shelf) : Prop where
  rooted : Rooted S.file
  spare : S.spare = ∅
  counted : S.Counted
  opened : ∀ s nd, S.node s = some nd → s ∈ S.live
  linked : ∀ p s b, S.tree p = some (s, b) → s ∈ S.live
  standing : ∀ p s b nd, S.tree p = some (s, b) → S.node s = some nd → nd.removed = false
  writable : ∀ p d nd, S.tree p = some (d, true) → S.node d = some nd → nd.denials = 0
  held : ∀ s ∈ S.live, (∃ p b, S.tree p = some (s, b)) ∨
    ∃ nd, S.node s = some nd ∧ nd.removed = true

namespace Namespace

open Volume Attempt

/-- Closing an inode after another was opened. -/
theorem leave_does (hS : Settled S) {t : Sector} (hs : s ∈ S.live) :
    Does (Stores total) faults (Inode.close (n := n) s) ((S.opened s).opened t) fun _ S' =>
      S' = S.opened t := by
  obtain ⟨nd, hn⟩ : ∃ nd, ((S.opened s).opened t).node s = some nd := by
    rw [Shelf.opened_comm]
    exact ⟨_, Shelf.node_opened _ s⟩
  refine (Inode.close_stores (S := (S.opened s).opened t) hs hn).mono ?_
  rintro - S₁ rfl
  exact Shelf.closed_opened_opened hS.counted s t

theorem close_does (hS : Settled S) (hs : s ∈ S.live) :
    Does (Stores total) faults (Inode.close (n := n) s) (S.opened s) fun _ S' => S' = S := by
  refine (Inode.close_stores (S := S.opened s) hs (S.node_opened s)).mono ?_
  rintro - S' rfl
  exact Shelf.closed_opened hS.counted

/-- What a walk comes to when names lead to a place, or nowhere. -/
def Arrives (S : Shelf) (place : Option (List String)) (found : Option (Sector × Bool))
    (S' : Shelf) : Prop :=
  match place with
  | none => found = none ∧ S' = S
  | some q => ∃ s b, S.tree q = some (s, b) ∧ found = some (s, b) ∧ S' = S.opened s

theorem walk_does (hS : Settled S) (hp : S.tree p = some (s, isDir)) :
    Does (Stores total) faults (walk (n := n) names s isDir) (S.opened s)
      (Arrives S (S.tree.walk names p)) := by
  induction names generalizing p s isDir with
  | nil => exact Does.pure ⟨s, isDir, hp, rfl, rfl⟩
  | cons name rest ih =>
    have hlive := hS.linked p s isDir hp
    have hnode := S.node_opened s
    rw [walk, Tree.walk]
    by_cases hdot : name = "."
    · rw [if_pos hdot, if_pos hdot]
      exact ih hp
    rw [if_neg hdot, if_neg hdot]
    by_cases hdots : name = ".."
    · rw [if_pos hdots, if_pos hdots]
      obtain ⟨d, hd⟩ := exists_treeOf_tail hp
      refine Does.andThen (Inode.parent_does (S := S.opened s) hlive hnode) ?_
      rintro t S₁ ⟨rfl, rfl⟩
      have hparent : ((S.opened s).file s).parent = d := hS.rooted.parent p s isDir d true hp hd
      rw [hparent]
      refine Does.andThen (Inode.open_stores (S := S.opened s) (hS.linked _ d true hd)) ?_
      rintro - S₁ rfl
      refine Does.andThen (leave_does hS hlive) ?_
      rintro - S₁ rfl
      exact ih hd
    rw [if_neg hdots, if_neg hdots]
    cases isDir with
    | false =>
      rw [if_pos (by decide), hp]
      refine Does.andThen (close_does hS hlive) ?_
      rintro - S₁ rfl
      exact Does.pure ⟨rfl, rfl⟩
    | true =>
      rw [if_neg (by decide)]
      refine Does.andThen (Directory.lookup_does (S := S.opened s) hlive hnode) ?_
      rintro found S₁ ⟨rfl, hfound⟩
      refine Does.andThen (close_does hS hlive) ?_
      rintro - S₁ rfl
      have hchild : S₁.tree (name :: p) = findSlot (S₁.slots s) name := treeOf_cons hp
      rcases found with - | ⟨e, offset⟩
      · have hnone : S₁.tree (name :: p) = none := hchild.trans hfound
        rw [hp, hnone]
        exact Does.pure ⟨rfl, rfl⟩
      · obtain ⟨i, -, hfound⟩ := hfound
        have hsome : S₁.tree (name :: p) = some (e.sector, e.isDir) := hchild.trans hfound.find
        rw [hp, hsome]
        refine Does.andThen (Inode.open_stores (hS.linked _ _ _ hsome)) ?_
        rintro - S₂ rfl
        exact ih hsome

theorem resolve_does (hS : Settled S) (hc : S.tree c = some (cwd, true)) :
    Does (Stores total) faults (resolve (n := n) cwd path) S (Arrives S (S.tree.resolve c path)) := by
  unfold resolve Tree.resolve
  by_cases hpath : path = ""
  · rw [if_pos hpath, if_pos hpath]
    exact Does.pure ⟨rfl, rfl⟩
  rw [if_neg hpath, if_neg hpath]
  obtain ⟨start, hstart, hplace⟩ : ∃ start,
      start = (if Path.isAbsolute path = true then rootSector else cwd) ∧
      S.tree (if Path.isAbsolute path = true then [] else c) = some (start, true) := by
    refine ⟨_, rfl, ?_⟩
    split
    · rfl
    · exact hc
  dsimp only
  rw [← hstart]
  refine Does.andThen (Inode.open_stores (hS.linked _ _ _ hplace)) ?_
  rintro - S₁ rfl
  exact walk_does hS hplace

/-- Opening what a path leads to if it is of one kind, and refusing the other. -/
theorem openKind_tries {x : Option (Sector × Bool) → Attempt n Sector} {isDir : Bool}
    {other : Refusal} (hnone : x none = refuse .notFound) (hsame : ∀ s, x (some (s, isDir)) = pure s)
    (hother : ∀ s, x (some (s, !isDir)) = do
      always (Inode.close s)
      refuse other)
    (hS : Settled S) (hc : S.tree c = some (cwd, true)) :
    Tries (Stores total) faults (do
        let found ← always (resolve cwd path)
        x found) S
      (fun s S' => ∃ q, S.tree.resolve c path = some q ∧ S.tree q = some (s, isDir) ∧
        S' = S.opened s)
      (fun why S' => S' = S ∧ (why = .notFound ∧ S.tree.resolve c path = none ∨
        why = other ∧ ∃ q s, S.tree.resolve c path = some q ∧ S.tree q = some (s, !isDir))) := by
  refine Tries.bind (Tries.always ((resolve_does hS hc).mono fun found S₁ harrives => ?_))
  cases hq : S.tree.resolve c path with
  | none =>
    rw [hq] at harrives
    obtain ⟨rfl, rfl⟩ := harrives
    rw [hnone]
    exact Tries.refuse ⟨rfl, .inl ⟨rfl, rfl⟩⟩
  | some q =>
    rw [hq] at harrives
    obtain ⟨s, kind, hplace, rfl, rfl⟩ := harrives
    by_cases hkind : kind = isDir
    · subst hkind
      rw [hsame]
      exact Tries.pure ⟨q, rfl, hplace, rfl⟩
    · obtain rfl : kind = !isDir := Bool.eq_not_of_ne hkind
      rw [hother]
      refine Tries.bind (Tries.always ((close_does hS (hS.linked _ _ _ hplace)).mono ?_))
      rintro - S₂ rfl
      exact Tries.refuse ⟨rfl, .inr ⟨rfl, q, s, rfl, hplace⟩⟩

theorem openFile_tries (hS : Settled S) (hc : S.tree c = some (cwd, true)) :
    Tries (Stores total) faults (openFile (n := n) path cwd) S
      (fun s S' => ∃ q, S.tree.resolve c path = some q ∧ S.tree q = some (s, false) ∧
        S' = S.opened s)
      (fun why S' => S' = S ∧ (why = .notFound ∧ S.tree.resolve c path = none ∨
        why = .isADirectory ∧ ∃ q s, S.tree.resolve c path = some q ∧
          S.tree q = some (s, true))) :=
  openKind_tries rfl (fun _ => rfl) (fun _ => rfl) hS hc

theorem openDirectory_tries (hS : Settled S) (hc : S.tree c = some (cwd, true)) :
    Tries (Stores total) faults (openDirectory (n := n) path cwd) S
      (fun s S' => ∃ q, S.tree.resolve c path = some q ∧ S.tree q = some (s, true) ∧
        S' = S.opened s)
      (fun why S' => S' = S ∧ (why = .notFound ∧ S.tree.resolve c path = none ∨
        why = .notADirectory ∧ ∃ q s, S.tree.resolve c path = some q ∧
          S.tree q = some (s, false))) :=
  openKind_tries rfl (fun _ => rfl) (fun _ => rfl) hS hc

theorem openParent_tries (hS : Settled S) (hc : S.tree c = some (cwd, true)) :
    Tries (Stores total) faults (openParent (n := n) path cwd) S
      (fun s S' => ∃ q, S.tree.resolveParent c path = some q ∧ S.tree q = some (s, true) ∧
        S' = S.opened s)
      (fun why S' => S' = S ∧ (why = .notFound ∧ S.tree.resolveParent c path = none ∨
        why = .notADirectory ∧ ∃ q s, S.tree.resolveParent c path = some q ∧
          S.tree q = some (s, false))) := by
  unfold openParent Tree.resolveParent
  by_cases hpath : path = ""
  · simp only [if_pos hpath]
    refine Tries.bind (Tries.always ((Inode.open_stores (hS.linked c cwd true hc)).mono ?_))
    rintro - S₁ rfl
    exact Tries.pure ⟨c, rfl, hc, rfl⟩
  · simp only [if_neg hpath]
    exact openDirectory_tries hS hc

end Namespace
end TieredVolume
