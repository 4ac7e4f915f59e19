import TieredVolume.Proofs.Client.Standing
import TieredVolume.Proofs.Namespace.Listing

/-!
What can be seen of a volume: where paths lead from the root, which names a directory has, how long
a file is and what bytes are in it, and which directory an inode belongs to. All this is told by the
shelf.
-/
namespace TieredVolume

/-- A way to look at a volume. -/
inductive Look where
  | find (path : String)
  | names (dir : Sector)
  | length (file : Sector)
  | bytes (file : Sector) (offset count : Nat)
  | parent (inode : Sector)

/-- What is seen. -/
inductive Sight where
  | place (found : Option (Sector × Bool))
  | names (names : List String)
  | length (length : Nat)
  | bytes (bytes : Bytes)
  | parent (dir : Sector)

namespace Look

variable {n total : Nat} {S : Shelf} {look : Look} {faults : Fault → Prop}

/-- Opens the inode that is looked at, or the root, and looks. -/
def run : Look → VolumeM n Sight
  | find path => do
    Inode.open rootSector
    return .place (← Namespace.resolve rootSector path)
  | names dir => do
    Inode.open dir
    return .names (← Directory.names dir)
  | length file => do
    Inode.open file
    return .length (← Inode.length file)
  | bytes file offset count => do
    Inode.open file
    return .bytes (← Inode.readAt file offset count)
  | parent inode => do
    Inode.open inode
    return .parent (← Inode.parent inode)

/-- What is looked at is there, and names are looked for in directories only. -/
def Suits (S : Shelf) : Look → Prop
  | find _ => True
  | names dir => ∃ p, S.tree p = some (dir, true)
  | length s | bytes s _ _ | parent s => s ∈ S.live

/-- What the shelf says is seen. -/
def sight (S : Shelf) : Look → Sight
  | find path => .place (S.tree.find [] path)
  | names dir => .names (namesAfter (S.slots dir) 0)
  | length file => .length (S.bytes file).length
  | bytes file offset count => .bytes (((S.bytes file).drop offset).take count)
  | parent inode => .parent (S.file inode).parent

theorem find_does (hS : Settled S) (path : String) :
    Does (Stores total) faults ((find path).run (n := n)) S fun seen _ =>
      seen = (find path).sight S := by
  have hroot : rootSector ∈ S.live := hS.linked [] rootSector true rfl
  refine Does.andThen (Inode.open_stores hroot) ?_
  rintro - S₁ rfl
  refine Does.andThen (Namespace.resolve_does (hS.open hroot) (c := []) rfl) ?_
  intro found S₁ harrives
  refine Does.pure (congrArg Sight.place ?_)
  change Namespace.Arrives _ (S.tree.resolve [] path) found S₁ at harrives
  rw [Tree.find]
  cases hq : S.tree.resolve [] path with
  | none =>
    rw [hq] at harrives
    exact harrives.1
  | some q =>
    rw [hq] at harrives
    obtain ⟨s, b, hplace, rfl, -⟩ := harrives
    exact hplace.symm

/-- Every look that suits the shelf sees what the shelf says. -/
theorem run_does (hS : Settled S) (hlook : look.Suits S) :
    Does (Stores total) faults (look.run (n := n)) S fun seen _ => seen = look.sight S := by
  cases look with
  | find path => exact find_does hS path
  | names dir =>
    obtain ⟨p, hp⟩ := hlook
    have hd := hS.linked p dir true hp
    refine Does.andThen (Inode.open_stores hd) ?_
    rintro - S₁ rfl
    refine Does.andThen (Directory.names_does (S := S.opened dir) hd (S.node_opened dir)) ?_
    rintro names S₁ ⟨rfl, -⟩
    exact Does.pure rfl
  | length file =>
    refine Does.andThen (Inode.open_stores hlook) ?_
    rintro - S₁ rfl
    refine Does.andThen (Inode.length_does (S := S.opened file) hlook (S.node_opened file)) ?_
    rintro length S₁ ⟨rfl, -⟩
    exact Does.pure rfl
  | bytes file offset count =>
    refine Does.andThen (Inode.open_stores hlook) ?_
    rintro - S₁ rfl
    refine Does.andThen (Inode.readAt_does (S := S.opened file) hlook (S.node_opened file)) ?_
    rintro bytes S₁ ⟨rfl, -⟩
    exact Does.pure rfl
  | parent inode =>
    refine Does.andThen (Inode.open_stores hlook) ?_
    rintro - S₁ rfl
    refine Does.andThen (Inode.parent_does (S := S.opened inode) hlook (S.node_opened inode)) ?_
    rintro dir S₁ ⟨rfl, -⟩
    exact Does.pure rfl

theorem run_eq_ok {v : Volume n} (hS : Settled S) (hv : Stores total v S)
    (hlook : look.Suits S) : ∃ left, look.run v = .ok (look.sight S) left := by
  have hrun : Yields never look.run v _ := run_does hS hlook v hv
  obtain ⟨seen, left, hx, -, -, rfl⟩ := hrun.ok_of_never
  exact ⟨left, hx⟩

end Look
end TieredVolume
