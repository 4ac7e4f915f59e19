import TieredVolume.Inode.Lifetime

/-!
Going on after a fault. An operation that ends in a fault leaves inodes open and records loaded that
it would have let go of later. They are given back here, so that what was held before the operation
is what is held after it.
-/
namespace TieredVolume

/-- How many loads of an inode have not ended. -/
def Node.loads (node : Node) : Nat :=
  match node.loaded with
  | none => 0
  | some l => l.nested + 1

namespace Inode

open Volume

variable {n : Nat}

/-- Gives back what is held of an open inode beyond what a former node of it held. -/
def giveBack (s : Sector) (former : Node) : VolumeM n Unit := do
  let node ← node s
  (List.range (node.loads - former.loads)).forM fun _ => unload s
  (List.range (node.openers - former.openers)).forM fun _ => close s

/-- Gives back all that is held beyond what the table held before. -/
def unwind (before : OpenTable) : VolumeM n Unit := do
  (← get).table.forM fun (s, _) => giveBack s ((before.find? s).getD {})

end Inode
end TieredVolume
