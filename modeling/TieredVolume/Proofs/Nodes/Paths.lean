import TieredVolume.Proofs.Nodes.Basic

/-!
The table of open inodes under directories and paths. A name is looked up, and a directory listed,
with the table left alone. Walking, creating and removing open and close inodes, so that whatever is
kept by all that can be done to a node is kept by them.
-/
namespace TieredVolume

open OpenTable Attempt

variable {n : Nat} {R : OpenTable → OpenTable → Prop}

/-! ### Directories -/

namespace Directory

section Lasting

variable [Lasting R]

theorem entryAt_moves (dir : Sector) (offset : Nat) : Moves R (entryAt (n := n) dir offset) :=
  (Inode.readAt_moves dir _ _).bind fun _ => Moves.pure _

theorem findFrom_moves (dir : Sector) (p : Entry → Bool) (slots offset : Nat) :
    Moves R (findFrom (n := n) dir p slots offset) := by
  induction slots generalizing offset with
  | zero => exact Moves.pure _
  | succ slots ih =>
    refine (entryAt_moves dir _).bind fun entry? => ?_
    cases entry? with
    | none => exact Moves.pure _
    | some entry => exact Moves.ite (Moves.pure _) (ih _)

theorem lookup_moves (dir : Sector) (name : String) : Moves R (lookup (n := n) dir name) :=
  findFrom_moves dir _ _ _

theorem isEmpty_moves (dir : Sector) : Moves R (isEmpty (n := n) dir) :=
  (findFrom_moves dir _ _ _).bind fun _ => Moves.pure _

theorem freeOffset_moves (dir : Sector) : Moves R (freeOffset (n := n) dir) := by
  refine (findFrom_moves dir _ _ _).bind fun found => ?_
  cases found with
  | none => exact Inode.length_moves dir
  | some found => exact Moves.pure _

theorem nextFrom_moves (dir : Sector) (slots offset : Nat) :
    Moves R (nextFrom (n := n) dir slots offset) := by
  induction slots generalizing offset with
  | zero => exact Moves.pure _
  | succ slots ih =>
    refine (entryAt_moves dir _).bind fun entry? => ?_
    cases entry? with
    | none => exact Moves.pure _
    | some entry => exact Moves.ite (Moves.pure _) (ih _)

end Lasting

section Admits

variable [Lasting R] {dir : Sector} (hdir : Admits R dir)

include hdir

theorem add_moves (name : String) (target : Sector) (isDir : Bool) :
    Moves R (add (n := n) dir name target isDir).run := by
  unfold add
  split
  · exact Moves.refuse_andThen _ _
  refine (lookup_moves dir _).always.andThen fun _ => ?_
  split
  · exact Moves.refuse_andThen _ _
  refine (freeOffset_moves dir).always.andThen fun _ => (Moves.ofExcept _).always.andThen fun _ =>
    (Inode.writeAt_moves hdir _ _).andThen fun _ => ?_
  split
  · exact Moves.refuse _
  · exact Moves.pure _

end Admits

section Governs

variable [Lasting R] (hall : ∀ s, Governs R s)

include hall

theorem refuseUnlessEmpty_moves (dir : Sector) : Moves R (refuseUnlessEmpty (n := n) dir).run := by
  refine (Inode.open_moves (hall dir)).always.andThen fun _ =>
    (isEmpty_moves dir).always.andThen fun _ =>
      (Inode.close_moves (hall dir)).always.andThen fun _ => ?_
  split
  · exact Moves.refuse _
  · exact Moves.pure _

theorem removeEntry_moves (dir : Sector) (entry : Entry) (offset : Nat)
    (check : Entry → Node → Except Refusal Unit) :
    Moves R (removeEntry (n := n) dir entry offset check).run := by
  have hcut : Moves R (do
      let _ ← Inode.writeAt dir offset entry.tombstone.toBytes
      always (Inode.markRemoved entry.sector) : Attempt n Unit).run :=
    (Inode.writeAt_moves (hall dir).admits _ _).andThen fun _ =>
      (Inode.markRemoved_moves (hall _).admits).always
  refine (Inode.open_moves (hall _)).always.andThen fun _ => Moves.thenAlways
    ((Inode.node_moves _).always.andThen fun _ => (Moves.ofAnswer _).andThen fun _ => ?_)
    (Inode.close_moves (hall _))
  split
  · exact (refuseUnlessEmpty_moves hall _).andThen fun _ => hcut
  · exact hcut

theorem removeIf_moves (dir : Sector) (name : String) (check : Entry → Node → Except Refusal Unit) :
    Moves R (removeIf (n := n) dir name check).run := by
  refine (lookup_moves dir name).always.andThen fun found => ?_
  match found with
  | some (entry, offset) => exact removeEntry_moves hall dir entry offset check
  | none => exact Moves.refuse _

theorem create_moves (s : Sector) (slots : Nat) (parent : Sector) :
    Moves R (create (n := n) s slots parent).run :=
  (Moves.ofExcept _).always.andThen fun _ => Inode.create_moves (hall s) _ _

end Governs

end Directory

/-! ### Paths -/

namespace Namespace

open Volume

variable [Lasting R] (hall : ∀ s, Governs R s)

include hall

theorem walk_moves (names : List String) (s : Sector) (isDir : Bool) :
    Moves R (walk (n := n) names s isDir) := by
  induction names generalizing s isDir with
  | nil => exact Moves.pure _
  | cons name rest ih =>
    refine Moves.ite (ih s isDir) (Moves.ite ?_ (Moves.ite ?_ ?_))
    · exact (Inode.parent_moves s).bind fun parent =>
        (Inode.open_moves (hall parent)).bind fun _ => (Inode.close_moves (hall s)).bind fun _ =>
          ih parent true
    · exact (Inode.close_moves (hall s)).bind fun _ => Moves.pure _
    · refine (Directory.lookup_moves s name).bind fun found =>
        (Inode.close_moves (hall s)).bind fun _ => ?_
      cases found with
      | none => exact Moves.pure _
      | some found => exact (Inode.open_moves (hall _)).bind fun _ => ih _ _

theorem resolve_moves (cwd : Sector) (path : String) : Moves R (resolve (n := n) cwd path) :=
  Moves.ite (Moves.pure _) ((Inode.open_moves (hall _)).bind fun _ => walk_moves hall _ _ true)

theorem openFile_moves (path : String) (cwd : Sector) : Moves R (openFile (n := n) path cwd).run := by
  refine (resolve_moves hall cwd path).always.andThen fun found => ?_
  match found with
  | none => exact Moves.refuse _
  | some (s, true) =>
    exact (Inode.close_moves (hall s)).always.andThen fun _ => Moves.refuse _
  | some (s, false) => exact Moves.pure _

theorem openDirectory_moves (path : String) (cwd : Sector) :
    Moves R (openDirectory (n := n) path cwd).run := by
  refine (resolve_moves hall cwd path).always.andThen fun found => ?_
  match found with
  | none => exact Moves.refuse _
  | some (s, true) => exact Moves.pure _
  | some (s, false) =>
    exact (Inode.close_moves (hall s)).always.andThen fun _ => Moves.refuse _

theorem openParent_moves (dir : String) (cwd : Sector) :
    Moves R (openParent (n := n) dir cwd).run := by
  unfold openParent
  split
  · exact (Inode.open_moves (hall cwd)).always.andThen fun _ => Moves.pure _
  · exact openDirectory_moves hall dir cwd

theorem createIn_moves (dir : Sector) (name : String) (new : NewNode) :
    Moves R (createIn (n := n) dir name new).run := by
  refine (allocate_moves 1).andThen fun s =>
    (Moves.onRefusal ?_ (release_moves s 1)).andThen fun _ =>
      Moves.onRefusal (Directory.add_moves (hall dir).admits _ _ _) ?_
  · cases new with
    | file size => exact Inode.create_moves (hall s) _ _
    | directory => exact Directory.create_moves hall s _ _
  · exact (Inode.open_moves (hall s)).bind fun _ =>
      (Inode.markRemoved_moves (hall s).admits).bind fun _ => Inode.close_moves (hall s)

theorem createNode_moves (path : String) (cwd : Sector) (new : NewNode) :
    Moves R (createNode (n := n) path cwd new).run := by
  unfold createNode
  match Path.parentFile path with
  | none => exact Moves.refuse _
  | some (dir, name) =>
    dsimp only
    split
    · exact Moves.refuse_andThen _ _
    · exact (openParent_moves hall dir cwd).andThen fun d =>
        Moves.thenAlways (createIn_moves hall d name new) (Inode.close_moves (hall d))

theorem remove_moves (path : String) (cwd : Sector) : Moves R (remove (n := n) path cwd).run := by
  unfold remove
  match Path.parentFile path with
  | none => exact Moves.refuse _
  | some (dir, name) =>
    exact (openParent_moves hall dir cwd).andThen fun d =>
      Moves.thenAlways (Directory.removeIf_moves hall d name _) (Inode.close_moves (hall d))

end Namespace
end TieredVolume
