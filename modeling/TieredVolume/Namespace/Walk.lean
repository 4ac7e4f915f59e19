import TieredVolume.Namespace.Directory
import TieredVolume.Namespace.Path

/-!
Walking a path. The walk holds one inode open at a time; where it succeeds, the inode it came to is
open once more than before, and where it fails, everything is closed again.
-/
namespace TieredVolume
namespace Namespace

open Volume

variable {n : Nat}

/-- Walks from an open inode, which the walk closes as soon as it leaves it. -/
def walk : List String → (current : Sector) → (isDir : Bool) → VolumeM n (Option (Sector × Bool))
  | [], current, isDir => return some (current, isDir)
  | name :: rest, current, isDir => do
    if name = "." then walk rest current isDir
    else if name = ".." then
      let parent ← Inode.parent current
      Inode.open parent
      Inode.close current
      walk rest parent true
    else if !isDir then
      Inode.close current
      return none
    else
      let found ← Directory.lookup current name
      Inode.close current
      match found with
      | none => return none
      | some (entry, _) =>
        Inode.open entry.sector
        walk rest entry.sector entry.isDir

/-- Walks a path from the directory `cwd`, or from the root if it is absolute. -/
def resolve (cwd : Sector) (path : String) : VolumeM n (Option (Sector × Bool)) := do
  if path = "" then return none
  let start := if Path.isAbsolute path then rootSector else cwd
  Inode.open start
  walk (Path.components path) start true

end Namespace
end TieredVolume
