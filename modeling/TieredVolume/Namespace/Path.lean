/-!
Paths. A path is read in two ways: as the sequence of its components, which is walked, and as a
directory followed by a last name, which is created or removed. Slashes only separate, so any
number of them stands for one, and a path that starts with a slash starts at the root.
-/
namespace TieredVolume
namespace Path

/-- The pieces between slashes, empty ones included. -/
def pieces : List Char → List (List Char)
  | [] => [[]]
  | c :: cs =>
    if c = '/' then [] :: pieces cs
    else match pieces cs with
      | [] => [[c]]
      | p :: ps => (c :: p) :: ps

/-- The names to walk, in order. -/
def components (path : String) : List String :=
  ((pieces path.toList).filter (· ≠ [])).map String.ofList

/-- Whether the walk starts at the root. -/
def isAbsolute (path : String) : Bool := path.toList.head? = some '/'

/-- The directory and the last name, with trailing slashes cut. The directory is empty if the name
stands alone and the root if only slashes come before it; a path of slashes alone has no name. -/
def splitLast (path : List Char) : Option (List Char × List Char) :=
  match path.reverse.dropWhile (· = '/') with
  | [] => none
  | c :: cs =>
    let name := ((c :: cs).takeWhile (· ≠ '/')).reverse
    match (c :: cs).dropWhile (· ≠ '/') with
    | [] => some ([], name)
    | _ :: dir => some (if dir.all (· = '/') then ['/'] else dir.reverse, name)

/-- The directory of a path and its last name. -/
def parentFile (path : String) : Option (String × String) :=
  (splitLast path.toList).map fun (dir, name) => (String.ofList dir, String.ofList name)

example : components "//a/./b//..//" = ["a", ".", "b", ".."] := by decide
example : parentFile "//x/" = some ("/", "x") := by decide
example : parentFile "/x/y" = some ("/x", "y") := by decide
example : parentFile "b" = some ("", "b") := by decide
example : parentFile "//" = none := by decide

end Path
end TieredVolume
