/-!
Sets of code points as lists of closed ranges.
-/
namespace TieredVolume
namespace Ranges

/-- Whether one of the ranges holds a code point, their ends included. -/
def covers (ranges : List (Nat × Nat)) (code : Nat) : Bool :=
  ranges.any fun r => decide (r.1 ≤ code) && decide (code ≤ r.2)

/-- Whether every range has a member and ends before the next one begins. -/
def ascending : List (Nat × Nat) → Bool
  | [] => true
  | [r] => decide (r.1 ≤ r.2)
  | r :: s :: rest => decide (r.1 ≤ r.2) && decide (r.2 < s.1) && ascending (s :: rest)

/-- How many code points ranges that lie apart hold together. -/
def count (ranges : List (Nat × Nat)) : Nat :=
  ranges.foldl (fun total r => total + (r.2 + 1 - r.1)) 0

end Ranges
end TieredVolume
