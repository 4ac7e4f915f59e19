import TieredVolume.Disk.Record

/-!
The table of open inodes. However often an inode is opened, the table holds one node for it, under
the sector of its header; the node counts who uses it and carries the record while it is loaded.
-/
namespace TieredVolume

/-- A record in memory, with the number of loads beyond the one that brought it in. -/
structure LoadedRecord where
  nested : Nat := 0
  record : Record

/-- What is known of an open inode. -/
structure Node where
  /-- How often the inode is open. -/
  openers : Nat := 0
  /-- How often it is open as a file descriptor. -/
  descriptors : Nat := 0
  /-- How many processes have it as their working directory. -/
  cwdUsers : Nat := 0
  /-- Whether it was removed from its directory, so that the last one to close it frees it. -/
  removed : Bool := false
  /-- How often writing was denied and not allowed again. -/
  denials : Nat := 0
  loaded : Option LoadedRecord := none

/-- Open inodes under the sectors of their headers. -/
abbrev OpenTable := List (Sector × Node)

namespace OpenTable

def find? (t : OpenTable) (s : Sector) : Option Node := List.lookup s t

/-- The table with the node of a sector put in, in place of one that was there. -/
def insert (s : Sector) (node : Node) : OpenTable → OpenTable
  | [] => [(s, node)]
  | (s', node') :: rest =>
    if s = s' then (s, node) :: rest else (s', node') :: insert s node rest

/-- The table without a sector. -/
def erase (s : Sector) (t : OpenTable) : OpenTable := t.filter (·.1 ≠ s)

theorem find?_insert (t : OpenTable) (s s' : Sector) (node : Node) :
    find? (insert s node t) s' = if s' = s then some node else find? t s' := by
  induction t with
  | nil => simp only [insert, find?, List.lookup_cons, List.lookup_nil]; grind
  | cons p rest ih =>
    obtain ⟨k, v⟩ := p
    simp only [find?, insert] at ih ⊢
    split <;> simp only [List.lookup_cons, ih] <;> grind

theorem find?_erase (t : OpenTable) (s s' : Sector) :
    find? (erase s t) s' = if s' = s then none else find? t s' := by
  induction t with
  | nil => simp [erase, find?]
  | cons p rest ih =>
    obtain ⟨k, v⟩ := p
    simp only [find?, erase, List.filter_cons] at ih ⊢
    split <;> simp only [List.lookup_cons, ih] <;> grind

end OpenTable

end TieredVolume
