import TieredVolume.Namespace.Path
import TieredVolume.Proofs.Namespace.Directory

/-!
The tree of names. A place in the tree is the list of the names that lead to it, the last one first,
so that the place above it is its tail. What lies at a place follows from the directories on the way
to it; a name that a directory gains or loses changes the tree at one place.
-/
namespace TieredVolume

/-- What lies at each place: an inode, and whether it is a directory. -/
abbrev Tree := List String → Option (Sector × Bool)

namespace Tree

variable (t : Tree)

/-- Where names lead from a place. A dot stays, two dots go up, and any other name goes into the
directory at the place. -/
def walk : List String → List String → Option (List String)
  | [], p => some p
  | name :: rest, p =>
    if name = "." then walk rest p
    else if name = ".." then walk rest p.tail
    else
      match t p, t (name :: p) with
      | some (_, true), some _ => walk rest (name :: p)
      | _, _ => none

/-- Where a path leads, from the place `cwd` or from the root. The empty path leads nowhere. -/
def resolve (cwd : List String) (path : String) : Option (List String) :=
  if path = "" then none
  else t.walk (Path.components path) (if Path.isAbsolute path then [] else cwd)

/-- What lies where a path leads. -/
def find (cwd : List String) (path : String) : Option (Sector × Bool) := (t.resolve cwd path).bind t

/-- The file that a path leads to, or why there is none. -/
def fileAt (cwd : List String) (path : String) : Except Refusal Sector :=
  match t.find cwd path with
  | none => .error .notFound
  | some (_, true) => .error .isADirectory
  | some (s, false) => .ok s

/-- The same for a directory. -/
def directoryAt (cwd : List String) (path : String) : Except Refusal Sector :=
  match t.find cwd path with
  | none => .error .notFound
  | some (_, false) => .error .notADirectory
  | some (s, true) => .ok s

/-- The place of the directory in front of a last name. -/
def resolveParent (cwd : List String) (dir : String) : Option (List String) :=
  if dir = "" then some cwd else t.resolve cwd dir

/-- The tree after what lies at one place was changed. -/
def set (p : List String) (found : Option (Sector × Bool)) : Tree := Function.update t p found

variable {t} {cwd : List String} {path : String} {s : Sector}

theorem exists_place {x : Sector × Bool} (h : t.find cwd path = some x) : ∃ q, t q = some x := by
  obtain ⟨q, -, hq⟩ := Option.bind_eq_some_iff.mp h
  exact ⟨q, hq⟩

theorem exists_place_of_fileAt (h : t.fileAt cwd path = .ok s) : ∃ q, t q = some (s, false) := by
  unfold fileAt at h
  split at h
  · cases h
  · cases h
  · rename_i hfind
    exact Except.ok.inj h ▸ exists_place hfind

theorem exists_place_of_directoryAt (h : t.directoryAt cwd path = .ok s) :
    ∃ q, t q = some (s, true) := by
  unfold directoryAt at h
  split at h
  · cases h
  · cases h
  · rename_i hfind
    exact Except.ok.inj h ▸ exists_place hfind

end Tree

/-- The tree that the directories among the files spell. -/
def treeOf (file : Sector → File) : Tree
  | [] => some (rootSector, true)
  | name :: up =>
    match treeOf file up with
    | some (d, true) => findSlot (slotsOf (file d).bytes) name
    | _ => none

variable {file file' : Sector → File} {p q up : List String} {d s : Sector} {b : Bool}
  {name : String} {found : Option (Sector × Bool)}

theorem treeOf_cons (hup : treeOf file up = some (d, true)) :
    treeOf file (name :: up) = findSlot (slotsOf (file d).bytes) name := by
  rw [treeOf, hup]

/-- Above what lies at a place there is a directory. -/
theorem exists_directory_above (h : treeOf file (name :: up) = some (s, b)) :
    ∃ d, treeOf file up = some (d, true) ∧ findSlot (slotsOf (file d).bytes) name = some (s, b) := by
  rw [treeOf] at h
  match hup : treeOf file up, h with
  | some (d, true), h => exact ⟨d, rfl, h⟩
  | some (d, false), h => cases h
  | none, h => cases h

theorem exists_treeOf_tail (h : treeOf file p = some (s, b)) :
    ∃ d, treeOf file p.tail = some (d, true) := by
  cases p with
  | nil => exact ⟨rootSector, rfl⟩
  | cons name up =>
    obtain ⟨d, hd, -⟩ := exists_directory_above h
    exact ⟨d, hd⟩

/-- Where the root has no names there is nothing but the root. -/
theorem eq_root_of_treeOf {x : Sector × Bool}
    (hempty : ∀ name, findSlot (slotsOf (file rootSector).bytes) name = none)
    (h : treeOf file p = some x) : p = [] ∧ x = (rootSector, true) := by
  induction p generalizing x with
  | nil => exact ⟨rfl, (Option.some.inj h).symm⟩
  | cons name up ih =>
    obtain ⟨d, hup, hfind⟩ := exists_directory_above (s := x.1) (b := x.2) h
    obtain rfl : d = rootSector := congrArg Prod.fst (ih hup).2
    rw [hempty] at hfind
    cases hfind

/-- The tree depends only on its directories. -/
theorem treeOf_congr (h : ∀ p d, treeOf file p = some (d, true) →
    (file' d).bytes = (file d).bytes) : treeOf file' = treeOf file := by
  funext p
  induction p with
  | nil => rfl
  | cons name up ih =>
    rw [treeOf, treeOf, ih]
    match hup : treeOf file up with
    | some (d, true) =>
      simp only
      rw [h up d hup]
    | some (d, false) => rfl
    | none => rfl

/-- Files whose directories make a tree: every inode has one place, knows what is above it, and what
is a directory consists of entries. -/
structure Rooted (file : Sector → File) : Prop where
  unique : ∀ p q s b b', treeOf file p = some (s, b) → treeOf file q = some (s, b') → p = q
  parent : ∀ p s b d b', treeOf file p = some (s, b) → treeOf file p.tail = some (d, b') →
    (file s).parent = d
  whole : ∀ p d, treeOf file p = some (d, true) → entrySize ∣ (file d).bytes.length
  orderly : ∀ p d, treeOf file p = some (d, true) → Orderly (slotsOf (file d).bytes)

/-- Changes of files that leave the directories of the tree and all parents as they are. -/
theorem Rooted.congr (hr : Rooted file)
    (hbytes : ∀ p d, treeOf file p = some (d, true) → (file' d).bytes = (file d).bytes)
    (hparent : ∀ p s b, treeOf file p = some (s, b) → (file' s).parent = (file s).parent) :
    Rooted file' := by
  have htree := treeOf_congr hbytes
  refine ⟨?_, fun p s b d b' hp htail => ?_, fun p d hp => ?_, fun p d hp => ?_⟩
  · rw [htree]
    exact hr.unique
  · rw [htree] at hp htail
    rw [hparent p s b hp]
    exact hr.parent p s b d b' hp htail
  · rw [htree] at hp
    rw [hbytes p d hp]
    exact hr.whole p d hp
  · rw [htree] at hp
    rw [hbytes p d hp]
    exact hr.orderly p d hp

/-- One name of the directory `d` at the place `up` was changed to stand for `found`, which is an
inode that had no place before, or none. -/
structure Grafted (file file' : Sector → File) (up : List String) (d : Sector) (name : String)
    (found : Option (Sector × Bool)) : Prop where
  directory : treeOf file up = some (d, true)
  listed : Relisted (file d).bytes (file' d).bytes name found
  bare : ∀ m, treeOf file (m :: name :: up) = none
  parent : ∀ p s b, treeOf file p = some (s, b) → (file' s).parent = (file s).parent
  others : ∀ p s, treeOf file p = some (s, true) → s ≠ d → (file' s).bytes = (file s).bytes
  fresh : ∀ s b, found = some (s, b) → (∀ p b', treeOf file p ≠ some (s, b')) ∧
    (file' s).parent = d
  empty : ∀ s, found = some (s, true) → entrySize ∣ (file' s).bytes.length ∧
    Orderly (slotsOf (file' s).bytes) ∧ ∀ m, findSlot (slotsOf (file' s).bytes) m = none

namespace Grafted

variable (hr : Rooted file) (hg : Grafted file file' up d name found)

include hr hg

theorem tree : treeOf file' = (treeOf file).set (name :: up) found := by
  funext p
  rw [Tree.set]
  induction p with
  | nil => rw [Function.update_of_ne (List.cons_ne_nil name up).symm, treeOf, treeOf]
  | cons m p ih =>
    rw [treeOf, ih]
    by_cases hp : p = name :: up
    · -- below the changed place there is nothing, neither before nor after
      subst hp
      have hne : m :: name :: up ≠ name :: up := fun heq => by
        have hlength := congrArg List.length heq
        simp at hlength
      rw [Function.update_self, Function.update_of_ne hne, hg.bare]
      have hempty := hg.empty
      rcases found with - | ⟨s, - | -⟩
      · rfl
      · rfl
      · exact (hempty s rfl).2.2 m
    · rw [Function.update_of_ne hp]
      match hup : treeOf file p with
      | some (s, true) =>
        simp only
        by_cases hsd : s = d
        · subst hsd
          have hpu := hr.unique p up s true true hup hg.directory
          subst hpu
          rw [hg.listed.find]
          by_cases hm : m = name
          · rw [if_pos hm, hm, Function.update_self]
          · rw [if_neg hm, Function.update_of_ne fun heq => hm (List.cons.inj heq).1,
              treeOf_cons hup]
        · have hne : m :: p ≠ name :: up := fun heq => by
            rw [(List.cons.inj heq).2, hg.directory] at hup
            exact hsd (congrArg Prod.fst (Option.some.inj hup)).symm
          rw [hg.others p s hup hsd, Function.update_of_ne hne, treeOf_cons hup]
      | some (s, false) =>
        have hne : m :: p ≠ name :: up := fun heq => by
          rw [(List.cons.inj heq).2, hg.directory] at hup
          cases hup
        rw [Function.update_of_ne hne, treeOf, hup]
      | none =>
        have hne : m :: p ≠ name :: up := fun heq => by
          rw [(List.cons.inj heq).2, hg.directory] at hup
          cases hup
        rw [Function.update_of_ne hne, treeOf, hup]

theorem cases (hp : treeOf file' p = some (s, b)) :
    p = name :: up ∧ found = some (s, b) ∨ p ≠ name :: up ∧ treeOf file p = some (s, b) := by
  rw [hg.tree hr, Tree.set] at hp
  by_cases heq : p = name :: up
  · rw [heq, Function.update_self] at hp
    exact .inl ⟨heq, hp⟩
  · rw [Function.update_of_ne heq] at hp
    exact .inr ⟨heq, hp⟩

theorem rooted : Rooted file' := by
  refine ⟨fun p q s b b' hp hq => ?_, fun p s b e b' hp htail => ?_, fun p e hp => ?_,
    fun p e hp => ?_⟩
  · rcases hg.cases hr hp with ⟨rfl, hfound⟩ | ⟨-, hp⟩
    · rcases hg.cases hr hq with ⟨rfl, -⟩ | ⟨-, hq⟩
      · rfl
      · exact absurd hq ((hg.fresh s b hfound).1 q b')
    · rcases hg.cases hr hq with ⟨-, hfound⟩ | ⟨-, hq⟩
      · exact absurd hp ((hg.fresh s b' hfound).1 p b)
      · exact hr.unique p q s b b' hp hq
  · rcases hg.cases hr hp with ⟨rfl, hfound⟩ | ⟨hne, hp⟩
    · rw [(hg.fresh s b hfound).2]
      rcases hg.cases hr htail with ⟨heq, -⟩ | ⟨-, htail⟩
      · have hlength := congrArg List.length heq
        simp at hlength
      · rw [List.tail_cons, hg.directory] at htail
        exact congrArg Prod.fst (Option.some.inj htail)
    · rw [hg.parent p s b hp]
      rcases hg.cases hr htail with ⟨heq, -⟩ | ⟨-, htail⟩
      · -- nothing lies below the changed place
        cases p with
        | nil => cases heq
        | cons m p =>
          rw [List.tail_cons] at heq
          rw [heq, hg.bare] at hp
          cases hp
      · exact hr.parent p s b e b' hp htail
  · rcases hg.cases hr hp with ⟨rfl, hfound⟩ | ⟨-, hp⟩
    · exact (hg.empty e hfound).1
    · by_cases hed : e = d
      · exact hed ▸ hg.listed.whole
      · rw [hg.others p e hp hed]
        exact hr.whole p e hp
  · rcases hg.cases hr hp with ⟨rfl, hfound⟩ | ⟨-, hp⟩
    · exact (hg.empty e hfound).2.1
    · by_cases hed : e = d
      · exact hed ▸ hg.listed.orderly
      · rw [hg.others p e hp hed]
        exact hr.orderly p e hp

end Grafted

end TieredVolume
