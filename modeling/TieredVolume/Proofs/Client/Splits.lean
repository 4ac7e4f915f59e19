import TieredVolume.Proofs.Client.Paths
import TieredVolume.Proofs.Namespace.Parting

/-!
What a path stands for. A path is walked by its components, but taken apart at its last slash to
create and to remove; both ways come to the same name in the same directory. Whatever calls a volume
had, a path is resolved as its directory is and then its name from there, and creating, removing and
opening go on with that name in that directory; where careful clients come to, this is one place of
the tree, or none.
-/
namespace TieredVolume

open OpenTable (Lasting Admits Governs Counted governs_counting)

variable {n : Nat} {R : OpenTable → OpenTable → Prop} {s : Sector} {S S' : Shelf}
  {handles : List Handle} {cwd : Handle} {call : Call} {answer : Except Refusal Answer}
  {here p q : List String} {path dir name : String}

/-! ### The table of open inodes between two calls -/

namespace Mark

theorem lower_moves (hs : Admits R s) (count : Node → Nat) {g : Node → Node} {e : Fault}
    (hg : ∀ nd, (g nd).openers = nd.openers) :
    Moves R (do
      let node ← Inode.node (n := n) s
      if count node = 0 then throw e
      Inode.setNode s (g node)) := by
  refine Moves.node fun v nd hfind => ?_
  by_cases hzero : count nd = 0
  · rw [if_pos hzero]
    exact Yields.bind (Yields.throw trivial)
  · rw [if_neg hzero]
    exact Inode.setNode_yields hs hfind (hg nd)

theorem run_moves (hs : Admits R s) (m : Mark) : Moves R (m.run (n := n) s) := by
  cases m with
  | denyWrite | attach | enterCwd => exact Inode.updateNode_moves hs fun _ => rfl
  | allowWrite => exact lower_moves hs (·.denials) fun _ => rfl
  | detach => exact lower_moves hs (·.descriptors) fun _ => rfl
  | leaveCwd => exact lower_moves hs (·.cwdUsers) fun _ => rfl

end Mark

open Attempt Namespace in
/-- Whatever is kept by all that can be done to a node is kept by every call. -/
theorem Call.attempt_moves [Lasting R] (hall : ∀ s, Governs R s) (call : Call) :
    Moves R (call.attempt (n := n)).run := by
  cases call with
  | root => exact (Inode.open_moves (hall _)).always.andThen fun _ => Moves.pure _
  | create path size cwd =>
    exact (createNode_moves hall path cwd.sector _).andThen fun _ => Moves.pure _
  | createDirectory path cwd =>
    exact (createNode_moves hall path cwd.sector _).andThen fun _ => Moves.pure _
  | openFile path cwd => exact (openFile_moves hall path _).andThen fun _ => Moves.pure _
  | openDirectory path cwd => exact (openDirectory_moves hall path _).andThen fun _ => Moves.pure _
  | resolve path cwd =>
    refine (resolve_moves hall _ path).always.andThen fun found => ?_
    cases found with
    | none => exact Moves.pure _
    | some found => exact Moves.pure _
  | remove path cwd => exact (remove_moves hall path _).andThen fun _ => Moves.pure _
  | readNext dir => exact (Directory.nextFrom_moves _ _ _).always.andThen fun _ => Moves.pure _
  | readAt file offset count =>
    exact (Inode.readAt_moves _ _ _).always.andThen fun _ => Moves.pure _
  | writeAt file offset bytes =>
    exact (Inode.writeAt_moves (hall _).admits _ _).andThen fun _ => Moves.pure _
  | grow file size offset =>
    exact (Inode.grow_moves (hall _).admits _ _).andThen fun _ => Moves.pure _
  | allocateAt file offset =>
    exact (Inode.allocateAt_moves (hall _).admits _).andThen fun _ => Moves.pure _
  | length file => exact (Inode.length_moves _).always.andThen fun _ => Moves.pure _
  | mark m handle => exact (m.run_moves (hall _).admits).always.andThen fun _ => Moves.pure _
  | clone handle => exact (Inode.open_moves (hall _)).always.andThen fun _ => Moves.pure _
  | close handle => exact (Inode.close_moves (hall _)).always.andThen fun _ => Moves.pure _
  | shutdown | flush | readAhead => exact (Moves.onCache _).always.andThen fun _ => Moves.pure _

/-- Between two calls every node in the table counts someone, whatever the calls were. -/
theorem Client.Comes.counted {kind : Shelf → List Handle → Call → Prop} {c : Client}
    (h : Comes kind c) : c.volume.table.Counted := by
  induction h with
  | mount hd hlimit hformat hrun =>
    intro s nd hfind
    have hnode := (Volume.stores_of_mount hd hlimit hformat hrun).keeps_view.2.node
    have hnone := congrFun hnode s
    simp only [Volume.view, hfind, Option.map_some] at hnone
    cases hnone
  | call _ _ hrun ih => exact (Call.attempt_moves governs_counting _ _).of_ok hrun ih

/-! ### One place for a path -/

namespace Tree

variable {t : Tree}

theorem walk_append (names rest p : List String) :
    t.walk (names ++ rest) p = (t.walk names p).bind (t.walk rest) := by
  induction names generalizing p with
  | nil => rfl
  | cons name names ih =>
    simp only [List.cons_append, walk, ih]
    split
    · rfl
    split
    · rfl
    split
    · rfl
    · rfl

/-- What a name leads to from a place. -/
theorem bind_walk_name (hdot : name ≠ ".") (hdots : name ≠ "..") :
    (t.walk [name] p).bind t = match t p with
      | some (_, true) => t (name :: p)
      | _ => none := by
  simp only [walk, if_neg hdot, if_neg hdots]
  rcases t p with - | ⟨d, - | -⟩
  · rfl
  · rfl
  · cases hchild : t (name :: p) with
    | none => rfl
    | some x => exact hchild

/-- The walk through a directory ends where the directory in front of a last name is. -/
theorem walk_directory (here : List String) (dir : String) :
    t.walk (Path.components dir) (if Path.isAbsolute dir then [] else here) =
      t.resolveParent here dir := by
  by_cases hdir : dir = ""
  · subst hdir
    rfl
  · rw [resolveParent, if_neg hdir, resolve, if_neg hdir]

/-- A path leads to what is at the place of its last name in the directory in front of it. -/
theorem find_eq (h : Path.LastName path dir name) (hdot : name ≠ ".") (hdots : name ≠ "..")
    (here : List String) : t.find here path = (t.placeIn here dir name).toOption.bind t := by
  rw [find, resolve, if_neg h.ne_empty, h.components, walk_append, ← h.absolute, walk_directory,
    Option.bind_assoc, placeIn]
  cases t.resolveParent here dir with
  | none => rfl
  | some q =>
    refine (bind_walk_name hdot hdots).trans ?_
    dsimp only
    rcases t q with - | ⟨d, - | -⟩
    · rfl
    · rfl
    · rfl

/-- A node is created there, if the name is valid. -/
theorem placeFor_eq (hsplit : Path.parentFile path = some (dir, name)) (hdot : name ≠ ".")
    (hdots : name ≠ "..") (here : List String) : t.placeFor here path =
      if isValidName name then t.placeIn here dir name else .error .invalidName := by
  rw [placeFor, hsplit]
  dsimp only
  cases hname : isValidName name with
  | true => rw [if_neg (by simp [hdot, hdots]), if_pos rfl]
  | false => rw [if_pos (by simp), if_neg Bool.false_ne_true]

end Tree

/-- A node with this name is put at a place, or it is said why not. -/
def Adds (t t' : Tree) (short : List String → Prop) (name : String)
    (place : Except Refusal (List String)) (isDir : Bool) (answer : Except Refusal Answer) : Prop :=
  match if isValidName name then place else .error .invalidName with
  | .error why => answer = .error why ∧ t' = t
  | .ok p =>
    answer = .ok .done ∧ t p = none ∧ (∃ s, (∀ q b, t q ≠ some (s, b)) ∧
      t' = t.set p (some (s, isDir))) ∨
    answer = .error .alreadyExists ∧ t p ≠ none ∧ t' = t ∨
    answer = .error .noSpace ∧ short p ∧ t' = t

/-- What is at a place is taken away, or it is said why not. -/
def Cuts (S S' : Shelf) (place : Except Refusal (List String)) (answer : Except Refusal Answer) :
    Prop :=
  match place with
  | .error why => answer = .error why ∧ S'.tree = S.tree
  | .ok p =>
    answer = .ok .done ∧ S.tree p ≠ none ∧ S'.tree = S.tree.set p none ∨
    S'.tree = S.tree ∧ (answer = .error .notFound ∧ S.tree p = none ∨
      ∃ s, S.tree p = some (s, true) ∧ (answer = .error .busy ∧ S.InUse s ∨
        answer = .error .directoryNotEmpty ∧ ∃ m, S.tree (m :: p) ≠ none))

namespace Call

/-- The calls with a path. -/
def Names (path : String) (cwd : Handle) : Call → Prop
  | create path' _ cwd' | createDirectory path' cwd' | openFile path' cwd' |
    openDirectory path' cwd' | resolve path' cwd' | remove path' cwd' => path' = path ∧ cwd' = cwd
  | _ => False

/-- What a call does with its path, if its last name stands for this place or for none, with so many
free sectors. -/
def ActsAt (free : Nat) (S S' : Shelf) (name : String) (place : Except Refusal (List String)) :
    Call → (answer : Except Refusal Answer) → Prop
  | create _ size _, answer =>
    Adds S.tree S'.tree (S.Short free (.file size)) name place false answer
  | createDirectory .., answer =>
    Adds S.tree S'.tree (S.Short free .directory) name place true answer
  | openFile .., answer => S'.tree = S.tree ∧ answer = match place.toOption.bind S.tree with
    | none => .error .notFound
    | some (_, true) => .error .isADirectory
    | some (s, false) => .ok (.opened ⟨s, false, 0⟩)
  | openDirectory .., answer => S'.tree = S.tree ∧ answer = match place.toOption.bind S.tree with
    | none => .error .notFound
    | some (_, false) => .error .notADirectory
    | some (s, true) => .ok (.opened ⟨s, true, 0⟩)
  | resolve .., answer => S'.tree = S.tree ∧ answer = .ok (match place.toOption.bind S.tree with
    | none => .nothing
    | some (s, isDir) => .opened ⟨s, isDir, 0⟩)
  | remove .., answer => Cuts S S' place answer
  | _, _ => True

end Call

theorem adds_of_grows {short : List String → Prop} {isDir : Bool} (hsplit : Path.parentFile path = some (dir, name))
    (hdot : name ≠ ".") (hdots : name ≠ "..")
    (h : Grows S.tree S'.tree short here path isDir answer) :
    Adds S.tree S'.tree short name (S.tree.placeIn here dir name) isDir answer := by
  rw [Grows, Tree.placeFor_eq hsplit hdot hdots] at h
  exact h

theorem cuts_of_removal (hsplit : Path.parentFile path = some (dir, name))
    (h : match S.tree.removal S.InUse here path with
      | .error why => answer = .error why ∧ S'.tree = S.tree
      | .ok p => answer = .ok .done ∧ S'.tree = S.tree.set p none) :
    Cuts S S' (S.tree.placeIn here dir name) answer := by
  have hplace : S.tree.placeOf here path = S.tree.placeIn here dir name := by
    rw [Tree.placeOf, hsplit]
  rw [Tree.removal, hplace] at h
  unfold Cuts
  cases hin : S.tree.placeIn here dir name with
  | error why =>
    rw [hin] at h
    exact h
  | ok p =>
    rw [hin] at h
    dsimp only at h ⊢
    rcases hp : S.tree p with - | ⟨s, - | -⟩
    · rw [hp] at h
      exact .inr ⟨h.2, .inl ⟨h.1, rfl⟩⟩
    · rw [hp] at h
      exact .inl ⟨h.1, Option.some_ne_none _, h.2⟩
    · rw [hp] at h
      dsimp only at h
      by_cases huse : S.InUse s
      · rw [if_pos huse] at h
        exact .inr ⟨h.2, .inr ⟨s, rfl, .inl ⟨h.1, huse⟩⟩⟩
      rw [if_neg huse] at h
      by_cases hfull : ∃ m, S.tree (m :: p) ≠ none
      · rw [if_pos hfull] at h
        exact .inr ⟨h.2, .inr ⟨s, rfl, .inr ⟨h.1, hfull⟩⟩⟩
      · rw [if_neg hfull] at h
        exact .inl ⟨h.1, Option.some_ne_none _, h.2⟩

/-- On the tree, all calls with a path act at the one place that its last name stands for. -/
theorem Call.OnTree.actsAt {free : Nat} (h : call.OnTree free S S' answer)
    (hcall : call.Names path cwd) (hhere : ∀ q, S.tree q = some (cwd.sector, true) → q = here)
    (hsplit : Path.parentFile path = some (dir, name)) (hdot : name ≠ ".") (hdots : name ≠ "..") :
    call.ActsAt free S S' name (S.tree.placeIn here dir name) answer := by
  have hfind := Tree.find_eq (t := S.tree) (Path.lastName_of_parentFile hsplit) hdot hdots here
  cases call with
  | create path' size cwd' =>
    obtain ⟨rfl, rfl⟩ := hcall
    obtain ⟨c, hc, hgrows⟩ := h
    exact adds_of_grows hsplit hdot hdots (hhere c hc ▸ hgrows)
  | createDirectory path' cwd' =>
    obtain ⟨rfl, rfl⟩ := hcall
    obtain ⟨c, hc, hgrows⟩ := h
    exact adds_of_grows hsplit hdot hdots (hhere c hc ▸ hgrows)
  | openFile path' cwd' =>
    obtain ⟨rfl, rfl⟩ := hcall
    obtain ⟨htree, c, hc, rfl⟩ := h
    refine ⟨htree, ?_⟩
    rw [hhere c hc, Tree.fileAt, hfind]
    rcases (S.tree.placeIn here dir name).toOption.bind S.tree with - | ⟨s, - | -⟩
    · rfl
    · rfl
    · rfl
  | openDirectory path' cwd' =>
    obtain ⟨rfl, rfl⟩ := hcall
    obtain ⟨htree, c, hc, rfl⟩ := h
    refine ⟨htree, ?_⟩
    rw [hhere c hc, Tree.directoryAt, hfind]
    rcases (S.tree.placeIn here dir name).toOption.bind S.tree with - | ⟨s, - | -⟩
    · rfl
    · rfl
    · rfl
  | resolve path' cwd' =>
    obtain ⟨rfl, rfl⟩ := hcall
    obtain ⟨htree, c, hc, rfl⟩ := h
    rw [← hhere c hc] at hfind ⊢
    exact ⟨htree, hfind ▸ rfl⟩
  | remove path' cwd' =>
    obtain ⟨rfl, rfl⟩ := hcall
    obtain ⟨c, hc, hremoved⟩ := h
    exact cuts_of_removal hsplit (hhere c hc ▸ hremoved)
  | _ => exact hcall.elim

namespace Client

open Namespace

variable {kind : Shelf → List Handle → Call → Prop} {c : Client}

/-- A directory that a careful client holds has one place, and the calls with a path from there act
at the place that its last name stands for. -/
def ActsFrom (c : Client) (cwd : Handle) (path dir name : String) : Prop :=
  ∃ here, (∀ q, c.shelf.tree q = some (cwd.sector, true) ↔ q = here) ∧
    ∀ (call : Call) answer v', call.Names path cwd → call.Careful c.shelf c.handles →
      call.attempt.run c.volume = .ok answer v' →
      call.ActsAt c.volume.map.freeCount c.shelf v'.shelf name
        (c.shelf.tree.placeIn here dir name) answer

theorem Comes.actsFrom (h : Comes Call.Careful c) (hheld : cwd ∈ c.handles)
    (hdir : cwd.isDir = true) (hsplit : Path.parentFile path = some (dir, name))
    (hdot : name ≠ ".") (hdots : name ≠ "..") : c.ActsFrom cwd path dir name := by
  obtain ⟨hv, hS⟩ := h.stands
  obtain ⟨here, hhere⟩ := hS.directory cwd hheld hdir
  have hunique : ∀ q, c.shelf.tree q = some (cwd.sector, true) → q = here := fun q hq =>
    hS.rooted.unique q here cwd.sector true true hq hhere
  refine ⟨here, fun q => ⟨hunique q, fun heq => heq ▸ hhere⟩, ?_⟩
  intro call answer v' hnames hcareful hrun
  obtain ⟨S', heffect, hS', hl, -⟩ := (hS.careful_yields hv hcareful).of_ok hrun
  have htree : v'.shelf.tree = S'.tree := (hS'.toSettled.like hl).2
  exact ((hS.onTree hv hcareful.1 hrun heffect).congr htree).actsAt hnames hunique hsplit hdot hdots

/-- How a volume treats a path with a last name. -/
structure Parts (c : Client) (path dir name : String) : Prop where
  /-- Resolving takes the directory first, and then the name from there. -/
  apart : ∀ cwd, Concur (resolve cwd path c.volume) (resolveApart cwd dir name c.volume)
  /-- Only in directories names are found. -/
  below : name ≠ "." → name ≠ ".." → dir ≠ "" → ∀ cwd found v',
    resolve cwd path c.volume = .ok (some found) v' →
    ∃ d v₁, resolve cwd dir c.volume = .ok (some (d, true)) v₁
  /-- Opening, removing and creating go on with the name in the same directory. -/
  meet : name ≠ "." → name ≠ ".." → ∀ cwd, MeetIn path dir name cwd c.volume
  /-- If the client is careful, that is one place of the tree. -/
  place : name ≠ "." → name ≠ ".." → Comes Call.Careful c → ∀ cwd ∈ c.handles, cwd.isDir = true →
    c.ActsFrom cwd path dir name

/-- A path without components is not split. Any other is split into a directory and a last name, and
however a volume was used, it takes the path to be that name in that directory. -/
theorem Comes.splits_exact (h : Comes kind c) (path : String) :
    (Path.parentFile path = none ↔ Path.components path = []) ∧
    ∀ dir name, Path.parentFile path = some (dir, name) →
      Path.LastName path dir name ∧ c.Parts path dir name := by
  refine ⟨Path.parentFile_eq_none_iff, fun dir name hsplit => ?_⟩
  have hlast := Path.lastName_of_parentFile hsplit
  refine ⟨hlast, fun cwd => resolve_concurs h.counted hlast cwd, ?_, ?_, ?_⟩
  · intro hdot hdots hdir cwd found v' hrun
    exact exists_directory_of_resolve hlast hdir hdot hdots hrun
  · intro hdot hdots cwd
    exact meetIn_of_parentFile hsplit hdot hdots cwd c.volume
  · intro hdot hdots hcareful cwd hheld hdir
    exact hcareful.actsFrom hheld hdir hsplit hdot hdots

/-- Slashes in front, between and behind are only counted in between. -/
theorem Comes.splits_exact_slashes : ∃ c : Client, Comes Call.Careful c ∧
    Path.parentFile "//x//y/" = some ("//x/", "y") ∧ Path.LastName "//x//y/" "//x/" "y" ∧
    c.Parts "//x//y/" "//x/" "y" := by
  obtain ⟨c, hreached, -⟩ := exists_reached_root
  have hsplit : Path.parentFile "//x//y/" = some ("//x/", "y") := by decide
  exact ⟨c, hreached.comes, hsplit, (hreached.comes.splits_exact "//x//y/").2 _ _ hsplit⟩

end Client
end TieredVolume
