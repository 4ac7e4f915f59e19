import TieredVolume.Proofs.Namespace.Splitting
import TieredVolume.Proofs.Nodes.Shared

/-!
A path resolved in two steps: first the directory in front of its last name, and then the name from
there. That is done with one handle more on the directory than a walk through the whole path has, but
nobody sees it, whatever the volume is like.
-/
namespace TieredVolume

open Attempt
open OpenTable (Same Counted Counting Sparing find?_insert find?_erase governs_counting
  governs_sparing)

variable {n : Nat} {α : Type} {cwd s t : Sector} {nd : Node} {v v' : Volume n}
  {path dir name : String} {isDir : Bool}

/-! ### Volumes that are used alike -/

/-- The volumes differ at most in the order of their tables. -/
structure Volume.Matches (v v' : Volume n) : Prop where
  cache : v'.cache = v.cache
  map : v'.map = v.map
  node : ∀ s, v'.table.find? s = v.table.find? s

theorem Volume.Matches.refl (v : Volume n) : v.Matches v := ⟨rfl, rfl, fun _ => rfl⟩

/-- The runs end in the same fault, or with the same answer and volumes that match. -/
def Concur (r r' : EStateM.Result Fault (Volume n) α) : Prop :=
  match r, r' with
  | .ok a v, .ok a' v' => a = a' ∧ v.Matches v'
  | .error e _, .error e' _ => e = e'
  | _, _ => False

theorem Concur.refl (r : EStateM.Result Fault (Volume n) α) : Concur r r := by
  cases r with
  | ok a v => exact ⟨rfl, .refl v⟩
  | error e v => rfl

/-- Runs that have the same first part. -/
theorem Concur.bind {β : Type} {x : VolumeM n β} {f f' : β → VolumeM n α}
    (h : ∀ b v', x v = .ok b v' → Concur (f b v') (f' b v')) :
    Concur ((x >>= f) v) ((x >>= f') v) := by
  cases hx : x v with
  | ok b v' =>
    rw [run_bind_ok hx, run_bind_ok hx]
    exact h b v' hx
  | error e v' =>
    rw [run_bind_error hx, run_bind_error hx]
    rfl

/-! ### What a walk comes to -/

/-- The inode is open, and if only one has it open, then nothing else is known of it. -/
def Volume.Has (v : Volume n) (s : Sector) : Prop :=
  ∃ nd, v.table.find? s = some nd ∧ 0 < nd.openers ∧ (nd.openers = 1 → nd = { openers := 1 })

theorem Volume.Has.congr (h : v.Has s) (hfind : v'.table.find? s = v.table.find? s) : v'.Has s := by
  rwa [Has, hfind]

namespace Inode

theorem open_has {faults : Fault → Prop} (hc : v.table.Counted) (s : Sector) :
    Yields faults («open» s) v fun _ v' => v'.Has s ∧ v'.table.Counted := by
  refine Yields.intro_ok (open_eq s v) ⟨?_, hc.insert (Nat.succ_pos _)⟩
  refine ⟨_, (find?_insert ..).trans (if_pos rfl), Nat.succ_pos _, fun hone => ?_⟩
  cases hfind : v.table.find? s with
  | none => rfl
  | some nd =>
    rw [hfind] at hone
    have hpos := hc s nd hfind
    simp only [Node.shared, Option.getD_some] at hone
    omega

/-- Going up, which opens what is above before it closes what was below. -/
theorem up_has {x : VolumeM n α} {post : α → Volume n → Prop} (hc : v.table.Counted) (hs : v.Has s)
    (t : Sector) (hx : ∀ v', v'.Has t → v'.table.Counted → Yields anyFault x v' post) :
    Yields anyFault (do «open» t; close s; x) v post := by
  obtain ⟨nd, hfind, hopen, -⟩ := id hs
  by_cases ht : t = s
  · subst ht
    refine Yields.bind (Yields.intro_ok (open_eq_shared hfind) ?_)
    exact Yields.bind (Yields.intro_ok (close_shared hfind hopen) (hx v hs hc))
  · refine (open_has hc t).andThen fun _ v₁ ⟨hhas, hc₁⟩ => ?_
    refine ((close_moves (governs_counting s) v₁).and
      (close_moves (governs_sparing s) v₁)).andThen fun _ v' ⟨hcounting, hsparing⟩ => ?_
    exact hx v' (hhas.congr (hsparing t ht)) (hcounting hc₁)

end Inode

namespace Namespace

open Volume

/-- A walk through open inodes comes to one. -/
theorem walk_has (names : List String) (hc : v.table.Counted) (hs : v.Has s) :
    Yields anyFault (walk names s isDir) v fun found v' =>
      ∀ t b, found = some (t, b) → v'.Has t := by
  induction names generalizing s isDir v with
  | nil => exact Yields.pure fun t b h => by cases h; exact hs
  | cons name rest ih =>
    rw [walk]
    split
    · exact ih hc hs
    split
    · refine (Inode.parent_moves (R := Same) s v).andThen fun p v₁ hsame => ?_
      have htable : v₁.table = v.table := hsame
      rw [← htable] at hc
      have hs₁ : v₁.Has s := hs.congr (by rw [htable])
      exact Inode.up_has hc hs₁ p fun v' hp hc' => ih hc' hp
    split
    · exact (Inode.close_moves (governs_counting s) v).andThen fun _ _ _ => Yields.pure nofun
    · refine (Directory.lookup_moves (R := Same) s name v).andThen fun found v₁ hsame => ?_
      rw [← show v₁.table = v.table from hsame] at hc
      refine (Inode.close_moves (governs_counting s) v₁).andThen fun _ v₂ hcounting => ?_
      cases found with
      | none => exact Yields.pure nofun
      | some found => exact (Inode.open_has (hcounting hc) _).andThen fun _ _ h => ih h.2 h.1

theorem resolve_has (hc : v.table.Counted) (cwd : Sector) (path : String) :
    Yields anyFault (resolve cwd path) v fun found v' =>
      ∀ t b, found = some (t, b) → v'.Has t := by
  rw [resolve]
  split
  · exact Yields.pure nofun
  · exact (Inode.open_has hc _).andThen fun _ _ h => walk_has _ h.2 h.1

/-! ### Resolving apart -/

/-- Walks through the first names and then through the others. -/
theorem walk_append (names rest : List String) (s : Sector) (isDir : Bool) :
    walk (n := n) (names ++ rest) s isDir = (do
      match ← walk names s isDir with
      | none => return none
      | some (t, b) => walk rest t b) := by
  induction names generalizing s isDir with
  | nil => rfl
  | cons name names ih =>
    rw [List.cons_append, walk, walk]
    by_cases hdot : name = "."
    · rw [if_pos hdot, if_pos hdot, ih]
    by_cases hdots : name = ".."
    · simp only [if_neg hdot, if_pos hdots, ih, bind_assoc]
    cases isDir with
    | false => simp only [if_neg hdot, if_neg hdots, Bool.not_false, if_true, bind_assoc, pure_bind]
    | true =>
      simp only [if_neg hdot, if_neg hdots, Bool.not_true, Bool.false_eq_true, if_false, bind_assoc]
      refine bind_congr fun found => bind_congr fun _ => ?_
      cases found with
      | none => rfl
      | some found => simp only [ih, bind_assoc]

/-- Resolves a name from what is found, and lets go of that. A directory is asked for the name. From a
file, which has no names in it, one dot stays there and two dots go up. -/
def resolveFrom (name : String) : Option (Sector × Bool) → VolumeM n (Option (Sector × Bool))
  | none => return none
  | some (d, true) => do
    let found ← resolve d name
    Inode.close d
    return found
  | some (f, false) => do
    if name = "." then return some (f, false)
    let found ← if name = ".." then resolve f name else pure none
    Inode.close f
    return found

/-- Resolves the directory, which is `cwd` if there is none, and then the name from there. -/
def resolveApart (cwd : Sector) (dir name : String) : VolumeM n (Option (Sector × Bool)) := do
  if dir = "" then resolve cwd name
  else resolveFrom name (← resolve cwd dir)

theorem resolve_of_ne_empty (hpath : path ≠ "") : resolve (n := n) cwd path = (do
    Inode.open (if Path.isAbsolute path then rootSector else cwd)
    walk (Path.components path) (if Path.isAbsolute path then rootSector else cwd) true) := by
  rw [resolve, if_neg hpath]

/-- A name is looked up where the walk starts. -/
theorem resolve_name (hne : name ≠ "") (hname : '/' ∉ name.toList) :
    resolve (n := n) cwd name = (do
      Inode.open cwd
      walk [name] cwd true) := by
  rw [resolve_of_ne_empty hne, Path.isAbsolute_name hname, Path.components_name hne hname]
  rfl

/-- Without a directory in front of it, the name is all that is walked. -/
theorem resolve_alone (h : Path.LastName path "" name) :
    resolve (n := n) cwd path = resolve cwd name := by
  have hrelative : Path.isAbsolute path = false := h.absolute.symm
  have hcomponents : Path.components path = [name] := h.components
  rw [resolve_of_ne_empty h.ne_empty, hrelative, hcomponents, resolve_name h.nonempty h.slashless]
  rfl

/-- With one, the walk through the path goes on where that through the directory ended. -/
theorem resolve_below (h : Path.LastName path dir name) (hdir : dir ≠ "") :
    resolve (n := n) cwd path = (do
      match ← resolve cwd dir with
      | none => return none
      | some (t, b) => walk [name] t b) := by
  rw [resolve_of_ne_empty h.ne_empty, resolve_of_ne_empty hdir, h.absolute, h.components, bind_assoc]
  exact bind_congr fun _ => walk_append _ _ _ _

/-- The inode is read through the handle that there is, or through one more. -/
theorem concur_shared {β : Type} {x : VolumeM n β} {f f' : β → VolumeM n α} (hx : BlindTo s x)
    (hsame : Moves Same x) (hs : v.Has s)
    (h : ∀ b v', v'.Has s → Concur (f b v') (f' b (v'.shared s))) :
    Concur ((x >>= f) v) ((x >>= f') (v.shared s)) := by
  have hrun := hx v
  cases hv : x v with
  | error e v' =>
    rw [hv] at hrun
    rw [run_bind_error hv, run_bind_error hrun]
    rfl
  | ok b v' =>
    have htable : v'.table = v.table := (hsame v).of_ok hv
    rw [hv] at hrun
    rw [run_bind_ok hv, run_bind_ok hrun]
    exact h b v' (hs.congr (by rw [htable]))

/-- Who has an inode alone, and knows nothing else of it, forgets it by closing. -/
theorem close_alone (hfind : v.table.find? s = some { openers := 1 }) :
    Inode.close s v = .ok ⟨⟩ { v with table := v.table.erase s } :=
  (run_bind_ok (Inode.node_eq_ok hfind)).trans rfl

theorem close_one_of_many (hfind : v.table.find? s = some nd) (hmore : 1 < nd.openers) :
    Inode.close s v = .ok ⟨⟩ { v with
      table := v.table.insert s { nd with openers := nd.openers - 1 } } := by
  refine (run_bind_ok (Inode.node_eq_ok hfind)).trans ?_
  rw [if_pos hmore]
  rfl

/-- What was open is open after another opening. -/
theorem exists_node_of_open (hfind : v.table.find? s = some nd) (hopen : 0 < nd.openers)
    (t : Sector) :
    ∃ v' nd', Inode.open t v = .ok ⟨⟩ v' ∧ v'.table.find? s = some nd' ∧ 0 < nd'.openers := by
  by_cases hs : s = t
  · subst hs
    exact ⟨_, nd.shared, Inode.open_eq_shared hfind, OpenTable.find?_shared hfind, Nat.succ_pos _⟩
  · exact ⟨_, nd, Inode.open_eq t v, (find?_insert ..).trans ((if_neg hs).trans hfind), hopen⟩

/-- An inode is closed before another is opened, or after it. -/
theorem close_open_concur (hs : v.Has s) (t : Sector) (a : α) :
    Concur ((do Inode.close s; Inode.open t; return a : VolumeM n α) v)
      ((do Inode.open t; Inode.close s; return a : VolumeM n α) v) := by
  obtain ⟨nd, hfind, hopen, hone⟩ := hs
  have hnode : nd = { openers := 1 } ∨ 1 < nd.openers := (Nat.eq_or_lt_of_le hopen).imp_left
    fun h => hone h.symm
  by_cases ht : s = t
  · subst ht
    rw [run_bind_ok (Inode.open_eq_shared hfind), run_bind_ok (Inode.close_shared hfind hopen)]
    rcases hnode with rfl | hmore
    · rw [run_bind_ok (close_alone hfind), run_bind_ok (Inode.open_eq _ _)]
      refine ⟨rfl, rfl, rfl, fun u => ?_⟩
      by_cases hu : u = s
      · simp [find?_insert, find?_erase, hu, hfind, Node.shared]
      · simp [find?_insert, find?_erase, hu]
    · rw [run_bind_ok (close_one_of_many hfind hmore), run_bind_ok (Inode.open_eq _ _)]
      refine ⟨rfl, rfl, rfl, fun u => ?_⟩
      by_cases hu : u = s
      · simp [find?_insert, hu, hfind, Node.shared, Nat.sub_add_cancel hopen]
      · simp [find?_insert, hu]
  · have hother : (v.table.insert t ((v.table.find? t).getD {}).shared).find? s = some nd := by
      rw [find?_insert, if_neg ht, hfind]
    rw [run_bind_ok (Inode.open_eq t v)]
    rcases hnode with rfl | hmore
    · rw [run_bind_ok (close_alone hfind), run_bind_ok (Inode.open_eq _ _),
        run_bind_ok (close_alone hother)]
      refine ⟨rfl, rfl, rfl, fun u => ?_⟩
      by_cases hu : u = t
      · simp [find?_insert, find?_erase, hu, Ne.symm ht]
      · simp [find?_insert, find?_erase, hu]
    · rw [run_bind_ok (close_one_of_many hfind hmore), run_bind_ok (Inode.open_eq _ _),
        run_bind_ok (close_one_of_many hother hmore)]
      refine ⟨rfl, rfl, rfl, fun u => ?_⟩
      by_cases hu : u = t
      · simp [find?_insert, hu, Ne.symm ht]
      · simp [find?_insert, hu]

/-- A name is resolved from an open inode by a walk from it, or by another handle on it. -/
theorem resolve_again (hne : name ≠ "") (hname : '/' ∉ name.toList) (hs : v.Has s) :
    Concur (walk [name] s true v) ((do
      let found ← resolve s name
      Inode.close s
      return found : VolumeM n _) v) := by
  obtain ⟨nd, hfind, hopen, -⟩ := id hs
  rw [resolve_name hne hname, bind_assoc, run_bind_ok (Inode.open_eq_shared hfind)]
  by_cases hdot : name = "."
  · simp only [walk, if_pos hdot, pure_bind]
    rw [run_bind_ok (Inode.close_shared hfind hopen)]
    exact Concur.refl _
  by_cases hdots : name = ".."
  · simp only [walk, if_neg hdot, if_pos hdots, bind_assoc, pure_bind]
    refine concur_shared (Inode.parent_blind s) (Inode.parent_moves s) hs fun p v₁ hs₁ => ?_
    obtain ⟨nd₁, hfind₁, hopen₁, -⟩ := hs₁
    obtain ⟨v₂, nd₂, hrun, hfind₂, hopen₂⟩ := exists_node_of_open hfind₁ hopen₁ p
    have hrun' : Inode.open p (v₁.shared s) = .ok ⟨⟩ (v₂.shared s) := by
      rw [Inode.open_shared hfind₁, hrun]
      rfl
    rw [run_bind_ok hrun, run_bind_ok hrun', run_bind_ok (Inode.close_shared hfind₂ hopen₂)]
    exact Concur.refl _
  · simp only [walk, if_neg hdot, if_neg hdots, bind_assoc, Bool.not_true, Bool.false_eq_true,
      if_false]
    refine concur_shared (Directory.lookup_blind s name) (Directory.lookup_moves s name) hs
      fun found v₁ hs₁ => ?_
    obtain ⟨nd₁, hfind₁, hopen₁, -⟩ := id hs₁
    rw [run_bind_ok (Inode.close_shared hfind₁ hopen₁)]
    cases found with
    | none => exact Concur.refl _
    | some found =>
      simp only [bind_assoc, pure_bind]
      exact close_open_concur hs₁ _ _

/-- From what the directory is resolved to, a walk goes on as the name is resolved. -/
theorem resolveFrom_concurs (hne : name ≠ "") (hname : '/' ∉ name.toList)
    (found : Option (Sector × Bool)) (hs : ∀ t b, found = some (t, b) → v.Has t) :
    Concur ((match found with
      | none => return none
      | some (t, b) => walk [name] t b : VolumeM n _) v) (resolveFrom name found v) := by
  match found with
  | none => exact Concur.refl _
  | some (d, true) => exact resolve_again hne hname (hs d true rfl)
  | some (f, false) =>
    by_cases hdot : name = "."
    · simp only [walk, resolveFrom, if_pos hdot]
      exact Concur.refl _
    by_cases hdots : name = ".."
    · have hup := resolve_again hne hname (hs f false rfl)
      simp only [walk, if_neg hdot, if_pos hdots] at hup
      simp only [walk, resolveFrom, if_neg hdot, if_pos hdots]
      exact hup
    · simp only [walk, resolveFrom, if_neg hdot, if_neg hdots, Bool.not_false, if_true, pure_bind]
      exact Concur.refl _

/-- A path is resolved as its directory is, and then its last name from there. -/
theorem resolve_concurs (hc : v.table.Counted) (h : Path.LastName path dir name) (cwd : Sector) :
    Concur (resolve cwd path v) (resolveApart cwd dir name v) := by
  rw [resolveApart]
  by_cases hdir : dir = ""
  · subst hdir
    rw [if_pos rfl, resolve_alone h]
    exact Concur.refl _
  · rw [if_neg hdir, resolve_below h hdir]
    exact Concur.bind fun found v' hrun => resolveFrom_concurs h.nonempty h.slashless found
      ((resolve_has hc cwd dir).of_ok hrun)

/-- Only directories have names in them. -/
theorem exists_directory_of_resolve {x : Sector × Bool} (h : Path.LastName path dir name)
    (hdir : dir ≠ "") (hdot : name ≠ ".") (hdots : name ≠ "..")
    (hrun : resolve cwd path v = .ok (some x) v') :
    ∃ d v₁, resolve cwd dir v = .ok (some (d, true)) v₁ := by
  rw [resolve_below h hdir] at hrun
  cases hfound : resolve cwd dir v with
  | error e v₁ =>
    rw [run_bind_error hfound] at hrun
    cases hrun
  | ok found v₁ =>
    rw [run_bind_ok hfound] at hrun
    match found with
    | some (d, true) => exact ⟨d, v₁, rfl⟩
    | none => cases hrun
    | some (f, false) =>
      simp only [walk, if_neg hdot, if_neg hdots, Bool.not_false, if_true] at hrun
      cases hclose : Inode.close f v₁ with
      | ok _ v₂ =>
        rw [run_bind_ok hclose] at hrun
        cases hrun
      | error e v₂ =>
        rw [run_bind_error hclose] at hrun
        cases hrun

/-! ### Opening, removing and creating -/

/-- What becomes of a path with a last name: from the directory in front of the name, opening,
removing and creating go on with the name there; where there is no such directory, all three fail. -/
def MeetIn (path dir name : String) (cwd : Sector) (v : Volume n) : Prop :=
  match (openParent dir cwd).run v with
  | .ok (.ok d) v₁ =>
    resolve cwd path v = walk [name] d true v₁ ∧
    (remove path cwd).run v =
      (thenAlways (Directory.removeIf d name refuseInUse) (Inode.close d)).run v₁ ∧
    ∀ new, isValidName name = true → (createNode path cwd new).run v =
      (thenAlways (createIn d name new) (Inode.close d)).run v₁
  | .ok (.error why) v₁ =>
    resolve cwd path v = .ok none v₁ ∧ (remove path cwd).run v = .ok (.error why) v₁ ∧
    ∀ new, isValidName name = true → (createNode path cwd new).run v = .ok (.error why) v₁
  | .error e v₁ =>
    resolve cwd path v = .error e v₁ ∧ (remove path cwd).run v = .error e v₁ ∧
    ∀ new, isValidName name = true → (createNode path cwd new).run v = .error e v₁

section Attempts

variable {β : Type} {x : Attempt n α} {f : α → Attempt n β} {a : α} {e : Fault} {why : Refusal}

theorem run_andThen_ok (hx : x.run v = .ok (.ok a) v') : (x >>= f).run v = (f a).run v' := by
  rw [run_bind, run_bind_ok hx]

theorem run_andThen_refused (hx : x.run v = .ok (.error why) v') :
    (x >>= f).run v = .ok (.error why) v' := by
  rw [run_bind, run_bind_ok hx]
  rfl

theorem run_andThen_error (hx : x.run v = .error e v') : (x >>= f).run v = .error e v' := by
  rw [run_bind, run_bind_error hx]

theorem run_always_ok {x : VolumeM n α} (hx : x v = .ok a v') : (always x).run v = .ok (.ok a) v' :=
  (run_bind_ok hx).trans rfl

theorem run_always_error {x : VolumeM n α} (hx : x v = .error e v') :
    (always x).run v = .error e v' := run_bind_error hx

end Attempts

/-- A path is resolved by a walk from the directory in front of its last name, if that opens. -/
theorem resolve_of_openParent (h : Path.LastName path dir name) (hdot : name ≠ ".")
    (hdots : name ≠ "..") (cwd : Sector) (v : Volume n) :
    resolve cwd path v = match (openParent dir cwd).run v with
      | .ok (.ok d) v₁ => walk [name] d true v₁
      | .ok (.error _) v₁ => .ok none v₁
      | .error e v₁ => .error e v₁ := by
  by_cases hdir : dir = ""
  · subst hdir
    rw [resolve_alone h, resolve_name h.nonempty h.slashless]
    rfl
  have hparent : openParent (n := n) dir cwd = openDirectory dir cwd := by
    rw [openParent, if_neg hdir]
  rw [resolve_below h hdir, hparent, openDirectory]
  cases hfound : resolve cwd dir v with
  | error e v₁ => rw [run_bind_error hfound, run_andThen_error (run_always_error hfound)]
  | ok found v₁ =>
    rw [run_bind_ok hfound, run_andThen_ok (run_always_ok hfound)]
    match found with
    | none => rfl
    | some (d, true) => rfl
    | some (f, false) =>
      dsimp only
      simp only [walk, if_neg hdot, if_neg hdots, Bool.not_false, if_true]
      cases hclose : Inode.close f v₁ with
      | ok u v₂ =>
        rw [run_bind_ok hclose, run_andThen_ok (run_always_ok hclose)]
        rfl
      | error e v₂ => rw [run_bind_error hclose, run_andThen_error (run_always_error hclose)]

theorem meetIn_of_parentFile (hsplit : Path.parentFile path = some (dir, name)) (hdot : name ≠ ".")
    (hdots : name ≠ "..") (cwd : Sector) (v : Volume n) : MeetIn path dir name cwd v := by
  have hresolve := resolve_of_openParent (Path.lastName_of_parentFile hsplit) hdot hdots cwd v
  have hremove : remove (n := n) path cwd = (do
      let d ← openParent dir cwd
      thenAlways (Directory.removeIf d name refuseInUse) (Inode.close d)) := by
    rw [remove, hsplit]
  have hcreate : ∀ new, isValidName name = true → createNode (n := n) path cwd new = (do
      let d ← openParent dir cwd
      thenAlways (createIn d name new) (Inode.close d)) := by
    intro new hname
    rw [createNode, hsplit]
    simp [hname, hdot, hdots]
  unfold MeetIn
  cases hparent : (openParent dir cwd).run v with
  | error e v₁ =>
    rw [hparent] at hresolve
    refine ⟨hresolve, ?_, fun new hname => ?_⟩
    · rw [hremove, run_andThen_error hparent]
    · rw [hcreate new hname, run_andThen_error hparent]
  | ok answer v₁ =>
    rw [hparent] at hresolve
    cases answer with
    | ok d =>
      refine ⟨hresolve, ?_, fun new hname => ?_⟩
      · rw [hremove, run_andThen_ok hparent]
      · rw [hcreate new hname, run_andThen_ok hparent]
    | error why =>
      refine ⟨hresolve, ?_, fun new hname => ?_⟩
      · rw [hremove, run_andThen_refused hparent]
      · rw [hcreate new hname, run_andThen_refused hparent]

end Namespace
end TieredVolume
