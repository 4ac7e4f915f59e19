import Mathlib.Order.Interval.Finset.Nat
import TieredVolume.Proofs.Client.Course
import TieredVolume.Proofs.Spending

/-!
Paths lead through a tree. The names that the directories of a volume spell make a finite tree with
the root on top, and the calls that take a path answer and change it as the tree alone tells, with
the one exception that there may be no space for what is to be created: then fewer sectors are free
than the new node and its name take.
-/
namespace TieredVolume

variable {S S' : Shelf} {handles : List Handle} {file : Sector → File} {p : List String} {s : Sector}
  {name path : String} {new : Namespace.NewNode} {call : Call} {answer : Except Refusal Answer}
  {free n total : Nat} {v v' : Volume n} {c : List String} {cwd : Handle}

/-! ### Trees of names -/

/-- A finite tree of valid names below the root, in which every inode has one place. -/
structure Tree.WellFormed (t : Tree) : Prop where
  root : t [] = some (rootSector, true)
  finite : {p | t p ≠ none}.Finite
  above : ∀ name p, t (name :: p) ≠ none → ∃ d, t p = some (d, true)
  named : ∀ name p, t (name :: p) ≠ none → isValidName name = true ∧ name ≠ "." ∧ name ≠ ".."
  unique : ∀ p q s b b', t p = some (s, b) → t q = some (s, b') → p = q

/-- There are only so many sectors, and each has at most one place. -/
theorem Rooted.finite (hr : Rooted file) : {p | treeOf file p ≠ none}.Finite := by
  refine Set.Finite.of_injOn (f := fun p => ((treeOf file p).map (·.1.block)).getD 0)
    (t := Set.Iio sectorLimit) (fun p hp => ?_) (fun p hp q hq heq => ?_) (Set.finite_Iio _)
  · obtain ⟨⟨s, b⟩, hs⟩ := Option.ne_none_iff_exists'.mp hp
    simp only [hs, Option.map_some, Option.getD_some]
    exact UInt32.toNat_lt s.raw
  · obtain ⟨⟨s, b⟩, hs⟩ := Option.ne_none_iff_exists'.mp hp
    obtain ⟨⟨s', b'⟩, hs'⟩ := Option.ne_none_iff_exists'.mp hq
    simp only [hs, hs', Option.map_some, Option.getD_some] at heq
    exact hr.unique p q s b b' hs (Sector.block_injective heq ▸ hs')

theorem Rooted.wellFormed (hr : Rooted file) : (treeOf file).WellFormed where
  root := rfl
  finite := hr.finite
  above := fun name p hp => by
    obtain ⟨⟨s, b⟩, hs⟩ := Option.ne_none_iff_exists'.mp hp
    obtain ⟨d, hd, -⟩ := exists_directory_above hs
    exact ⟨d, hd⟩
  named := fun name p hp => by
    obtain ⟨⟨s, b⟩, hs⟩ := Option.ne_none_iff_exists'.mp hp
    obtain ⟨d, hd, hfind⟩ := exists_directory_above hs
    obtain ⟨i, e, he, hu, rfl, -⟩ := exists_of_findSlot hfind
    exact (hr.orderly p d hd).named i e he hu
  unique := hr.unique

/-! ### Calls -/

/-- Fewer sectors are free than a new node at a place, with its header, and its name take. -/
def Shelf.Short (S : Shelf) (free : Nat) (new : Namespace.NewNode) (p : List String) : Prop :=
  ∃ name q d, p = name :: q ∧ S.tree q = some (d, true) ∧
    free < footprint new.length + S.entryCost d

/-- A creation at the place that the tree tells: refused as the tree tells, refused for want of
space if it is short, or with one more leaf. -/
def Grows (t t' : Tree) (short : List String → Prop) (c : List String) (path : String) (isDir : Bool)
    (answer : Except Refusal Answer) : Prop :=
  match t.placeFor c path with
  | .error why => answer = .error why ∧ t' = t
  | .ok p =>
    answer = .ok .done ∧ t p = none ∧ (∃ s, (∀ q b, t q ≠ some (s, b)) ∧
      t' = t.set p (some (s, isDir))) ∨
    answer = .error .alreadyExists ∧ t p ≠ none ∧ t' = t ∨
    answer = .error .noSpace ∧ short p ∧ t' = t

/-- What a call answers about the tree, and how it changes it, with so many free sectors. -/
def Call.OnTree (free : Nat) (S S' : Shelf) : Call → (answer : Except Refusal Answer) → Prop
  | create path size cwd, answer => ∃ c, S.tree c = some (cwd.sector, true) ∧
    Grows S.tree S'.tree (S.Short free (.file size)) c path false answer
  | createDirectory path cwd, answer => ∃ c, S.tree c = some (cwd.sector, true) ∧
    Grows S.tree S'.tree (S.Short free .directory) c path true answer
  | openFile path cwd, answer => S'.tree = S.tree ∧ ∃ c, S.tree c = some (cwd.sector, true) ∧
    answer = (S.tree.fileAt c path).map fun s => .opened ⟨s, false, 0⟩
  | openDirectory path cwd, answer => S'.tree = S.tree ∧ ∃ c, S.tree c = some (cwd.sector, true) ∧
    answer = (S.tree.directoryAt c path).map fun s => .opened ⟨s, true, 0⟩
  | resolve path cwd, answer => S'.tree = S.tree ∧ ∃ c, S.tree c = some (cwd.sector, true) ∧
    answer = .ok (match S.tree.find c path with
      | none => .nothing
      | some (s, isDir) => .opened ⟨s, isDir, 0⟩)
  | remove path cwd, answer => ∃ c, S.tree c = some (cwd.sector, true) ∧
    match S.tree.removal S.InUse c path with
    | .error why => answer = .error why ∧ S'.tree = S.tree
    | .ok p => answer = .ok .done ∧ S'.tree = S.tree.set p none
  | root, answer => S'.tree = S.tree ∧ answer = .ok (.opened ⟨rootSector, true, 0⟩)
  | _, _ => S'.tree = S.tree

theorem Call.OnTree.congr {T : Shelf} (h : call.OnTree free S S' answer)
    (htree : T.tree = S'.tree) : call.OnTree free S T answer := by
  unfold Call.OnTree at h ⊢
  rw [htree]
  exact h

theorem tree_opens {isDir : Bool} {found : Except Refusal Sector}
    (h : Opens S isDir found answer S') :
    S'.tree = S.tree ∧ answer = found.map fun s => .opened ⟨s, isDir, 0⟩ := by
  cases found with
  | error why =>
    obtain ⟨rfl, rfl⟩ := h
    exact ⟨rfl, rfl⟩
  | ok s =>
    obtain ⟨rfl, rfl⟩ := h
    exact ⟨rfl, rfl⟩

/-- A creation that is refused for want of space is short. -/
theorem Stores.short (hv : Stores total v S) (hS : Settled S) (hc : S.tree c = some (cwd.sector, true))
    (hplace : S.tree.placeFor c path = .ok p) (hrun : (do
        Namespace.createNode path cwd.sector new
        return Answer.done : Attempt n Answer).run v = .ok (.error .noSpace) v') :
    S.Short v.map.freeCount new p := by
  obtain ⟨name, q, d, rfl, hq⟩ := Tree.exists_directory_of_placeFor hplace
  have hspends : Spends (Stores total) (do
      Namespace.createNode (n := n) path cwd.sector new
      return Answer.done) S (footprint new.length + S.entryCost d) :=
    Spends.before (Namespace.createNode_spends hS hc hplace hq) fun _ => Attempt.Frugal.pure _
  exact ⟨name, q, d, rfl, hq, (hspends v hv).of_ok hrun rfl⟩

theorem Settled.grows (hS : Settled S) (h : Makes S path cwd new answer S')
    (hshort : ∀ c p, S.tree c = some (cwd.sector, true) → S.tree.placeFor c path = .ok p →
      answer = .error .noSpace → S.Short free new p) :
    ∃ c, S.tree c = some (cwd.sector, true) ∧
      Grows S.tree S'.tree (S.Short free new) c path new.isDir answer := by
  obtain ⟨c, hc, hmade⟩ := h
  refine ⟨c, hc, ?_⟩
  unfold Grows
  cases hplace : S.tree.placeFor c path with
  | error why =>
    rw [hplace] at hmade
    obtain ⟨rfl, rfl⟩ := hmade
    exact ⟨rfl, rfl⟩
  | ok p =>
    rw [hplace] at hmade
    rcases hmade with ⟨rfl, hcreated⟩ | ⟨rfl, hp, rfl⟩ | ⟨rfl, rfl⟩
    · obtain ⟨-, s, hs, -, htree⟩ := hcreated.settled hS
      obtain ⟨name, q, d, t, bytes, rfl, -, hnone, -⟩ := hcreated
      exact .inl ⟨rfl, hnone, s, fun q b hq => hs (hS.linked q s b hq), htree⟩
    · exact .inr (.inl ⟨rfl, hp, rfl⟩)
    · exact .inr (.inr ⟨rfl, hshort c p hc hplace rfl, rfl⟩)

/-- Each call does to the tree what is said of it. -/
theorem Stands.onTree (hS : Stands S handles) (hv : Stores total v S)
    (hcall : call.Possible handles) (hrun : call.attempt.run v = .ok answer v')
    (heffect : call.Effect S answer S') : call.OnTree v.map.freeCount S S' answer := by
  cases call with
  | root =>
    have hopened : Opens S true (.ok rootSector) answer S' := heffect
    exact tree_opens hopened
  | create path size cwd =>
    exact hS.toSettled.grows heffect fun c p hc hplace hanswer =>
      hv.short hS.toSettled hc hplace (hanswer ▸ hrun)
  | createDirectory path cwd =>
    exact hS.toSettled.grows heffect fun c p hc hplace hanswer =>
      hv.short hS.toSettled hc hplace (hanswer ▸ hrun)
  | openFile path cwd =>
    obtain ⟨c, hc, hopened⟩ := heffect
    obtain ⟨htree, hanswer⟩ := tree_opens hopened
    exact ⟨htree, c, hc, hanswer⟩
  | openDirectory path cwd =>
    obtain ⟨c, hc, hopened⟩ := heffect
    obtain ⟨htree, hanswer⟩ := tree_opens hopened
    exact ⟨htree, c, hc, hanswer⟩
  | resolve path cwd =>
    obtain ⟨c, hc, hopened⟩ := heffect
    cases hfound : S.tree.find c path with
    | none =>
      rw [hfound] at hopened
      obtain ⟨rfl, rfl⟩ := hopened
      exact ⟨rfl, c, hc, by rw [hfound]⟩
    | some found =>
      rw [hfound] at hopened
      obtain ⟨htree, hanswer⟩ := tree_opens hopened
      exact ⟨htree, c, hc, by rw [hfound]; exact hanswer⟩
  | remove path cwd =>
    obtain ⟨c, hc, hremoved⟩ := heffect
    refine ⟨c, hc, ?_⟩
    cases hremoval : S.tree.removal S.InUse c path with
    | error why =>
      rw [hremoval] at hremoved
      obtain ⟨rfl, rfl⟩ := hremoved
      exact ⟨rfl, rfl⟩
    | ok p =>
      rw [hremoval] at hremoved
      exact ⟨hremoved.1, (hremoved.2.settled hS.toSettled).2⟩
  | writeAt file offset bytes =>
    change Writes S file.sector offset bytes answer S' at heffect
    unfold Writes at heffect
    split at heffect
    · rw [heffect.2]
      rfl
    · rcases heffect with ⟨-, rfl⟩ | ⟨-, rfl⟩
      · exact (hS.toSettled.setBytes _ (hS.file file hcall.1 hcall.2)).2
      · rfl
  | grow file size offset =>
    rcases heffect with ⟨-, rfl⟩ | ⟨-, rfl⟩
    · exact (hS.toSettled.setBytes _ (hS.file file hcall.1 hcall.2)).2
    · rfl
  | mark m handle =>
    obtain ⟨-, nd, -, rfl⟩ := heffect
    rfl
  | close handle =>
    obtain ⟨-, rfl⟩ := heffect
    exact congrArg treeOf (Shelf.file_closed S handle.sector)
  | readNext dir | readAt file offset count | length file | allocateAt file offset =>
    obtain ⟨-, rfl⟩ := heffect
    rfl
  | clone handle | shutdown | flush | readAhead =>
    obtain ⟨-, rfl⟩ := heffect
    rfl

namespace Client

variable {c : Client}

/-- Whatever happened before, the names of a volume make a finite tree, and a call with a path
answers and changes it as the tree tells; it is refused for want of space only if fewer sectors are
free than what it creates takes. It ends in a fault only if it does not fit, that is, if it would put
a name into a directory that has no slot left. -/
theorem Reached.path_calls (h : Reached c) (hcall : call.Allowed c.shelf c.handles) :
    c.shelf.tree.WellFormed ∧
    match call.attempt.run c.volume with
    | .ok answer volume => call.OnTree c.volume.map.freeCount c.shelf volume.shelf answer
    | .error _ _ => ¬ call.Fits c.shelf := by
  obtain ⟨hv, hS⟩ := h.stands
  refine ⟨hS.rooted.wellFormed, ?_⟩
  have hyields := hS.call_yields hv hcall
  cases hrun : call.attempt.run c.volume with
  | ok answer volume =>
    obtain ⟨S', heffect, hS', hl, -⟩ := hyields.of_ok hrun
    exact (hS.onTree hv (hS.careful hcall).1 hrun heffect).congr (hS'.toSettled.like hl).2
  | error e volume => exact hyields.of_error hrun

/-- On a new volume with room to spare, a directory is made in the root. -/
theorem Reached.path_calls_directory : ∃ (c : Client) (volume : Volume cacheCapacity) (d : Sector),
    Reached c ∧ (Call.createDirectory "/a" rootHandle).Allowed c.shelf c.handles ∧
    (Call.createDirectory "/a" rootHandle).attempt.run c.volume = .ok (.ok .done) volume ∧
    c.shelf.tree ["a"] = none ∧ volume.shelf.tree = c.shelf.tree.set ["a"] (some (d, true)) := by
  obtain ⟨c, hc, hheld⟩ : ∃ c, Arrived Call.Allowed 65536 c _ ∧ c.handles = [rootHandle] :=
    exists_arrived_root (fun _ _ => trivial) (by decide) (by decide)
  have hreached := hc.comes.reached fun _ _ _ => id
  have hallowed : (Call.createDirectory "/a" rootHandle).Allowed c.shelf c.handles :=
    ⟨hheld ▸ List.mem_singleton_self _, rfl⟩
  have hplace : ∀ {t : Tree} {here : List String}, t [] = some (rootSector, true) →
      t.placeFor here "/a" = .ok ["a"] :=
    Tree.placeFor_name (by decide) (by decide) (by decide) (by decide)
  have hroot : (Shelf.blank.opened rootSector).tree [] = some (rootSector, true) := rfl
  obtain ⟨c', _, _, -, -, hrun, -⟩ := hc.makes (settled_blank.open rfl) hroot hallowed
    (hplace hroot) hroot bare_root (roomy_root (by decide) (by decide))
  obtain ⟨hwell, htree⟩ := hreached.path_calls hallowed
  rw [hrun] at htree
  obtain ⟨p, -, hgrows⟩ := htree
  rw [Grows, hplace hwell.root] at hgrows
  rcases hgrows with ⟨-, hnone, s, -, hset⟩ | ⟨hexists, -⟩ | ⟨hshort, -⟩
  · exact ⟨c, c'.volume, s, hreached, hallowed, hrun, hnone, hset⟩
  · cases hexists
  · cases hshort

end Client
end TieredVolume
