import TieredVolume.Proofs.Client.Runs
import TieredVolume.Proofs.Inode.Capacity

/-!
The course of a run. On a volume with room to spare, a new name for which there is a place is not
refused, nor is the removal of an empty directory that is not in use; so it can be told, call by
call, to which shelf a run comes.
-/
namespace TieredVolume

variable {total : Nat} {S S' : Shelf} {p q c : List String} {s d t cwd : Sector} {b : Bool}
  {name path : String} {new : Namespace.NewNode} {faults : Fault → Prop} {n : Nat}

/-! ### Room -/

namespace Shelf

theorem mem_live_closed (hs : s ∈ S.live)
    (hstays : ∀ nd, S.node s = some nd → nd.removed = false) (t : Sector) :
    s ∈ (S.closed t).live := by
  unfold closed
  split
  · exact hs
  · split
    · exact hs
    · split
      · rename_i hn _ hremoved
        refine ⟨hs, fun heq => ?_⟩
        rw [hstays _ ((congrArg S.node heq).trans hn)] at hremoved
        cases hremoved
      · exact hs

theorem node_closed_of_ne (hne : s ≠ t) : (S.closed t).node s = S.node s := by
  unfold closed
  split
  · rfl
  · split
    · exact node_setNode_of_ne hne
    · split
      · exact Function.update_of_ne hne ..
      · exact node_setNode_of_ne hne

theorem not_inUse_of_closed (hn : S.node s = none) : ¬ S.InUse s := by
  rw [Namespace.inUse_iff]
  simp [seen, hn]

theorem not_inUse_of_opened (hn : S.node s = none) : ¬ (S.opened s).InUse s := by
  rw [Namespace.inUse_iff]
  simp [seen, node_opened, hn]

/-- However its inodes lie on the volume, there is a free sector, even if one is set aside. -/
def Roomy (total : Nat) (S : Shelf) : Prop := total < sectorLimit ∧ ∃ inodes : List Sector,
  (∀ s ∈ S.live, s ∈ inodes) ∧
    FreeMap.reserved total + 1 + inodes.length * inodeSectors < total

/-- A directory that never had a name in it. -/
def Bare (S : Shelf) (d : Sector) : Prop :=
  ∃ count, 0 < count ∧ S.bytes d = List.replicate (count * entrySize) 0

namespace Bare

variable (hbare : S.Bare d)

include hbare

theorem slots : ∃ count, 0 < count ∧ S.slots d = List.replicate count Entry.empty := by
  obtain ⟨count, hpos, hbytes⟩ := hbare
  exact ⟨count, hpos, by rw [Shelf.slots, hbytes, slotsOf_zeros]⟩

theorem findSlot_eq_none (name : String) : findSlot (S.slots d) name = none := by
  obtain ⟨count, -, hslots⟩ := hbare.slots
  rw [hslots, (orderly_empty count).2 name]

theorem exists_free : ∃ e ∈ S.slots d, e.isInUse = false := by
  obtain ⟨count, hpos, hslots⟩ := hbare.slots
  refine ⟨Entry.empty, ?_, Entry.isInUse_empty⟩
  rw [hslots]
  exact List.mem_replicate.mpr ⟨Nat.ne_of_gt hpos, rfl⟩

theorem hasRoom : HasRoom (S.bytes d) := .inl hbare.exists_free

theorem listed (hd : d ∈ S.live) (hdenials : (S.seen d).denials = 0) : S.Listed d where
  live := hd
  whole := by
    obtain ⟨count, -, hbytes⟩ := hbare
    rw [hbytes, List.length_replicate]
    exact Nat.dvd_mul_left ..
  orderly := by
    obtain ⟨count, -, hslots⟩ := hbare.slots
    rw [hslots]
    exact (orderly_empty count).1
  writable := hdenials

theorem tree_eq_none (hp : S.tree p = some (d, true)) (m : String) : S.tree (m :: p) = none :=
  (treeOf_cons hp).trans (hbare.findSlot_eq_none m)

end Bare

theorem Roomy.mono (hroomy : S.Roomy total) (hlive : ∀ s ∈ S'.live, s ∈ S.live) :
    S'.Roomy total := by
  obtain ⟨hlimit, inodes, hin, hroom⟩ := hroomy
  exact ⟨hlimit, inodes, fun s hs => hin s (hlive s hs), hroom⟩

theorem Roomy.not_cramped (hroomy : S.Roomy total) (hbare : S.Bare d) : ¬ S.Cramped total d := by
  obtain ⟨hlimit, inodes, hlive, hroom⟩ := hroomy
  rintro (⟨s, spare, hspare, hcrowded⟩ | hfull)
  · have haside : ∀ t ∈ spare, t ∈ [s] := fun t ht => List.mem_singleton.mpr (hspare ht)
    exact not_crowded hlimit hlive haside hroom hcrowded
  · obtain ⟨e, he, hfree⟩ := hbare.exists_free
    exact Bool.false_ne_true (hfree.symm.trans (hfull e he))

end Shelf

/-! ### Calls that are not refused -/

namespace Namespace

theorem le_end_of_short (hshort : new.length ≤ sectorSize) :
    new.length ≤ maxSectors * sectorSize :=
  hshort.trans (by decide)

/-- Creating at a place that is known. -/
theorem createNode_at (hS : Settled S) (hc : S.tree c = some (cwd, true))
    (hplace : S.tree.placeFor c path = .ok (name :: q)) (hq : S.tree q = some (d, true))
    (hend : new.length ≤ maxSectors * sectorSize ∨ ∀ e, faults e) (hroom : HasRoom (S.bytes d)) :
    Tries (Stores total) faults (createNode (n := n) path cwd new) S
      (fun _ S' => Created S (name :: q) new S')
      (fun why S' => S' = S ∧ (why = .alreadyExists ∧ S.tree (name :: q) ≠ none ∨
        why = .noSpace ∧ (new.length ≤ sectorSize → S.Cramped total d))) := by
  have hsame : ∀ name' q' d', S.tree.placeFor c path = .ok (name' :: q') →
      S.tree q' = some (d', true) → name' = name ∧ q' = q ∧ d' = d := by
    intro name' q' d' hplace' hq'
    rw [hplace] at hplace'
    obtain ⟨rfl, rfl⟩ := List.cons.inj (Except.ok.inj hplace')
    rw [hq] at hq'
    exact ⟨rfl, rfl, (congrArg Prod.fst (Option.some.inj hq')).symm⟩
  refine (createNode_tries hS hc hend ?_).mono ?_ ?_
  · intro name' q' d' hplace' hq' _
    obtain ⟨-, -, rfl⟩ := hsame name' q' d' hplace' hq'
    exact .inl hroom
  · rintro - S' ⟨p, hp, hcreated⟩
    rw [hplace] at hp
    exact Except.ok.inj hp ▸ hcreated
  · rintro why S' ⟨rfl, hplace' | ⟨name', q', d', hplace', hq', hwhy⟩⟩
    · rw [hplace] at hplace'
      cases hplace'
    · obtain ⟨rfl, rfl, rfl⟩ := hsame name' q' d' hplace' hq'
      exact ⟨rfl, hwhy⟩

theorem createNode_makes (hS : Settled S) (hc : S.tree c = some (cwd, true))
    (hplace : S.tree.placeFor c path = .ok (name :: q)) (hq : S.tree q = some (d, true))
    (hbare : S.Bare d) (hroomy : S.Roomy total) (hshort : new.length ≤ sectorSize) :
    Tries (Stores total) faults (createNode (n := n) path cwd new) S
      (fun _ S' => Created S (name :: q) new S') fun _ _ => False := by
  refine (createNode_at hS hc hplace hq (.inl (le_end_of_short hshort)) hbare.hasRoom).mono
    (fun _ _ => id) ?_
  rintro why S' ⟨-, ⟨-, hsome⟩ | ⟨-, hcramped⟩⟩
  · exact hsome (hbare.tree_eq_none hq name)
  · exact hroomy.not_cramped hbare (hcramped hshort)

theorem openParent_here (hd : d ∈ S.live) : Tries (Stores total) faults (openParent (n := n) "" d) S
    (fun s S' => s = d ∧ S' = S.opened d) fun _ _ => False := by
  unfold openParent
  rw [if_pos rfl]
  refine Tries.bind (Tries.always ((Inode.open_stores hd).mono ?_))
  rintro - S' rfl
  exact Tries.pure ⟨rfl, rfl⟩

/-- A name that stands alone is put into the directory itself, be it that this has a place or not. -/
theorem createNode_makes_here (hc : S.Counted) (hopened : ∀ s nd, S.node s = some nd → s ∈ S.live)
    (hspare : S.spare = ∅) (hd : d ∈ S.live) (hdenials : (S.seen d).denials = 0)
    (hbare : S.Bare d) (hroomy : S.Roomy total) (hshort : new.length ≤ sectorSize)
    (hsplit : Path.parentFile path = some ("", name)) (hname : isValidName name = true)
    (hdot : name ≠ ".") (hdots : name ≠ "..") :
    Tries (Stores total) faults (createNode (n := n) path d new) S
      (fun _ S' => ∃ s bytes, s ∉ S.live ∧
        S' = (S.plant s ⟨d, List.replicate new.length 0⟩).setBytes d bytes) fun _ _ => False := by
  unfold createNode
  rw [hsplit]
  dsimp only
  rw [if_neg (by simp [hname, hdot, hdots])]
  refine Tries.andThen (openParent_here hd) ?_ fun _ _ => False.elim
  rintro d' S₁ ⟨hd', rfl⟩
  rw [hd']
  refine Tries.thenAlways ((createIn_tries hc hopened (hbare.listed hd hdenials) hname hdot hdots
    (fun _ => .inl hbare.hasRoom) hspare (.inl (le_end_of_short hshort))).mono ?_ ?_)
  · rintro - S₁ ⟨-, s, bytes, hs, -, rfl⟩
    obtain ⟨T, hT⟩ : ∃ T, T = (S.plant s ⟨d, List.replicate new.length 0⟩).setBytes d bytes :=
      ⟨_, rfl⟩
    have hdT : d ∈ T.live := hT ▸ .inr hd
    have hcT : T.Counted := hT ▸ hc
    rw [← hT]
    refine (Inode.close_stores (S := T.opened d) hdT (T.node_opened d)).mono ?_
    rintro - S' rfl
    exact ⟨s, bytes, hs, (Shelf.closed_opened hcT).trans hT⟩
  · rintro why S₁ ⟨-, ⟨-, hsome⟩ | ⟨-, hcramped⟩⟩
    · exact absurd (hbare.findSlot_eq_none name) hsome
    · exact absurd (hcramped hshort) (hroomy.not_cramped hbare)

/-- A path that leads to a node of the right kind is opened. -/
theorem opens_of_tries {x : Attempt n Sector} {isDir : Bool} {other : Refusal}
    (h : Tries (Stores total) faults x S
      (fun s S' => ∃ q, S.tree.resolve c path = some q ∧ S.tree q = some (s, isDir) ∧
        S' = S.opened s)
      (fun why S' => S' = S ∧ (why = .notFound ∧ S.tree.resolve c path = none ∨
        why = other ∧ ∃ q s, S.tree.resolve c path = some q ∧ S.tree q = some (s, !isDir))))
    (hresolve : S.tree.resolve c path = some q) (hq : S.tree q = some (s, isDir)) :
    Tries (Stores total) faults x S (fun a S' => a = s ∧ S' = S.opened s) fun _ _ => False := by
  refine h.mono ?_ ?_
  · rintro a S' ⟨q', hresolve', hq', rfl⟩
    rw [hresolve] at hresolve'
    rw [← Option.some.inj hresolve', hq] at hq'
    obtain ⟨rfl, -⟩ := Prod.mk.inj (Option.some.inj hq')
    exact ⟨rfl, rfl⟩
  · rintro why S' ⟨-, ⟨-, hnone⟩ | ⟨-, q', s', hresolve', hq'⟩⟩
    · rw [hresolve] at hnone
      cases hnone
    · rw [hresolve] at hresolve'
      rw [← Option.some.inj hresolve', hq] at hq'
      cases isDir <;> cases hq'

theorem openDirectory_opens (hS : Settled S) (hc : S.tree c = some (cwd, true))
    (hresolve : S.tree.resolve c path = some q) (hq : S.tree q = some (s, true)) :
    Tries (Stores total) faults (openDirectory (n := n) path cwd) S
      (fun a S' => a = s ∧ S' = S.opened s) fun _ _ => False :=
  opens_of_tries (openDirectory_tries hS hc) hresolve hq

theorem openFile_opens (hS : Settled S) (hc : S.tree c = some (cwd, true))
    (hresolve : S.tree.resolve c path = some q) (hq : S.tree q = some (s, false)) :
    Tries (Stores total) faults (openFile (n := n) path cwd) S
      (fun a S' => a = s ∧ S' = S.opened s) fun _ _ => False :=
  opens_of_tries (openFile_tries hS hc) hresolve hq

/-- What lies within a file is overwritten, since that takes no sector. -/
theorem overwrite_tries {nd : Node} {offset : Nat} {bytes : Bytes} (hs : s ∈ S.live)
    (hn : S.node s = some nd) (hdenials : nd.denials = 0) (hsome : bytes ≠ [])
    (hwithin : offset + bytes.length ≤ (S.bytes s).length)
    (hend : offset + bytes.length ≤ maxSectors * sectorSize) :
    Tries (Stores total) faults (Inode.writeAt (n := n) s offset bytes) S
      (fun k S' => k = bytes.length ∧ S' = S.setBytes s (splice (S.bytes s) offset bytes))
      fun _ _ => False := by
  have hdoes : ¬ (bytes = [] ∨ 0 < nd.denials) :=
    not_or.mpr ⟨hsome, hdenials ▸ Nat.lt_irrefl 0⟩
  refine (Inode.writeAt_tries hs hn (.inl (lt_offsetLimit hend)) (.inl hend)).mono ?_ ?_
  · intro k S' hk
    rwa [if_neg hdoes] at hk
  · rintro why S' ⟨-, -, hshort, -⟩
    exact absurd hwithin (Nat.not_le.mpr hshort)

theorem remove_removes (hS : Settled S) (hc : S.tree c = some (cwd, true))
    (hplace : S.tree.placeOf c path = .ok p) (hp : S.tree p = some (t, true))
    (hfree : ¬ S.InUse t) (hempty : ∀ m, S.tree (m :: p) = none) :
    Tries (Stores total) faults (remove (n := n) path cwd) S
      (fun _ S' => Removed S p S') fun _ _ => False := by
  refine (remove_tries hS hc).mono ?_ ?_
  · rintro - S' ⟨p', hplace', hremoved⟩
    rw [hplace] at hplace'
    exact Except.ok.inj hplace' ▸ hremoved
  · rintro why S' ⟨-, hplace' | ⟨p', hplace', hwhy⟩⟩
    · rw [hplace] at hplace'
      cases hplace'
    · rw [hplace] at hplace'
      obtain rfl := Except.ok.inj hplace'
      rcases hwhy with ⟨-, hnone⟩ | ⟨t', hp', ⟨-, huse⟩ | ⟨-, -, m, hm⟩⟩
      · rw [hp] at hnone
        cases hnone
      · rw [hp] at hp'
        obtain ⟨rfl, -⟩ := Prod.mk.inj (Option.some.inj hp')
        exact hfree huse
      · exact hm (hempty m)

end Namespace

/-! ### What they change -/

/-- The shelf has one more inode `s`, which is a node of zeros at the place `p` below `d`. -/
structure Added (S : Shelf) (p : List String) (new : Namespace.NewNode) (d s : Sector)
    (S' : Shelf) : Prop where
  settled : Settled S'
  fresh : s ∉ S.live
  live : S'.live = insert s S.live
  tree : S'.tree = S.tree.set p (some (s, new.isDir))
  node : S'.node = S.node
  file : S'.file s = ⟨d, List.replicate new.length 0⟩
  others : ∀ h, h ≠ d → h ≠ s → S'.file h = S.file h
  joined : ∀ name q, p = name :: q → Joined (S.bytes d) (S'.bytes d) name (s, new.isDir)

theorem Added.place (h : Added S p new d s S') : S'.tree p = some (s, new.isDir) := by
  rw [h.tree]
  exact Function.update_self ..

theorem Created.added (hS : Settled S) (h : Created S (name :: q) new S')
    (hq : S.tree q = some (d, true)) : ∃ s, Added S (name :: q) new d s S' := by
  obtain ⟨hsettled, -⟩ := h.settled hS
  obtain ⟨name', q', d', s, bytes, heq, hq', hnone, hs, hlist, rfl⟩ := h
  obtain ⟨rfl, rfl⟩ := List.cons.inj heq
  rw [hq] at hq'
  obtain ⟨rfl, -⟩ := Prod.mk.inj (Option.some.inj hq')
  have hds : s ≠ d := fun heq => hs (heq ▸ hS.linked q d true hq)
  refine ⟨s, hsettled, hs, rfl, (hS.grafted_created hq hnone hs hlist).tree hS.rooted, rfl, ?_,
    fun h hd hs => ?_, fun name'' q'' heq => ?_⟩
  · rw [Shelf.file_setBytes_of_ne hds]
    exact Function.update_self ..
  · rw [Shelf.file_setBytes_of_ne hd]
    exact Function.update_of_ne hs ..
  · obtain ⟨rfl, -⟩ := List.cons.inj heq
    simpa only [Shelf.bytes, Shelf.file_setBytes_self] using hlist

/-- The shelf has lost the place `p`, at which `t` was. -/
structure Lost (S : Shelf) (p : List String) (t : Sector) (S' : Shelf) : Prop where
  settled : Settled S'
  tree : S'.tree = S.tree.set p none
  live : S'.live = (S.removed t).live
  node : S'.node = (S.removed t).node
  parent : ∀ h, (S'.file h).parent = (S.file h).parent
  bytes : ∀ h, S.tree p.tail ≠ some (h, true) → S'.bytes h = S.bytes h

theorem Removed.lost (hS : Settled S) (h : Removed S p S') (hp : S.tree p = some (t, b)) :
    Lost S p t S' := by
  obtain ⟨hsettled, htree⟩ := h.settled hS
  obtain ⟨name, q, d, t', isDir, bytes, rfl, hq, hp', -, -, rfl⟩ := h
  rw [hp] at hp'
  obtain ⟨rfl, -⟩ := Prod.mk.inj (Option.some.inj hp')
  have hnode : (S.setBytes d bytes).node = S.node := rfl
  refine ⟨hsettled, htree, ?_, ?_, fun h => ?_, fun h hne => ?_⟩
  · rw [Shelf.removed, Shelf.removed, hnode]
    split <;> rfl
  · rw [Shelf.removed, Shelf.removed, hnode]
    split <;> rfl
  · rw [Shelf.file_removed]
    by_cases hd : h = d
    · rw [hd, Shelf.file_setBytes_self]
    · rw [Shelf.file_setBytes_of_ne hd]
  · have hd : h ≠ d := fun heq => hne (heq ▸ hq)
    rw [Shelf.bytes, Shelf.file_removed, Shelf.file_setBytes_of_ne hd, Shelf.bytes]

/-! ### Where paths lead -/

namespace Tree

variable {t : Tree} {dir : String}

theorem walk_into {x : Sector × Bool} {rest : List String} (hdot : name ≠ ".") (hdots : name ≠ "..")
    (hp : t p = some (d, true)) (hx : t (name :: p) = some x) :
    t.walk (name :: rest) p = t.walk rest (name :: p) := by
  simp only [walk, if_neg hdot, if_neg hdots, hp, hx]

theorem resolve_absolute (hne : path ≠ "") (habsolute : Path.isAbsolute path = true) :
    t.resolve c path = t.walk (Path.components path) [] := by
  rw [resolve, if_neg hne, if_pos habsolute]

theorem resolve_name {x : Sector × Bool} (hne : path ≠ "") (habsolute : Path.isAbsolute path = true)
    (hcomponents : Path.components path = [name]) (hdot : name ≠ ".") (hdots : name ≠ "..")
    (hroot : t [] = some (d, true)) (hx : t [name] = some x) : t.resolve c path = some [name] := by
  rw [resolve_absolute hne habsolute, hcomponents, walk_into hdot hdots hroot hx, walk]

theorem placeFor_eq_ok (hsplit : Path.parentFile path = some (dir, name))
    (hname : isValidName name = true) (hdot : name ≠ ".") (hdots : name ≠ "..")
    (hparent : t.resolveParent c dir = some q) (hq : t q = some (d, true)) :
    t.placeFor c path = .ok (name :: q) := by
  simp only [placeFor, hsplit]
  rw [if_neg (by simp [hname, hdot, hdots])]
  exact placeIn_directory name hparent hq

theorem placeOf_eq_ok (hsplit : Path.parentFile path = some (dir, name))
    (hparent : t.resolveParent c dir = some q) (hq : t q = some (d, true)) :
    t.placeOf c path = .ok (name :: q) := by
  simp only [placeOf, hsplit]
  exact placeIn_directory name hparent hq

theorem resolveParent_root : t.resolveParent c "/" = some [] := rfl

theorem placeFor_name (hsplit : Path.parentFile path = some ("/", name))
    (hname : isValidName name = true) (hdot : name ≠ ".") (hdots : name ≠ "..")
    (hroot : t [] = some (d, true)) : t.placeFor c path = .ok [name] :=
  placeFor_eq_ok hsplit hname hdot hdots resolveParent_root hroot

theorem placeOf_name (hsplit : Path.parentFile path = some ("/", name))
    (hroot : t [] = some (d, true)) : t.placeOf c path = .ok [name] :=
  placeOf_eq_ok hsplit resolveParent_root hroot

end Tree

namespace Client

open Attempt

variable {kind : Shelf → List Handle → Call → Prop} {c : Client} {cwd : Handle}
  {here : List String}

/-- A client that comes of a fresh volume of so many sectors by calls of a kind, with the shelf to
which they came. -/
structure Arrived (kind : Shelf → List Handle → Call → Prop) (total : Nat) (c : Client)
    (S : Shelf) : Prop where
  comes : Comes kind c
  stores : Stores total c.volume S

/-- One more call that cannot be refused. -/
theorem Arrived.step {post : Shelf → Prop} (h : Arrived kind total c S) (call : Call) (answer : Answer)
    (hkind : kind c.shelf c.handles call)
    (htries : Tries (Stores total) never (call.attempt (n := cacheCapacity)) S
      (fun a S' => a = answer ∧ post S') fun _ _ => False) :
    ∃ c' S', Arrived kind total c' S' ∧ c'.handles = call.handles c.handles (.ok answer) ∧
      call.attempt.run c.volume = .ok (.ok answer) c'.volume ∧ post S' := by
  have hrun : Yields never call.attempt.run c.volume _ := htries c.volume h.stores
  obtain ⟨result, v', hx, S', hv', hpost⟩ := hrun.ok_of_never
  cases result with
  | error why => exact hpost.elim
  | ok a =>
    obtain ⟨rfl, hpost⟩ := hpost
    exact ⟨_, S', ⟨h.comes.call hkind hx, hv'⟩, rfl, hx, hpost⟩

section Steps

variable (h : Arrived kind total c S) (hS : Settled S)
  (hhere : S.tree here = some (cwd.sector, true))

include h hS hhere

theorem Arrived.makes (hkind : kind c.shelf c.handles (.createDirectory path cwd))
    (hplace : S.tree.placeFor here path = .ok (name :: q))
    (hq : S.tree q = some (d, true)) (hbare : S.Bare d) (hroomy : S.Roomy total) :
    ∃ c' S' s, Arrived kind total c' S' ∧ c'.handles = c.handles ∧
      (Call.createDirectory path cwd).attempt.run c.volume = .ok (.ok .done) c'.volume ∧
      Added S (name :: q) .directory d s S' := by
  obtain ⟨c', S', hc', hheld', hrun, hcreated⟩ := h.step (.createDirectory path cwd) .done hkind
    (Tries.andThen (Namespace.createNode_makes hS hhere hplace hq hbare hroomy (by decide))
      (fun _ _ hmade => Tries.pure ⟨rfl, hmade⟩) fun _ _ => False.elim)
  obtain ⟨s, hadded⟩ := hcreated.added hS hq
  exact ⟨c', S', s, hc', hheld', hrun, hadded⟩

theorem Arrived.makesFile {size : Nat} (hkind : kind c.shelf c.handles (.create path size cwd))
    (hplace : S.tree.placeFor here path = .ok (name :: q))
    (hq : S.tree q = some (d, true)) (hbare : S.Bare d) (hroomy : S.Roomy total)
    (hshort : size ≤ sectorSize) :
    ∃ c' S' s, Arrived kind total c' S' ∧ c'.handles = c.handles ∧
      Added S (name :: q) (.file size) d s S' := by
  obtain ⟨c', S', hc', hheld', -, hcreated⟩ := h.step (.create path size cwd) .done hkind
    (Tries.andThen (Namespace.createNode_makes hS hhere hplace hq hbare hroomy hshort)
      (fun _ _ hmade => Tries.pure ⟨rfl, hmade⟩) fun _ _ => False.elim)
  obtain ⟨s, hadded⟩ := hcreated.added hS hq
  exact ⟨c', S', s, hc', hheld', hadded⟩

theorem Arrived.opens (hkind : kind c.shelf c.handles (.openDirectory path cwd))
    (hresolve : S.tree.resolve here path = some q)
    (hq : S.tree q = some (s, true)) :
    ∃ c', Arrived kind total c' (S.opened s) ∧ c'.handles = ⟨s, true, 0⟩ :: c.handles := by
  obtain ⟨c', S', hc', hheld', -, rfl⟩ := h.step (.openDirectory path cwd) (.opened ⟨s, true, 0⟩)
    hkind (Tries.andThen (Namespace.openDirectory_opens hS hhere hresolve hq)
      (fun t S' hopened => Tries.pure ⟨by rw [hopened.1], hopened.2⟩)
      fun _ _ => False.elim)
  exact ⟨c', hc', hheld'⟩

theorem Arrived.opensFile (hkind : kind c.shelf c.handles (.openFile path cwd))
    (hresolve : S.tree.resolve here path = some q) (hq : S.tree q = some (s, false)) :
    ∃ c', Arrived kind total c' (S.opened s) ∧ c'.handles = ⟨s, false, 0⟩ :: c.handles := by
  obtain ⟨c', S', hc', hheld', -, rfl⟩ := h.step (.openFile path cwd) (.opened ⟨s, false, 0⟩)
    hkind (Tries.andThen (Namespace.openFile_opens hS hhere hresolve hq)
      (fun t S' hopened => Tries.pure ⟨by rw [hopened.1], hopened.2⟩)
      fun _ _ => False.elim)
  exact ⟨c', hc', hheld'⟩

theorem Arrived.removes (hkind : kind c.shelf c.handles (.remove path cwd))
    (hplace : S.tree.placeOf here path = .ok p)
    (hp : S.tree p = some (t, true)) (hfree : ¬ S.InUse t)
    (hempty : ∀ m, S.tree (m :: p) = none) :
    ∃ c' S', Arrived kind total c' S' ∧ c'.handles = c.handles ∧ Lost S p t S' := by
  obtain ⟨c', S', hc', hheld', -, hremoved⟩ := h.step (.remove path cwd) .done hkind
    (Tries.andThen (Namespace.remove_removes hS hhere hplace hp hfree hempty)
      (fun _ _ hgone => Tries.pure ⟨rfl, hgone⟩) fun _ _ => False.elim)
  exact ⟨c', S', hc', hheld', hremoved.lost hS hp⟩

omit hS hhere in
theorem Arrived.closes {nd : Node} (handle : Handle)
    (hkind : kind c.shelf c.handles (.close handle)) (hs : handle.sector ∈ S.live)
    (hn : S.node handle.sector = some nd) :
    ∃ c', Arrived kind total c' (S.closed handle.sector) ∧
      c'.handles = c.handles.erase handle := by
  obtain ⟨c', S', hc', hheld', -, rfl⟩ := h.step (.close handle) .done hkind
    (Tries.bind (Tries.always ((Inode.close_stores hs hn).mono fun _ _ hclosed =>
      Tries.pure ⟨rfl, hclosed⟩)))
  exact ⟨c', hc', hheld'⟩

omit hS hhere in
theorem Arrived.overwrites {nd : Node} {file : Handle} {offset : Nat} {bytes : Bytes}
    (hkind : kind c.shelf c.handles (.writeAt file offset bytes)) (hs : file.sector ∈ S.live)
    (hn : S.node file.sector = some nd) (hdenials : nd.denials = 0) (hsome : bytes ≠ [])
    (hwithin : offset + bytes.length ≤ (S.bytes file.sector).length)
    (hend : offset + bytes.length ≤ maxSectors * sectorSize) :
    ∃ c', Arrived kind total c' (S.setBytes file.sector
        (splice (S.bytes file.sector) offset bytes)) ∧ c'.handles = c.handles ∧
      (Call.writeAt file offset bytes).attempt.run c.volume =
        .ok (.ok (.count bytes.length)) c'.volume := by
  obtain ⟨c', S', hc', hheld', hrun, rfl⟩ := h.step (.writeAt file offset bytes)
    (.count bytes.length) hkind (Tries.andThen
      (Namespace.overwrite_tries hs hn hdenials hsome hwithin hend)
      (fun k S' hwritten => Tries.pure ⟨by rw [hwritten.1], hwritten.2⟩) fun _ _ => False.elim)
  exact ⟨c', hc', hheld', hrun⟩

end Steps

/-- The root, as it is handed out. -/
abbrev rootHandle : Handle := ⟨rootSector, true, 0⟩

/-- The root of a fresh volume, opened. -/
theorem exists_arrived_root (hroot : ∀ S held, kind S held .root) (hlimit : total < sectorLimit)
    (hroom : FreeMap.reserved total < total) :
    ∃ c, Arrived kind total c (Shelf.blank.opened rootSector) ∧ c.handles = [rootHandle] := by
  have hsound : (Device.memory (MemoryDisk.blank total)).Sound := trivial
  have hcount : (Device.memory (MemoryDisk.blank total)).blockCount = total :=
    Array.size_replicate
  obtain ⟨v, hmount, hv⟩ : ∃ v, Volume.mount (.memory (MemoryDisk.blank total)) { format := true } =
      .ok (.ok v) ∧ Stores _ v .blank :=
    Volume.mount_eq_ok hsound (by rwa [hcount]) (by rwa [hcount]) rfl
  rw [hcount] at hv
  have hstart : Arrived kind total { volume := v } .blank :=
    ⟨.mount hsound (by rwa [hcount]) rfl hmount, hv⟩
  obtain ⟨c, S, hc, hheld, -, rfl⟩ := hstart.step .root (.opened ⟨rootSector, true, 0⟩)
    (hroot _ _) (Tries.bind (Tries.always ((Inode.open_stores (S := .blank) rfl).mono fun _ _ hopened =>
      Tries.pure ⟨rfl, hopened⟩)))
  exact ⟨c, hc, hheld⟩

/-- Of what is open nothing is removed. -/
theorem stays_root {nd : Node} (hn : (Shelf.blank.opened rootSector).node t = some nd) :
    nd.removed = false := by
  by_cases ht : t = rootSector
  · rw [ht, Shelf.node_opened] at hn
    exact Option.some.inj hn ▸ rfl
  · rw [Shelf.node_opened_of_ne ht] at hn
    cases hn

theorem roomy_root (hlimit : total < sectorLimit)
    (hroom : FreeMap.reserved total + 1 + inodeSectors < total) :
    (Shelf.blank.opened rootSector).Roomy total :=
  ⟨hlimit, [rootSector], fun _ hs => List.mem_singleton.mpr hs, by
    rw [List.length_singleton]
    omega⟩

theorem bare_root : (Shelf.blank.opened rootSector).Bare rootSector := ⟨rootSlots, by decide, rfl⟩

theorem bare_of_file {parent : Sector} (h : S.file d = ⟨parent, List.replicate
    (Namespace.NewNode.directory).length 0⟩) : S.Bare d :=
  ⟨directorySlots, by decide, by rw [Shelf.bytes, h]; rfl⟩

/-- An empty directory below the root. -/
theorem exists_arrived_directory (kind : Shelf → List Handle → Call → Prop)
    (hroot : ∀ S held, kind S held .root)
    (hmake : ∀ S held path cwd, cwd ∈ held → cwd.isDir = true →
      kind S held (.createDirectory path cwd)) (hlimit : total < sectorLimit)
    (hroom : FreeMap.reserved total + 1 + 2 * inodeSectors < total) :
    ∃ c S d, Arrived kind total c S ∧ c.handles = [rootHandle] ∧ S.Roomy total ∧
      Added (Shelf.blank.opened rootSector) ["a"] .directory rootSector d S := by
  obtain ⟨c, hc, hheld⟩ := exists_arrived_root hroot hlimit (by omega)
  have hplace : (Shelf.blank.opened rootSector).tree.placeFor [] "/a" = .ok ["a"] :=
    Tree.placeFor_name (by decide) (by decide) (by decide) (by decide) (d := rootSector) rfl
  obtain ⟨c', S, d, hc', hheld', -, hadded⟩ := hc.makes (settled_blank.open rfl) rfl
    (hmake _ _ _ rootHandle (hheld ▸ List.mem_singleton_self _) rfl) hplace rfl bare_root
    (roomy_root hlimit (by omega))
  refine ⟨c', S, d, hc', hheld'.trans hheld, ⟨hlimit, [d, rootSector], fun s hs => ?_, hroom⟩, hadded⟩
  rw [hadded.live] at hs
  rcases hs with rfl | hs
  · exact List.mem_cons_self
  · exact List.mem_cons_of_mem _ (List.mem_singleton.mpr hs)

/-! ### A client that wrote to a file -/

/-- An allowed call that surely does not end in a fault. -/
def Sure (S : Shelf) (held : List Handle) (call : Call) : Prop := call.Allowed S held ∧ call.Fits S

/-- There is a file of five bytes below the root; it is open, and three bytes were written to it. -/
structure Written (S : Shelf) (s : Sector) : Prop where
  settled : Settled S
  place : S.tree ["f"] = some (s, false)
  bytes : S.bytes s = [1, 2, 3, 0, 0]
  node : S.node s = some { openers := 1 }
  stays : ∀ t nd, S.node t = some nd → nd.removed = false

theorem Written.live (h : Written S s) : s ∈ S.live := h.settled.linked _ _ _ h.place

/-- The file is not the root. -/
theorem Written.ne_root (h : Written S s) : s ≠ rootSector := fun heq => by
  have hp := h.settled.rooted.unique ["f"] [] s false true h.place (by rw [heq]; rfl)
  cases hp

theorem Written.find (h : Written S s) : S.tree.find [] "/f" = some (s, false) := by
  have hresolve : S.tree.resolve [] "/f" = some ["f"] :=
    Tree.resolve_name (by decide) (by decide) (by decide) (by decide) (by decide) rfl h.place
  rw [Tree.find, hresolve]
  exact h.place

theorem Written.parent (h : Written S s) : (S.file s).parent = rootSector :=
  h.settled.rooted.parent ["f"] s false rootSector true h.place rfl

/-- It is there for everyone to see. -/
theorem Written.like (h : Written S s) (hl : S.Like S') : Written S' s := by
  obtain ⟨hsettled, htree⟩ := h.settled.like hl
  refine ⟨hsettled, by rw [htree]; exact h.place, ?_, by rw [← hl.node]; exact h.node, ?_⟩
  · rw [Shelf.bytes, ← hl.file s h.live]
    exact h.bytes
  · rw [← hl.node]
    exact h.stays

theorem Written.of_added
    (ha : Added (Shelf.blank.opened rootSector) ["f"] (.file 5) rootSector s S) :
    Written ((S.opened s).setBytes s [1, 2, 3, 0, 0]) s := by
  have hs : s ∈ S.live := ha.live ▸ .inl rfl
  have hnode : (S.opened s).node s = some { openers := 1 } := by
    rw [Shelf.node_opened, Shelf.seen, ha.node, Shelf.node_opened_of_ne ha.fresh]
    rfl
  obtain ⟨hsettled, htree⟩ := (ha.settled.open hs).setBytes (s := s) [1, 2, 3, 0, 0] fun p hp => by
    obtain rfl := ha.settled.rooted.unique p _ s true _ hp ha.place
    cases hp.symm.trans ha.place
  refine ⟨hsettled, by rw [htree]; exact ha.place, congrArg File.bytes (Shelf.file_setBytes_self ..),
    hnode, fun t nd hn => ?_⟩
  by_cases ht : t = s
  · rw [ht] at hn
    exact Option.some.inj (hnode.symm.trans hn) ▸ rfl
  · have hn' : (S.opened s).node t = some nd := hn
    rw [Shelf.node_opened_of_ne ht, ha.node] at hn'
    exact stays_root hn'

/-- The file is made and opened. -/
theorem exists_arrived_file : ∃ c S s, Arrived Sure 65536 c (S.opened s) ∧
    c.handles = [⟨s, false, 0⟩, rootHandle] ∧
    Added (Shelf.blank.opened rootSector) ["f"] (.file 5) rootSector s S := by
  obtain ⟨c, hc, hheld⟩ : ∃ c, Arrived Sure 65536 c _ ∧ c.handles = [rootHandle] :=
    exists_arrived_root (fun _ _ => ⟨trivial, trivial⟩) (by decide) (by decide)
  have hsettled : Settled (Shelf.blank.opened rootSector) := settled_blank.open rfl
  have hcreate : Sure c.shelf c.handles (.create "/f" 5 rootHandle) :=
    ⟨⟨hheld ▸ List.mem_singleton_self _, rfl, by decide⟩,
      nameFits_blank (hc.stores.like_shelf hsettled) _ _⟩
  have hplace : (Shelf.blank.opened rootSector).tree.placeFor [] "/f" = .ok ["f"] :=
    Tree.placeFor_name (by decide) (by decide) (by decide) (by decide) (d := rootSector) rfl
  obtain ⟨c₁, S, s, hc₁, hheld₁, ha⟩ := hc.makesFile hsettled rfl hcreate hplace rfl bare_root
    (roomy_root (by decide) (by decide)) (by decide)
  rw [hheld] at hheld₁
  have hopen : Sure c₁.shelf c₁.handles (.openFile "/f" rootHandle) :=
    ⟨⟨hheld₁ ▸ List.mem_singleton_self _, rfl⟩, trivial⟩
  have hresolve : S.tree.resolve [] "/f" = some ["f"] :=
    Tree.resolve_name (by decide) (by decide) (by decide) (by decide) (by decide) rfl ha.place
  obtain ⟨c₂, hc₂, hheld₂⟩ := hc₁.opensFile ha.settled rfl hopen hresolve ha.place
  exact ⟨c₂, S, s, hc₂, hheld₁ ▸ hheld₂, ha⟩

/-- And three bytes are written to it. -/
theorem exists_written : ∃ (c : Client) (s : Sector), Comes Sure c ∧
    c.handles = [⟨s, false, 0⟩, rootHandle] ∧ Written c.shelf s := by
  obtain ⟨c, S, s, hc, hheld, ha⟩ := exists_arrived_file
  have hw := Written.of_added ha
  have hbytes : (S.opened s).bytes s = [0, 0, 0, 0, 0] := congrArg File.bytes ha.file
  have hwrite : Sure c.shelf c.handles (.writeAt ⟨s, false, 0⟩ 0 [1, 2, 3]) :=
    ⟨⟨hheld ▸ List.mem_cons_self, rfl, by decide⟩, trivial⟩
  obtain ⟨c', hc', hheld', -⟩ := hc.overwrites hwrite hw.live hw.node rfl (by decide)
    (by rw [hbytes]; decide) (by decide)
  dsimp only at hc'
  rw [hbytes] at hc'
  exact ⟨c', s, hc'.comes, hheld'.trans hheld, hw.like (hc'.stores.like_shelf hw.settled)⟩

theorem Comes.careful (h : Comes Sure c) : Comes Call.Careful c :=
  (h.reached fun _ _ _ hcall => hcall.1).comes

/-- Two more bytes can be written over those. -/
theorem exists_overwriting : ∃ (c : Client) (s : Sector) (volume : Volume cacheCapacity),
    Comes Sure c ∧ Written c.shelf s ∧
    Sure c.shelf c.handles (.writeAt ⟨s, false, 0⟩ 1 [7, 8]) ∧
    (Call.writeAt ⟨s, false, 0⟩ 1 [7, 8]).attempt.run c.volume = .ok (.ok (.count 2)) volume := by
  obtain ⟨c, s, hc, hheld, hw⟩ := exists_written
  have hsure : Sure c.shelf c.handles (.writeAt ⟨s, false, 0⟩ 1 [7, 8]) :=
    ⟨⟨hheld ▸ List.mem_cons_self, rfl, by decide⟩, trivial⟩
  have harrived : Arrived Sure c.volume.map.total c c.shelf := ⟨hc, hc.careful.stands.1⟩
  obtain ⟨c', -, -, hrun⟩ := harrived.overwrites hsure hw.live hw.node rfl (by decide)
    (by rw [hw.bytes]; decide) (by decide)
  exact ⟨c, s, c'.volume, hc, hw, hsure, hrun⟩

/-! ### Clients that do not count what they hold -/

theorem exists_arrived_naming : ∃ c S d, Arrived (fun _ => Call.Naming) 65536 c S ∧
    c.handles = [rootHandle] ∧ S.Roomy 65536 ∧
      Added (Shelf.blank.opened rootSector) ["a"] .directory rootSector d S :=
  exists_arrived_directory (fun _ => Call.Naming) (fun _ _ => trivial)
    (fun _ _ _ _ hmem hdir => ⟨hmem, hdir⟩) (by decide) (by decide)

/-- An empty directory is opened, and then removed all the same. -/
theorem Arrived.removes_opened (h : Arrived (fun _ => Call.Naming) total c S)
    (hheld : c.handles = [rootHandle]) (hS : Settled S)
    (hresolve : S.tree.resolve [] path = some p) (hplace : S.tree.placeOf [] path = .ok p)
    (hp : S.tree p = some (t, true)) (hbare : S.Bare t) (hclosed : S.node t = none) :
    ∃ c' S', Arrived (fun _ => Call.Naming) total c' S' ∧
      c'.handles = [⟨t, true, 0⟩, rootHandle] ∧ Lost (S.opened t) p t S' := by
  have hopen : Call.Naming c.handles (.openDirectory path rootHandle) :=
    hheld ▸ ⟨List.mem_singleton_self _, rfl⟩
  obtain ⟨c₁, hc₁, hheld₁⟩ := h.opens hS rfl hopen hresolve hp
  rw [hheld] at hheld₁
  have hremove : Call.Naming c₁.handles (.remove path rootHandle) :=
    hheld₁ ▸ ⟨List.mem_cons_of_mem _ (List.mem_singleton_self _), rfl⟩
  obtain ⟨c₂, S₂, hc₂, hheld₂, hlost⟩ := hc₁.removes (hS.open (hS.linked p t true hp)) rfl hremove
    hplace hp (Shelf.not_inUse_of_opened hclosed) (hbare.tree_eq_none hp)
  exact ⟨c₂, S₂, hc₂, hheld₂.trans hheld₁, hlost⟩

end Client
end TieredVolume
