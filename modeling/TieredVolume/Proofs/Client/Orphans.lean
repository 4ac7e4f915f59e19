import TieredVolume.Proofs.Client.Course
import TieredVolume.Proofs.Client.Ownership

/-!
Orphans: inodes that no path leads to any more, and that nobody has open. A careful client makes
none, since what it creates gets a place below the root. A client that keeps a directory open without
saying so can create something in it after it was removed; a client that writes bytes over a
directory can lose what had a name there.
-/
namespace TieredVolume

open Attempt

/-- What is in use on a volume is the map's or can be reached from the root. -/
def Volume.NoOrphans {n : Nat} (v : Volume n) : Prop := ∀ t, v.view.used t = true ↔
  IsMap v.view.total t ∨ ∃ p s b, treeOf v.view.file p = some (s, b) ∧ t ∈ v.view.tree s

namespace Client

variable {c : Client} {cwd : Handle} {new : Namespace.NewNode} {S : Shelf} {total : Nat}
  {d s t : Sector} {nd : Node}

/-- The directory in which a careful client creates something is not removed. -/
theorem Comes.parent_stays (h : Comes Call.Careful c) (hheld : cwd ∈ c.handles)
    (hdir : cwd.isDir = true) (path : String) :
    ∃ answer after, (Namespace.openParent path cwd.sector).run c.volume = .ok answer after ∧
      ∀ d, answer = .ok d → ∃ nd, after.view.node d = some nd ∧ nd.removed = false := by
  obtain ⟨hv, hS⟩ := h.stands
  obtain ⟨p, hp⟩ := hS.directory cwd hheld hdir
  have hrun : Yields never (Namespace.openParent path cwd.sector).run c.volume _ :=
    Namespace.openParent_tries hS.toSettled hp c.volume hv
  obtain ⟨answer, after, hrun, S', hv', hpost⟩ := hrun.ok_of_never
  refine ⟨answer, after, hrun, ?_⟩
  rintro d rfl
  obtain ⟨q, -, hq, rfl⟩ := hpost
  refine ⟨c.shelf.seen d, ?_, ?_⟩
  · rw [hv'.keeps_view.2.node, Shelf.node_opened]
  · rw [Shelf.seen]
    cases hn : c.shelf.node d with
    | none => rfl
    | some nd => exact hS.standing q d true nd hq hn

/-- What a careful client creates gets a place below the root. -/
theorem Comes.creation_placed (h : Comes Call.Careful c) (hheld : cwd ∈ c.handles)
    (hdir : cwd.isDir = true) {path : String} {after : Volume cacheCapacity}
    (hrun : (Namespace.createNode path cwd.sector new).run c.volume = .ok (.ok ()) after) :
    ∃ p s, treeOf c.volume.view.file p = none ∧ treeOf after.view.file p = some (s, new.isDir) := by
  obtain ⟨hv, hS⟩ := h.stands
  obtain ⟨p, hp⟩ := hS.directory cwd hheld hdir
  have hyields : Yields (fun _ => True) (Namespace.createNode path cwd.sector new).run c.volume _ :=
    Namespace.createNode_tries hS.toSettled hp (.inr fun _ => trivial)
      (fun _ _ _ _ _ _ => .inr trivial) c.volume hv
  obtain ⟨S', hv', p', -, hcreated⟩ := hyields.of_ok hrun
  obtain ⟨hsettled, s, -, -, htree⟩ := hcreated.settled hS.toSettled
  have hafter : treeOf after.view.file = S'.tree := (hsettled.like (hv'.like_shelf hsettled)).2
  obtain ⟨-, -, -, -, -, -, -, hnone, -⟩ := hcreated
  refine ⟨p', s, hnone, ?_⟩
  rw [hafter, htree]
  exact Function.update_self ..

/-- Once a careful client has closed all it held, what is in use can be reached from the root. -/
theorem Comes.reachable_of_closed (h : Comes Call.Careful c) (hclosed : c.handles = []) :
    c.volume.NoOrphans := by
  intro t
  obtain ⟨hv, hS⟩ := h.stands
  rw [hv.used_iff rfl]
  refine or_congr_right ⟨fun ⟨s, hs, ht⟩ => ?_, fun ⟨p, s, b, hp, ht⟩ =>
    ⟨s, hS.linked p s b hp, ht⟩⟩
  rcases hS.held s hs with ⟨p, b, hp⟩ | ⟨nd, hn, -⟩
  · exact ⟨p, s, b, hp, ht⟩
  · have hopen := hS.counted s nd hn
    rw [← Shelf.openers_of_node hn, hS.openers, hclosed] at hopen
    cases hopen

/-- A careful client leaves no orphans: it creates nothing in a removed directory, and nothing that
has no place. -/
theorem Comes.no_orphans (h : Comes Call.Careful c) :
    (∀ cwd ∈ c.handles, cwd.isDir = true → ∀ path,
      (∃ answer after, (Namespace.openParent path cwd.sector).run c.volume = .ok answer after ∧
        ∀ d, answer = .ok d → ∃ nd, after.view.node d = some nd ∧ nd.removed = false) ∧
      ∀ (new : Namespace.NewNode) after,
        (Namespace.createNode path cwd.sector new).run c.volume = .ok (.ok ()) after →
        ∃ p s, treeOf c.volume.view.file p = none ∧
          treeOf after.view.file p = some (s, new.isDir)) ∧
    (c.handles = [] → c.volume.NoOrphans) :=
  ⟨fun _ hheld hdir path => ⟨h.parent_stays hheld hdir path, fun _ _ hrun =>
    h.creation_placed hheld hdir hrun⟩, h.reachable_of_closed⟩

/-! ### Without the count -/

/-- An inode that has no place, while what has one is there. -/
structure Unplaced (S : Shelf) (s : Sector) : Prop where
  live : s ∈ S.live
  unnamed : ∀ p b, S.tree p ≠ some (s, b)
  linked : ∀ p t b, S.tree p = some (t, b) → t ∈ S.live

/-- An inode without a place is not reached from the root. -/
theorem Unplaced.orphan {n : Nat} {v : Volume n} (h : Unplaced S t) (hv : Stores total v S) :
    ¬ v.NoOrphans := by
  have hw := hv.keeps_view.2
  have hstored := hw.forest.header_stored h.live
  have htree : treeOf v.view.file = S.tree := treeOf_congr fun p d hp => by
    rw [hw.file d (h.linked p d true hp)]
  intro hreach
  rcases (hreach t).mp hstored.1 with hmap | ⟨p, s, b, hp, hin⟩
  · exact hstored.2 hmap
  · rw [htree] at hp
    obtain ⟨q, hq⟩ := View.mem_tree.mp hin
    have hsame := (hw.forest.unique s (h.linked p s b hp) t h.live q none t hq rfl).1
    exact h.unnamed p b (hsame ▸ hp)

/-- An empty directory that was removed while it was open. -/
structure Adrift (S : Shelf) (d : Sector) : Prop where
  settled : Settled S
  roomy : S.Roomy 65536
  bare : S.Bare d
  removed : ∃ nd, S.node d = some nd ∧ nd.removed = true ∧ nd.denials = 0
  root : ∃ nd, S.node rootSector = some nd

/-- The client that made a directory, opened it, and removed it. -/
theorem exists_arrived_adrift : ∃ c S d, Arrived (fun _ => Call.Naming) 65536 c S ∧
    c.handles = [⟨d, true, 0⟩, rootHandle] ∧ Adrift S d := by
  obtain ⟨c, S, d, hc, hheld, hroomy, hadded⟩ := exists_arrived_naming
  have hne : d ≠ rootSector := hadded.fresh
  have hclosed : S.node d = none := by
    rw [hadded.node, Shelf.node_opened_of_ne hne]
    rfl
  have hresolve : S.tree.resolve [] "/a" = some ["a"] :=
    Tree.resolve_name (by decide) (by decide) (by decide) (by decide) (by decide) rfl hadded.place
  have hplace : S.tree.placeOf [] "/a" = .ok ["a"] :=
    Tree.placeOf_name (by decide) (d := rootSector) rfl
  have hbare : S.Bare d := bare_of_file hadded.file
  obtain ⟨c', S', hc', hheld', hlost⟩ := hc.removes_opened hheld hadded.settled hresolve hplace
    hadded.place hbare hclosed
  refine ⟨c', S', d, hc', hheld', hlost.settled, ?_, ?_, ?_, ?_⟩
  · refine hroomy.mono fun s hs => ?_
    rw [hlost.live] at hs
    exact (Shelf.mem_live_removed.mp hs).1
  · obtain ⟨count, hpos, hbytes⟩ := hbare
    refine ⟨count, hpos, (hlost.bytes d fun hroot => ?_).trans hbytes⟩
    exact hne (congrArg Prod.fst (Option.some.inj hroot)).symm
  · rw [hlost.node, Shelf.node_removed, Shelf.node_opened, Shelf.seen, hclosed]
    exact ⟨_, rfl, rfl, rfl⟩
  · rw [hlost.node, Shelf.node_removed_of_ne (Ne.symm hne), Shelf.node_opened_of_ne (Ne.symm hne),
      hadded.node, Shelf.node_opened]
    exact ⟨_, rfl⟩

namespace Adrift

variable (h : Adrift S d)

include h

theorem live : d ∈ S.live := by
  obtain ⟨nd, hn, -⟩ := h.removed
  exact h.settled.opened d nd hn

theorem ne_of_place {p : List String} {b : Bool} (hp : S.tree p = some (s, b)) : s ≠ d := by
  rintro rfl
  obtain ⟨nd, hn, hremoved, -⟩ := h.removed
  rw [h.settled.standing p s b nd hp hn] at hremoved
  cases hremoved

/-- Nothing keeps a client from creating something in it. -/
theorem creates_tries {n : Nat} :
    Tries (Stores 65536) never (Namespace.createNode (n := n) "f" d (.file 0)) S
      (fun _ S' => ∃ s bytes, s ∉ S.live ∧ S' = (S.plant s ⟨d, []⟩).setBytes d bytes)
      fun _ _ => False := by
  obtain ⟨nd, hn, -, hdenials⟩ := h.removed
  have hseen : (S.seen d).denials = 0 := by
    rw [Shelf.seen, hn]
    exact hdenials
  exact Namespace.createNode_makes_here h.settled.counted h.settled.opened h.settled.spare h.live
    hseen h.bare h.roomy (Nat.zero_le _) (show Path.parentFile "f" = some ("", "f") by decide)
    (by decide) (by decide) (by decide)

/-- The new inode has no place, and stays when all is closed. -/
theorem unplaced {bytes : Bytes} (hs : s ∉ S.live) :
    Unplaced ((((S.plant s ⟨d, []⟩).setBytes d bytes).closed d).closed rootSector) s := by
  obtain ⟨P, hP⟩ : ∃ P, P = (S.plant s ⟨d, []⟩).setBytes d bytes := ⟨_, rfl⟩
  rw [← hP]
  have hnode : P.node = S.node := hP ▸ rfl
  have htree : ((P.closed d).closed rootSector).tree = S.tree := by
    rw [Shelf.tree, Shelf.file_closed, Shelf.file_closed]
    refine treeOf_congr fun p t ht => ?_
    have hts : t ≠ s := fun heq => hs (heq ▸ h.settled.linked p t true ht)
    rw [hP, Shelf.file_setBytes_of_ne (h.ne_of_place ht)]
    exact congrArg File.bytes (Function.update_of_ne hts ..)
  have hkept : ∀ t ∈ P.live, t ≠ d → (∀ nd, S.node t = some nd → nd.removed = false) →
      t ∈ ((P.closed d).closed rootSector).live := fun t ht hne hstays => by
    refine Shelf.mem_live_closed (Shelf.mem_live_closed ht ?_ d) ?_ rootSector
    · rw [hnode]
      exact hstays
    · rw [Shelf.node_closed_of_ne hne, hnode]
      exact hstays
  refine ⟨hkept s (hP ▸ .inl rfl) (fun heq => hs (heq ▸ h.live)) fun nd hn => ?_,
    fun p b hp => ?_, fun p t b hp => ?_⟩
  · exact absurd (h.settled.opened s nd hn) hs
  · rw [htree] at hp
    exact hs (h.settled.linked p s b hp)
  · rw [htree] at hp
    exact hkept t (hP ▸ .inr (h.settled.linked p t b hp)) (h.ne_of_place hp) fun nd hn =>
      h.settled.standing p t b nd hp hn

/-- The directory is found, marked as removed, and the creation in it is not refused. -/
theorem creates {n : Nat} {v : Volume n} (hv : Stores 65536 v S) :
    ∃ parent nd after, (Namespace.openParent "" d).run v = .ok (.ok d) parent ∧
      parent.view.node d = some nd ∧ nd.removed = true ∧
      (Namespace.createNode "f" d (.file 0)).run v = .ok (.ok ()) after := by
  obtain ⟨nd, hn, hremoved, -⟩ := h.removed
  have hopen : Yields never (Namespace.openParent "" d).run v _ :=
    Namespace.openParent_here h.live v hv
  obtain ⟨found, parent, hparent, S', hv', hfound⟩ := hopen.ok_of_never
  have hcreate : Yields never (Namespace.createNode "f" d (.file 0)).run v _ := h.creates_tries v hv
  obtain ⟨answer, after, hrun, S'', -, hanswer⟩ := hcreate.ok_of_never
  cases found with
  | error why => exact hfound.elim
  | ok d' =>
    cases answer with
    | error why => exact hanswer.elim
    | ok _ =>
      obtain ⟨rfl, rfl⟩ := hfound
      refine ⟨parent, S.seen d', after, hparent, ?_, ?_, hrun⟩
      · rw [hv'.keeps_view.2.node, Shelf.node_opened]
      · rw [Shelf.seen, hn]
        exact hremoved

end Adrift

/-- The client that then created a file in it and closed all it held. -/
theorem exists_arrived_orphan : ∃ c S s, Arrived (fun _ => Call.Naming) 65536 c S ∧
    c.handles = [] ∧ Unplaced S s := by
  obtain ⟨c, S, d, hc, hheld, h⟩ := exists_arrived_adrift
  obtain ⟨nd, hn, -⟩ := h.removed
  obtain ⟨rt, hrt⟩ := h.root
  have hroot := h.settled.linked [] rootSector true rfl
  have hne := h.ne_of_place (p := []) (b := true) rfl
  have hcreate : Call.Naming c.handles (.create "f" 0 ⟨d, true, 0⟩) :=
    hheld ▸ ⟨List.mem_cons_self, rfl⟩
  obtain ⟨c₁, S₁, hc₁, hheld₁, -, s, bytes, hs, rfl⟩ := hc.step _ .done hcreate
    (Tries.andThen h.creates_tries (fun _ _ hmade => Tries.pure ⟨rfl, hmade⟩)
      fun _ _ => False.elim)
  have hheld₁ : c₁.handles = [⟨d, true, 0⟩, rootHandle] := hheld₁.trans hheld
  have hlive : ∀ t ∈ S.live, t ∈ ((S.plant s ⟨d, []⟩).setBytes d bytes).live := fun t ht => .inr ht
  have hclose : Call.Naming c₁.handles (.close ⟨d, true, 0⟩) := hheld₁ ▸ List.mem_cons_self
  obtain ⟨c₂, hc₂, hheld₂⟩ := hc₁.closes _ hclose (hlive d h.live) hn
  rw [hheld₁, List.erase_cons_head] at hheld₂
  have hclose₂ : Call.Naming c₂.handles (.close rootHandle) := hheld₂ ▸ List.mem_cons_self
  obtain ⟨c₃, hc₃, hheld₃⟩ := hc₂.closes _ hclose₂ (Shelf.mem_live_closed (hlive _ hroot)
    (fun nd hn => h.settled.standing [] _ true nd rfl hn) d)
    ((Shelf.node_closed_of_ne hne).trans hrt)
  rw [hheld₂, List.erase_cons_head] at hheld₃
  exact ⟨c₃, _, s, hc₃, hheld₃, h.unplaced hs⟩

/-! ### Without regard to what a handle is of -/

/-- Zeros are written all over what is in an inode. -/
def wiped (S : Shelf) (s : Sector) : Shelf :=
  S.setBytes s (List.replicate (S.bytes s).length 0)

/-- It is as long as before, so there is room for them. -/
theorem wipe_tries {n : Nat} {faults : Fault → Prop} (hs : s ∈ S.live) (hn : S.node s = some nd)
    (hdenials : nd.denials = 0) (hsome : S.bytes s ≠ [])
    (hend : (S.bytes s).length ≤ maxSectors * sectorSize) :
    Tries (Stores total) faults
      (Inode.writeAt (n := n) s 0 (List.replicate (S.bytes s).length 0)) S
      (fun k S' => k = (S.bytes s).length ∧ S' = wiped S s) fun _ _ => False := by
  have hzeros : List.replicate (S.bytes s).length (0 : UInt8) ≠ [] := by
    rwa [ne_eq, List.replicate_eq_nil_iff, List.length_eq_zero_iff]
  have hwhole : 0 + (List.replicate (S.bytes s).length (0 : UInt8)).length = (S.bytes s).length := by
    rw [List.length_replicate, Nat.zero_add]
  have hover : splice (S.bytes s) 0 (List.replicate (S.bytes s).length 0) =
      List.replicate (S.bytes s).length 0 := by
    simp [splice]
  refine (Namespace.overwrite_tries hs hn hdenials hzeros (Nat.le_of_eq hwhole)
    (by rwa [hwhole])).mono (fun k S' hk => ?_) fun _ _ => id
  rw [List.length_replicate, hover] at hk
  exact hk

theorem heedless_of_held {call : Call} {handle : Handle} {held : List Handle}
    (hhandle : call.handle? = some handle) (hmem : handle ∈ held)
    (hkeeps : ∀ path cwd, call ≠ .remove path cwd) : call.Heedless S held := by
  refine ⟨fun h hh => ?_, fun path cwd heq => absurd heq (hkeeps path cwd)⟩
  rw [hhandle] at hh
  exact Option.some.inj hh ▸ hmem

/-- Once the root is wiped, what had its name there has no place, and stays when all is closed. -/
theorem unplaced_wiped (h : Added (Shelf.blank.opened rootSector) ["a"] new rootSector d S) :
    Unplaced ((wiped S rootSector).closed rootSector) d := by
  have hnode : ∀ t nd, (wiped S rootSector).node t = some nd → nd.removed = false :=
    fun t nd hn => stays_root ((congrFun h.node t).symm.trans hn)
  have hlive : ∀ t ∈ S.live, t ∈ ((wiped S rootSector).closed rootSector).live := fun t ht =>
    Shelf.mem_live_closed (S := wiped S rootSector) ht (hnode t) rootSector
  have hempty : ∀ name, findSlot
      (slotsOf (((wiped S rootSector).closed rootSector).file rootSector).bytes) name = none :=
    fun name => by
      obtain ⟨count, hcount⟩ := h.settled.rooted.whole [] rootSector rfl
      have hlength : (S.bytes rootSector).length = entrySize * count := hcount
      rw [Shelf.file_closed, wiped, Shelf.file_setBytes_self, hlength, Nat.mul_comm, slotsOf_zeros]
      exact (orderly_empty count).2 name
  refine ⟨hlive d (h.settled.linked _ _ _ h.place), fun p b hp => ?_, fun p t b hp => ?_⟩
  · exact h.fresh (congrArg Prod.fst (eq_root_of_treeOf hempty hp).2)
  · rw [show t = rootSector from congrArg Prod.fst (eq_root_of_treeOf hempty hp).2]
    exact hlive rootSector (h.settled.linked [] rootSector true rfl)

/-- The client that made a directory, wrote zeros over the root, and closed it. -/
theorem exists_arrived_wiped : ∃ c S s, Arrived Call.Heedless 65536 c S ∧ c.handles = [] ∧
    Unplaced S s := by
  obtain ⟨c, S, d, hc, hheld, -, hadded⟩ := exists_arrived_directory Call.Heedless
    (fun _ _ => ⟨fun _ h => (by cases h), fun _ _ h => (by cases h)⟩)
    (fun _ _ _ _ hmem _ => heedless_of_held rfl hmem fun _ _ h => by cases h)
    (show 65536 < sectorLimit by decide) (by decide)
  have hroot : rootSector ∈ S.live := hadded.settled.linked [] rootSector true rfl
  have hn : S.node rootSector = some (Shelf.blank.seen rootSector) := by
    rw [hadded.node, Shelf.node_opened]
  have hsize : (S.bytes rootSector).length ≤ maxSectors * sectorSize := by
    have hw := hc.stores.keeps_view.2
    rw [hw.length_eq hroot]
    exact (hw.sized rootSector hroot).limit
  have hsome : S.bytes rootSector ≠ [] := fun hnil => by
    have hplace := hadded.place
    have hfind : S.tree ["a"] = findSlot (S.slots rootSector) "a" := treeOf_cons rfl
    rw [hfind, Shelf.slots, hnil] at hplace
    cases hplace
  obtain ⟨c₁, S₁, hc₁, hheld₁, -, rfl⟩ := hc.step (.writeAt rootHandle 0 _) (.count _)
    (heedless_of_held rfl (hheld ▸ List.mem_cons_self) fun _ _ h => by cases h)
    (Tries.andThen (wipe_tries hroot hn rfl hsome hsize)
      (fun k _ hwrote => Tries.pure ⟨congrArg Answer.count hwrote.1, hwrote.2⟩)
      fun _ _ => False.elim)
  have hheld₁ : c₁.handles = [rootHandle] := hheld₁.trans hheld
  obtain ⟨c₂, hc₂, hheld₂⟩ := hc₁.closes rootHandle
    (heedless_of_held rfl (hheld₁ ▸ List.mem_cons_self) fun _ _ h => by cases h) hroot hn
  rw [hheld₁, List.erase_cons_head] at hheld₂
  exact ⟨c₂, _, d, hc₂, hheld₂, unplaced_wiped hadded⟩

/-- Without the count something can be created in a directory that is marked as removed, and stay
allocated when all is closed; so can what had its name in a directory that was written over. -/
theorem not_no_orphans_uncounted :
    (¬ ∀ c, Comes (fun _ => Call.Naming) c → ∀ cwd ∈ c.handles, cwd.isDir = true →
      ∀ path dir name new d parent answer after, Path.parentFile path = some (dir, name) →
        (Namespace.openParent dir cwd.sector).run c.volume = .ok (.ok d) parent →
        (∃ nd, parent.view.node d = some nd ∧ nd.removed = true) →
        (Namespace.createNode path cwd.sector new).run c.volume = .ok answer after →
        ∃ why, answer = .error why) ∧
    (¬ ∀ c, Comes (fun _ => Call.Naming) c → c.handles = [] → c.volume.NoOrphans) ∧
    ¬ ∀ c, Comes Call.Heedless c → c.handles = [] → c.volume.NoOrphans := by
  refine ⟨fun hall => ?_, fun hall => ?_, fun hall => ?_⟩
  · obtain ⟨c, S, d, hc, hheld, h⟩ := exists_arrived_adrift
    obtain ⟨parent, nd, after, hparent, hnode, hremoved, hrun⟩ := h.creates hc.stores
    obtain ⟨why, hanswer⟩ := hall c hc.comes ⟨d, true, 0⟩ (hheld ▸ List.mem_cons_self) rfl
      "f" "" "f" _ _ _ _ _ (by decide) hparent ⟨nd, hnode, hremoved⟩ hrun
    cases hanswer
  · obtain ⟨c, S, s, hc, hheld, hs⟩ := exists_arrived_orphan
    exact hs.orphan hc.stores (hall c hc.comes hheld)
  · obtain ⟨c, S, s, hc, hheld, hs⟩ := exists_arrived_wiped
    exact hs.orphan hc.stores (hall c hc.comes hheld)

end Client
end TieredVolume
