import TieredVolume.Proofs.Namespace.Change

/-!
Creating and removing by path. Which place a path names, and what is refused because of the tree
alone, is told by functions of the tree; the operations answer as these say, or find no space.
-/
namespace TieredVolume

variable {total : Nat} {S S' : Shelf} {p q c : List String} {s d cwd : Sector} {b : Bool}
  {nd : Node} {name path : String} {new : Namespace.NewNode} {faults : Fault → Prop} {n : Nat}

namespace Tree

variable (t : Tree)

/-- The place of a last name in the directory to which `dir` leads. -/
def placeIn (c : List String) (dir name : String) : Except Refusal (List String) :=
  match t.resolveParent c dir with
  | none => .error .notFound
  | some q =>
    match t q with
    | some (_, true) => .ok (name :: q)
    | _ => .error .notADirectory

/-- The place that a path names for a new node. -/
def placeFor (c : List String) (path : String) : Except Refusal (List String) :=
  match Path.parentFile path with
  | none => .error .invalidName
  | some (dir, name) =>
    if !isValidName name || name = "." || name = ".." then .error .invalidName
    else t.placeIn c dir name

/-- The place that a path names for removal. The root has none. -/
def placeOf (c : List String) (path : String) : Except Refusal (List String) :=
  match Path.parentFile path with
  | none => .error (if Path.isAbsolute path then .busy else .notFound)
  | some (dir, name) => t.placeIn c dir name

open Classical in
/-- The place from which a path removes what lies there, which is a file or a directory that is
empty and not in use, or why it removes nothing. -/
noncomputable def removal (inUse : Sector → Prop) (c : List String) (path : String) :
    Except Refusal (List String) :=
  match t.placeOf c path with
  | .error why => .error why
  | .ok p =>
    match t p with
    | none => .error .notFound
    | some (_, false) => .ok p
    | some (s, true) =>
      if inUse s then .error .busy
      else if ∃ name, t (name :: p) ≠ none then .error .directoryNotEmpty
      else .ok p

variable {t} {dir : String} {why : Refusal}

theorem placeIn_directory (name : String) (hparent : t.resolveParent c dir = some q)
    (hq : t q = some (d, true)) :
    t.placeIn c dir name = .ok (name :: q) := by
  simp only [placeIn, hparent, hq]

theorem placeIn_eq_ok (h : t.placeIn c dir name = .ok p) :
    ∃ q d, p = name :: q ∧ t q = some (d, true) := by
  unfold placeIn at h
  split at h
  · cases h
  · split at h
    · rename_i hq
      exact ⟨_, _, (Except.ok.inj h).symm, hq⟩
    · cases h

theorem exists_name_of_placeOf (h : t.placeOf c path = .ok p) : ∃ name q, p = name :: q := by
  unfold placeOf at h
  split at h
  · cases h
  · obtain ⟨q, -, hp, -⟩ := placeIn_eq_ok h
    exact ⟨_, q, hp⟩

/-- A new node gets a name in a directory. -/
theorem exists_directory_of_placeFor (h : t.placeFor c path = .ok p) :
    ∃ name q d, p = name :: q ∧ t q = some (d, true) := by
  unfold placeFor at h
  split at h
  · cases h
  · split at h
    · cases h
    · exact ⟨_, placeIn_eq_ok h⟩

theorem placeOf_of_removal {inUse : Sector → Prop} (h : t.removal inUse c path = .ok p) :
    t.placeOf c path = .ok p := by
  unfold removal at h
  split at h
  · cases h
  · rename_i q hq
    have hqp : q = p := by
      split at h
      · cases h
      · exact Except.ok.inj h
      · split at h
        · cases h
        · split at h
          · cases h
          · exact Except.ok.inj h
    exact hqp ▸ hq

theorem placeIn_refused (hwhy : why = .notFound ∧ t.resolveParent c dir = none ∨
    why = .notADirectory ∧ ∃ q s, t.resolveParent c dir = some q ∧ t q = some (s, false)) :
    t.placeIn c dir name = .error why := by
  rcases hwhy with ⟨rfl, hnone⟩ | ⟨rfl, q, s, hparent, hq⟩
  · simp only [placeIn, hnone]
  · simp only [placeIn, hparent, hq]

end Tree

/-- Like shelves stand for the same volumes. -/
theorem Stores.like {v : Volume n} (hv : Stores total v S) (hl : S.Like S') : Stores total v S' := by
  obtain ⟨w, hvw, hw⟩ := hv
  exact ⟨w, hvw, hw.like hl⟩

theorem does_like {x : VolumeM n Unit} {A B : Shelf}
    (h : Does (Stores total) faults x S fun _ S' => S' = A) (hl : A.Like B) :
    Does (Stores total) faults x S fun _ S' => S' = B := fun v hv =>
  (h v hv).mono fun _ _ ⟨_, hv', hA⟩ => ⟨B, (hA ▸ hv').like hl, rfl⟩

/-- Without a new inode the shelf is as it was. -/
theorem like_drop {f : File} (hs : s ∉ S.live) (hspare : s ∉ S.spare) (hn : S.node s = none) :
    ((S.plant s f).drop s).Like S where
  live := Set.insert_sdiff_self_of_notMem hs
  spare := Set.sdiff_singleton_eq_self hspare
  node := by
    change Function.update S.node s none = S.node
    rw [← hn, Function.update_eq_self]
  file := fun h hh => Function.update_of_ne hh.2 ..

/-- Who may write to a directory may still do so after opening it. -/
theorem Settled.denials_seen (hS : Settled S) (hq : S.tree q = some (d, true)) :
    (S.seen d).denials = 0 := by
  unfold Shelf.seen
  cases hn : S.node d with
  | none => rfl
  | some nd => exact hS.writable q d nd hq hn

/-- A directory that names can be put into, as far as its bytes and its node go. -/
structure Shelf.Listed (S : Shelf) (d : Sector) : Prop where
  live : d ∈ S.live
  whole : entrySize ∣ (S.bytes d).length
  orderly : Orderly (S.slots d)
  writable : (S.seen d).denials = 0

theorem Settled.listed (hS : Settled S) (hq : S.tree q = some (d, true)) : S.Listed d :=
  ⟨hS.linked q d true hq, hS.rooted.whole q d hq, hS.rooted.orderly q d hq, hS.denials_seen hq⟩

theorem Shelf.bytes_plant {f : File} (hne : d ≠ s) : (S.plant s f).bytes d = S.bytes d := by
  simp only [Shelf.bytes, Shelf.plant, Function.update_of_ne hne]

/-- A new inode leaves the directories what they are. -/
theorem Shelf.Listed.plant {f : File} (hd : S.Listed d) (hs : s ∉ S.live) : (S.plant s f).Listed d := by
  have hbytes : (S.plant s f).bytes d = S.bytes d := bytes_plant fun heq => hs (heq ▸ hd.live)
  refine ⟨.inr hd.live, ?_, ?_, hd.writable⟩
  · rw [hbytes]
    exact hd.whole
  · rw [Shelf.slots, hbytes]
    exact hd.orderly

/-- Either the volume has no free sector, be it that one is set aside or none, or the directory has
no free slot. -/
def Shelf.Cramped (total : Nat) (S : Shelf) (d : Sector) : Prop :=
  (∃ s spare, spare ⊆ {s} ∧ Crowded total S.live spare) ∨ ∀ e ∈ S.slots d, e.isInUse = true

namespace Namespace

open Volume Attempt

/-! ### Creating -/

theorem make_tries (hs : s ∈ S.spare)
    (hend : new.length ≤ maxSectors * sectorSize ∨ ∀ e, faults e) :
    Tries (Stores total) faults (new.make (n := n) s d) S
      (fun _ S' => S' = S.plant s ⟨d, List.replicate new.length 0⟩)
      (fun why S' => why = .noSpace ∧ (new.length ≤ sectorSize → Crowded total S.live S.spare) ∧
        S' = S) := by
  have hword := hend.imp lt_offsetLimit (· .overflow)
  have hend' := hend.imp_right (· (.pastIndex maxSectors))
  cases new with
  | file size => exact Inode.create_stores hs hword hend'
  | directory => exact Directory.create_tries hs hword hend'

/-- The inode of a new node is made in the sector that was set aside for it, or the sector is given
back. -/
theorem makeIn_tries (hfresh : s ∉ S.spare) (hspare : S.spare = ∅)
    (hend : new.length ≤ maxSectors * sectorSize ∨ ∀ e, faults e) :
    Tries (Stores total) faults (onRefusal (new.make (n := n) s d) (release s 1))
      { S.opened d with spare := insert s (S.opened d).spare }
      (fun _ S' => S' = (S.plant s ⟨d, List.replicate new.length 0⟩).opened d)
      (fun why S' => S' = S.opened d ∧ why = .noSpace ∧
        (new.length ≤ sectorSize → S.Cramped total d)) := by
  refine Tries.onRefusal ((make_tries (S := { S.opened d with spare := _ }) (.inl rfl)
    hend).mono ?_ ?_)
  · rintro - S₁ rfl
    simp only [Shelf.plant, Shelf.opened, Shelf.setNode, Set.insert_sdiff_self_of_notMem hfresh,
      Set.sdiff_singleton_eq_self hfresh]
  · rintro why S₁ ⟨rfl, hcrowded, rfl⟩
    refine (Inode.release_stores (S := { S.opened d with spare := _ }) (.inl rfl)).mono ?_
    rintro - S' rfl
    have hfresh' : s ∉ (S.opened d).spare := hfresh
    refine ⟨by simp only [Set.insert_sdiff_self_of_notMem hfresh'], rfl,
      fun hshort => .inl ⟨s, _, ?_, hcrowded hshort⟩⟩
    rw [show (S.opened d).spare = S.spare from rfl, hspare]
    exact Set.insert_subset rfl (Set.empty_subset _)

/-- A new inode that found no place is gone again. -/
theorem discard_does (hc : S.Counted) (hs : s ∈ S.live) (hn : S.node s = none) :
    Does (Stores total) faults (discard (n := n) s) S fun _ S' => S' = S.drop s := by
  refine Does.andThen (Inode.open_stores hs) ?_
  rintro - S₁ rfl
  refine Does.andThen (Inode.updateNode_stores (S := S.opened s) hs (S.node_opened s)
    fun hbare => hbare) ?_
  rintro - S₁ rfl
  refine (Inode.close_stores (S := (S.opened s).setNode s _) hs (Function.update_self ..)).mono ?_
  rintro - S₁ rfl
  have hremoved := Shelf.closed_removed (s := s) hc
  rwa [Shelf.removed, hn] at hremoved

section CreateIn

variable (hc : S.Counted) (hopened : ∀ s nd, S.node s = some nd → s ∈ S.live)
  (hd : S.Listed d) (hname : isValidName name = true) (hdot : name ≠ ".") (hdots : name ≠ "..")
  (hroom : findSlot (S.slots d) name = none →
    HasRoom (S.bytes d) ∨ faults (.pastIndex maxSectors))

include hc hopened hd hname hdot hdots hroom

/-- The name of a new inode is added, or the inode is given up. -/
theorem addNew_tries (hs : s ∉ S.live) (hspare : s ∉ S.spare) :
    Tries (Stores total) faults
      (onRefusal (Directory.add (n := n) d name s (new = .directory)) (discard s))
      ((S.plant s ⟨d, List.replicate new.length 0⟩).opened d)
      (fun _ S' => findSlot (S.slots d) name = none ∧ ∃ bytes,
        Joined (S.bytes d) bytes name (s, new.isDir) ∧
        S' = ((S.plant s ⟨d, List.replicate new.length 0⟩).setBytes d bytes).opened d)
      (fun why S' => S' = S.opened d ∧
        (why = .alreadyExists ∧ findSlot (S.slots d) name ≠ none ∨
          why = .noSpace ∧ ∀ e ∈ S.slots d, e.isInUse = true)) := by
  have hds : d ≠ s := fun heq => hs (heq ▸ hd.live)
  have hn : S.node s = none := by
    cases hn : S.node s with
    | none => rfl
    | some nd => exact absurd (hopened s nd hn) hs
  obtain ⟨P, hP⟩ : ∃ P, P = S.plant s ⟨d, List.replicate new.length 0⟩ := ⟨_, rfl⟩
  rw [← hP]
  have hbytes : (P.opened d).bytes d = S.bytes d := hP ▸ Shelf.bytes_plant hds
  have hslots : (P.opened d).slots d = S.slots d := by rw [Shelf.slots, Shelf.slots, hbytes]
  have hdP : P.Listed d := hP ▸ hd.plant hs
  have hsP : s ∈ P.live := by
    rw [hP]
    exact .inl rfl
  have hnP : P.node = S.node := by
    rw [hP]
    rfl
  have hcP : P.Counted := fun h nd hn => hc h nd (hnP ▸ hn)
  refine Tries.onRefusal ((Directory.add_tries (S := P.opened d) hdP.live (P.node_opened d)
    hdP.writable hdP.whole hdP.orderly hdot hdots (by rw [hslots, hbytes]; exact hroom)).mono ?_ ?_)
  · rintro - S₁ ⟨-, hnone, bytes, hlist, rfl⟩
    have hdir : decide (new = NewNode.directory) = new.isDir := by cases new <;> rfl
    rw [hbytes, hdir] at hlist
    exact ⟨hslots ▸ hnone, bytes, hlist, rfl⟩
  · rintro why S₁ ⟨rfl, hwhy⟩
    have hopened : (P.opened d).node s = none := by
      rw [Shelf.node_opened_of_ne (Ne.symm hds), hnP, hn]
    have hlike : ((P.opened d).drop s).Like (S.opened d) := by
      have hsame : P.opened d = (S.opened d).plant s ⟨d, List.replicate new.length 0⟩ := by
        rw [hP]
        rfl
      rw [hsame]
      exact like_drop hs hspare ((Shelf.node_opened_of_ne (Ne.symm hds)).trans hn)
    refine (does_like (discard_does (S := P.opened d) (hcP.opened d) hsP hopened) hlike).mono ?_
    rintro - S' rfl
    refine ⟨rfl, ?_⟩
    rw [hslots] at hwhy
    rcases hwhy with ⟨-, hbad⟩ | hsome | ⟨rfl, -, hfull⟩
    · rw [hname] at hbad
      cases hbad
    · exact .inl hsome
    · exact .inr ⟨rfl, hfull⟩

/-- A new inode gets a name in a directory, or nothing is changed. -/
theorem createIn_tries (hspare : S.spare = ∅)
    (hend : new.length ≤ maxSectors * sectorSize ∨ ∀ e, faults e) :
    Tries (Stores total) faults (createIn (n := n) d name new) (S.opened d)
      (fun _ S' => findSlot (S.slots d) name = none ∧ ∃ s bytes, s ∉ S.live ∧
        Joined (S.bytes d) bytes name (s, new.isDir) ∧
        S' = ((S.plant s ⟨d, List.replicate new.length 0⟩).setBytes d bytes).opened d)
      (fun why S' => S' = S.opened d ∧
        (why = .alreadyExists ∧ findSlot (S.slots d) name ≠ none ∨
          why = .noSpace ∧ (new.length ≤ sectorSize → S.Cramped total d))) := by
  unfold createIn
  refine Tries.andThen Inode.allocate_stores ?_ ?_
  · rintro s S₁ ⟨hfresh, hlive, rfl⟩
    refine Tries.andThen (makeIn_tries hfresh hspare hend) ?_ ?_
    · rintro - S₁ rfl
      refine (addNew_tries hc hopened hd hname hdot hdots hroom hlive hfresh).mono ?_ ?_
      · rintro - S₁ ⟨hnone, bytes, hlist, rfl⟩
        exact ⟨hnone, s, bytes, hlive, hlist, rfl⟩
      · rintro why S₁ ⟨rfl, hwhy⟩
        exact ⟨rfl, hwhy.imp_right fun hwhy => ⟨hwhy.1, fun _ => .inr hwhy.2⟩⟩
    · rintro why S₁ ⟨rfl, hwhy⟩
      exact ⟨rfl, .inr hwhy⟩
  · rintro why S₁ ⟨rfl, hcrowded, rfl⟩
    refine ⟨rfl, .inr ⟨rfl, fun _ => .inl ⟨d, ∅, Set.empty_subset _, ?_⟩⟩⟩
    rwa [show (S.opened d).spare = S.spare from rfl, hspare] at hcrowded

end CreateIn

/-- Creating adds one leaf to the tree. Refused, it changes nothing. -/
theorem createNode_tries (hS : Settled S) (hc : S.tree c = some (cwd, true))
    (hend : new.length ≤ maxSectors * sectorSize ∨ ∀ e, faults e)
    (hroom : ∀ name q d, S.tree.placeFor c path = .ok (name :: q) → S.tree q = some (d, true) →
      S.tree (name :: q) = none → HasRoom (S.bytes d) ∨ faults (.pastIndex maxSectors)) :
    Tries (Stores total) faults (createNode (n := n) path cwd new) S
      (fun _ S' => ∃ p, S.tree.placeFor c path = .ok p ∧ Created S p new S')
      (fun why S' => S' = S ∧ (S.tree.placeFor c path = .error why ∨
        ∃ name q d, S.tree.placeFor c path = .ok (name :: q) ∧ S.tree q = some (d, true) ∧
          (why = .alreadyExists ∧ S.tree (name :: q) ≠ none ∨
            why = .noSpace ∧ (new.length ≤ sectorSize → S.Cramped total d)))) := by
  unfold createNode
  unfold Tree.placeFor at hroom ⊢
  cases hsplit : Path.parentFile path with
  | none => exact Tries.refuse ⟨rfl, .inl rfl⟩
  | some split =>
    obtain ⟨dir, name⟩ := split
    rw [hsplit] at hroom
    dsimp only at hroom ⊢
    by_cases hbad : (!isValidName name || decide (name = ".") || decide (name = "..")) = true
    · simp only [if_pos hbad]
      exact Tries.bind (Tries.refuse ⟨rfl, .inl rfl⟩)
    · simp only [if_neg hbad] at hroom ⊢
      have hgood := hbad
      simp only [Bool.or_eq_true, Bool.not_eq_true', decide_eq_true_eq, not_or,
        Bool.not_eq_false] at hgood
      obtain ⟨⟨hname, hdot⟩, hdots⟩ := hgood
      refine Tries.andThen (openParent_tries hS hc) ?_ ?_
      · rintro d S₁ ⟨q, hparent, hq, rfl⟩
        have hplace := Tree.placeIn_directory name hparent hq
        have hd := hS.listed hq
        have hfind : S.tree (name :: q) = findSlot (S.slots d) name := treeOf_cons hq
        have hroom := hroom name q d hplace hq
        rw [hfind] at hroom
        refine Tries.thenAlways ((createIn_tries hS.counted hS.opened hd hname hdot hdots hroom
          hS.spare hend).mono ?_ ?_)
        · rintro - - ⟨hnone, s, bytes, hs, hlist, rfl⟩
          have hcreated : Created S (name :: q) new
              ((S.plant s ⟨d, List.replicate new.length 0⟩).setBytes d bytes) :=
            ⟨name, q, d, s, bytes, rfl, hq, hfind.trans hnone, hs, hlist, rfl⟩
          refine (close_does (hcreated.settled hS).1 (.inr hd.live)).mono ?_
          rintro - S' rfl
          exact ⟨name :: q, hplace, hcreated⟩
        · rintro why - ⟨rfl, hwhy⟩
          rw [← hfind] at hwhy
          exact (close_does hS hd.live).mono fun _ S' hS' =>
            ⟨hS', .inr ⟨name, q, d, hplace, hq, hwhy⟩⟩
      · rintro why S₁ ⟨rfl, hwhy⟩
        exact ⟨rfl, .inl (Tree.placeIn_refused hwhy)⟩

/-! ### Removing -/

theorem inUse_iff : S.InUse s ↔ 0 < (S.seen s).descriptors ∨ 0 < (S.seen s).cwdUsers := by
  unfold Shelf.seen Shelf.InUse
  cases S.node s <;> simp

theorem refuseInUse_eq_ok {e : Entry} :
    refuseInUse e (S.seen s) = .ok () ↔ (e.isDir = true → ¬ S.InUse s) := by
  rw [refuseInUse, inUse_iff]
  split <;> simp_all

theorem refuseInUse_eq_error {e : Entry} {why : Refusal} :
    refuseInUse e (S.seen s) = .error why ↔ e.isDir = true ∧ S.InUse s ∧ why = .busy := by
  rw [refuseInUse, inUse_iff]
  split
  · rename_i hbusy
    simp only [Bool.and_eq_true, Bool.or_eq_true, decide_eq_true_eq] at hbusy
    exact ⟨fun h => ⟨hbusy.1, hbusy.2, (Except.error.inj h).symm⟩, fun h => h.2.2 ▸ rfl⟩
  · rename_i hfree
    simp only [Bool.and_eq_true, Bool.or_eq_true, decide_eq_true_eq] at hfree
    exact ⟨nofun, fun h => absurd ⟨h.1, h.2.1⟩ hfree⟩

/-- Removing takes one leaf out of the tree. Refused, it changes nothing. -/
theorem remove_tries (hS : Settled S) (hc : S.tree c = some (cwd, true)) :
    Tries (Stores total) faults (remove (n := n) path cwd) S
      (fun _ S' => ∃ p, S.tree.placeOf c path = .ok p ∧ Removed S p S')
      (fun why S' => S' = S ∧ (S.tree.placeOf c path = .error why ∨
        ∃ p, S.tree.placeOf c path = .ok p ∧ (why = .notFound ∧ S.tree p = none ∨
          ∃ t, S.tree p = some (t, true) ∧ (why = .busy ∧ S.InUse t ∨
            why = .directoryNotEmpty ∧ ¬ S.InUse t ∧ ∃ m, S.tree (m :: p) ≠ none)))) := by
  unfold remove Tree.placeOf
  cases hsplit : Path.parentFile path with
  | none => exact Tries.refuse ⟨rfl, .inl rfl⟩
  | some split =>
    obtain ⟨dir, name⟩ := split
    dsimp only
    refine Tries.andThen (openParent_tries hS hc) ?_ ?_
    · rintro d S₁ ⟨q, hparent, hq, rfl⟩
      have hplace := Tree.placeIn_directory name hparent hq
      have hd := hS.linked q d true hq
      have hchild : S.tree (name :: q) = findSlot (S.slots d) name := treeOf_cons hq
      -- nothing else has the place of the directory
      have hne : ∀ t b, S.tree (name :: q) = some (t, b) → d ≠ t := fun t b ht heq => by
        have hpq := hS.rooted.unique q (name :: q) d true b hq (heq ▸ ht)
        exact List.cons_ne_self name q hpq.symm
      refine Tries.thenAlways ((Directory.removeIf_tries (S := S.opened d) hd (S.node_opened d)
        (hS.denials_seen hq) (hS.rooted.whole q d hq) (hS.rooted.orderly q d hq)
        (hS.counted.opened d) fun t b ht => ?_).mono ?_ ?_)
      · have ht' : S.tree (name :: q) = some (t, b) := hchild.trans ht
        exact ⟨hS.linked _ t b ht', hne t b ht'⟩
      · rintro - S₁ ⟨e, hfind, ⟨hok, hempty⟩, bytes, hlist, rfl⟩
        have ht : S.tree (name :: q) = some (e.sector, e.isDir) := hchild.trans hfind
        have hdt := hne _ _ ht
        rw [Shelf.seen_opened_of_ne hdt, refuseInUse_eq_ok] at hok
        have hremoved : Removed S (name :: q) ((S.setBytes d bytes).removed e.sector) := by
          refine ⟨name, q, d, e.sector, e.isDir, bytes, rfl, hq, ht, fun hdir => ⟨hok hdir,
            fun m => ?_⟩, hlist, rfl⟩
          rw [hdir] at ht
          exact (treeOf_cons ht).trans (hempty hdir m)
        have hopened : ((S.opened d).setBytes d bytes).removed e.sector =
            ((S.setBytes d bytes).removed e.sector).opened d :=
          Shelf.removed_opened (S := S.setBytes d bytes) hdt
        rw [hopened]
        refine (close_does (hremoved.settled hS).1
          (Shelf.mem_live_removed.mpr ⟨hd, fun heq => absurd heq hdt⟩)).mono ?_
        rintro - S' rfl
        exact ⟨name :: q, hplace, hremoved⟩
      · rintro why S₁ ⟨rfl, hwhy⟩
        refine (close_does hS hd).mono fun _ S' hS' => ⟨hS', .inr ⟨name :: q, hplace, ?_⟩⟩
        rcases hwhy with ⟨rfl, hnone⟩ | ⟨e, hfind, hwhy⟩
        · exact .inl ⟨rfl, hchild.trans hnone⟩
        · have ht : S.tree (name :: q) = some (e.sector, e.isDir) := hchild.trans hfind
          rw [Shelf.MustStay, Shelf.seen_opened_of_ne (hne _ _ ht), refuseInUse_eq_ok,
            refuseInUse_eq_error] at hwhy
          rcases hwhy with ⟨hdir, huse, rfl⟩ | ⟨hfree, hdir, rfl, m, hm⟩
          · exact .inr ⟨e.sector, hdir ▸ ht, .inl ⟨rfl, huse⟩⟩
          · rw [hdir] at ht
            refine .inr ⟨e.sector, ht, .inr ⟨rfl, hfree hdir, m, ?_⟩⟩
            have hbelow : S.tree (m :: name :: q) = findSlot (S.slots e.sector) m := treeOf_cons ht
            rw [hbelow]
            exact hm
    · rintro why S₁ ⟨rfl, hwhy⟩
      exact ⟨rfl, .inl (Tree.placeIn_refused hwhy)⟩

end Namespace
end TieredVolume
