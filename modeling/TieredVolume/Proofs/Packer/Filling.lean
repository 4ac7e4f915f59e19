import TieredVolume.Packer.Image
import TieredVolume.Proofs.Client.Course
import TieredVolume.Proofs.Namespace.Listing
import TieredVolume.Proofs.Namespace.Path
import TieredVolume.Proofs.Spending

/-!
Filling a volume. Between two files the volume has those copied so far in its directory `/bin`, and
nothing else. The next one takes its footprint, and what the directory grows by for its name.
-/
namespace TieredVolume
namespace Packer

open Volume Attempt

variable {n total cost : Nat} {S S' : Shelf} {bin s : Sector} {files rest : List (String × Bytes)}
  {name : String} {contents : Bytes} {faults : Fault → Prop}

/-- Names that a file of the host can have, and that fit a slot of a directory. -/
def Proper (name : String) : Prop := isValidName name = true ∧ name ≠ "." ∧ name ≠ ".."

/-- Files that can be copied, if there are sectors enough: no two have the same name, none is longer
than a file can be, and there are no more than a directory has slots. -/
structure Packable (files : List (String × Bytes)) : Prop where
  distinct : (files.map Prod.fst).Nodup
  proper : ∀ file ∈ files, Proper file.1
  short : ∀ file ∈ files, file.2.length ≤ maxSectors * sectorSize
  few : files.length ≤ maxSectors * 16

/-- The length of the directory with so many names. -/
def dirLength (count : Nat) : Nat := max directorySlots count * entrySize

/-- The directory `bin` has these files, and there is nothing else. -/
structure Packed (S : Shelf) (bin : Sector) (files : List (String × Bytes)) : Prop where
  settled : Settled S
  root : ∀ name, S.tree [name] = if name = "bin" then some (bin, true) else none
  absent : ∀ name, name ∉ files.map Prod.fst → S.tree [name, "bin"] = none
  present : ∀ file ∈ files, ∃ s, S.tree [file.1, "bin"] = some (s, false) ∧ S.bytes s = file.2
  rootLength : (S.bytes rootSector).length = rootSlots * entrySize
  used : (S.slots bin).countP (·.isInUse) = files.length
  slots : (S.slots bin).length = max directorySlots files.length

/-- There was no space for what was to be done next. All that is open is open as before. -/
structure Stopped (S : Shelf) (why : Refusal) (S' : Shelf) : Prop where
  why : why = .noSpace
  settled : Settled S'
  node : S'.node = S.node

/-! ### Paths -/

section

variable (hname : Proper name)

include hname

theorem Proper.slash_notMem : '/' ∉ name.toList := fun hin => by
  have hvalid := hname.1
  simp only [isValidName, Bool.and_eq_true, List.all_eq_true, decide_eq_true_eq] at hvalid
  exact (hvalid.2 '/' hin).1 rfl

theorem Proper.ne_empty : name ≠ "" := fun heq => by
  have hvalid := hname.1
  simp [isValidName, heq] at hvalid

theorem parentFile_targetPath : Path.parentFile (targetPath name) = some (targetDir, name) :=
  Path.parentFile_join hname.slash_notMem hname.ne_empty (by decide)

theorem components_targetPath : Path.components (targetPath name) = ["bin", name] :=
  Path.components_join hname.slash_notMem hname.ne_empty

end

theorem isAbsolute_targetPath : Path.isAbsolute (targetPath name) = true :=
  Path.isAbsolute_join (by decide)

namespace Packed

variable (h : Packed S bin files)

include h

theorem tree_bin : S.tree ["bin"] = some (bin, true) := (h.root "bin").trans (if_pos rfl)

theorem resolve_bin : S.tree.resolve [] targetDir = some ["bin"] :=
  Tree.resolve_name (d := rootSector) (by decide) (by decide) (by decide) (by decide) (by decide) rfl
    h.tree_bin

/-- The path of a file leads to its place. -/
theorem resolve_targetPath (hname : Proper name) (hs : S.tree [name, "bin"] ≠ none) :
    S.tree.resolve [] (targetPath name) = some [name, "bin"] := by
  obtain ⟨x, hx⟩ := Option.ne_none_iff_exists'.mp hs
  have hne : targetPath name ≠ "" := fun heq => by
    have habsolute : Path.isAbsolute (targetPath name) = true := isAbsolute_targetPath
    rw [heq] at habsolute
    cases habsolute
  rw [Tree.resolve_absolute hne isAbsolute_targetPath, components_targetPath hname,
    Tree.walk_into (d := rootSector) (by decide) (by decide) rfl h.tree_bin,
    Tree.walk_into hname.2.1 hname.2.2 h.tree_bin hx, Tree.walk]

theorem placeFor_targetPath (hname : Proper name) :
    S.tree.placeFor [] (targetPath name) = .ok [name, "bin"] :=
  Tree.placeFor_eq_ok (parentFile_targetPath hname) hname.1 hname.2.1 hname.2.2
    (by rw [Tree.resolveParent, if_neg (by decide), h.resolve_bin]) h.tree_bin

theorem length_bin : (S.bytes bin).length = dirLength files.length := by
  have hwhole : entrySize ∣ (S.bytes bin).length :=
    h.settled.rooted.whole ["bin"] bin h.tree_bin
  have hslots := h.slots
  rw [Shelf.slots, length_slotsOf] at hslots
  rw [dirLength, ← hslots, Nat.div_mul_cancel hwhole]

/-- What the directory grows by for the next name. -/
theorem entryCost_bin : S.entryCost bin =
    treeSize (dirLength (files.length + 1)) - treeSize (dirLength files.length) := by
  rw [Shelf.entryCost, h.length_bin, lengthWithOne, h.used, h.slots, dirLength]
  congr 3
  omega

/-- There is room for the name of one more file, as far as the length of a directory goes. -/
theorem hasRoom_bin (hfew : files.length < maxSectors * 16) :
    HasRoom (S.bytes bin) := by
  right
  rw [h.length_bin, dirLength]
  simp only [entrySize, maxSectors, sectorSize, directorySlots] at hfew ⊢
  omega

theorem absent_iff : S.tree [name, "bin"] = none ↔ name ∉ files.map Prod.fst := by
  refine ⟨fun hnone hin => ?_, h.absent name⟩
  obtain ⟨file, hfile, rfl⟩ := List.mem_map.mp hin
  obtain ⟨s, hs, -⟩ := h.present file hfile
  rw [hnone] at hs
  cases hs

end Packed

/-! ### One file -/

section

variable (h : Packed S bin files) (hname : Proper name) (hnew : name ∉ files.map Prod.fst)
  (hfew : files.length < maxSectors * 16)

include h hname hnew hfew

theorem create_tries : Tries (Stores total) faults
    (Namespace.create (n := n) (targetPath name) 0 rootSector) S
    (fun _ S' => ∃ s, Added S [name, "bin"] (.file 0) bin s S') (Stopped S) := by
  refine (Namespace.createNode_at (c := []) h.settled rfl (h.placeFor_targetPath hname) h.tree_bin
    (.inl (Nat.zero_le _)) (h.hasRoom_bin hfew)).mono ?_ ?_
  · rintro - S' hcreated
    exact hcreated.added h.settled h.tree_bin
  · rintro why S' ⟨rfl, ⟨-, hsome⟩ | ⟨hwhy, -⟩⟩
    · exact absurd (h.absent name hnew) hsome
    · exact ⟨hwhy, h.settled, rfl⟩

end

/-- After a file was created, its contents are written. -/
theorem Packed.next (h : Packed S bin files) (hnew : name ∉ files.map Prod.fst)
    (ha : Added S [name, "bin"] (.file 0) bin s S') (contents : Bytes) :
    Packed (S'.setBytes s contents) bin (files ++ [(name, contents)]) := by
  have hunique := h.settled.rooted.unique
  have hold : ∀ p t b, S.tree p = some (t, b) → t ≠ s := fun p t b hp heq =>
    ha.fresh (heq ▸ h.settled.linked p t b hp)
  obtain ⟨hsettled, htree⟩ := ha.settled.setBytes contents fun p hp => by
    obtain rfl := ha.settled.rooted.unique p _ s true _ hp ha.place
    cases hp.symm.trans ha.place
  have hother : ∀ p, p ≠ [name, "bin"] → (S'.setBytes s contents).tree p = S.tree p := fun p hp => by
    rw [htree, ha.tree, Tree.set, Function.update_of_ne hp]
  have hbytes : ∀ t, t ≠ bin → t ≠ s → (S'.setBytes s contents).bytes t = S.bytes t :=
    fun t hbin hs => by
      rw [Shelf.bytes, Shelf.file_setBytes_of_ne hs, ha.others t hbin hs, Shelf.bytes]
  have hbin : (S'.setBytes s contents).bytes bin = S'.bytes bin := by
    rw [Shelf.bytes, Shelf.file_setBytes_of_ne (hold _ bin true h.tree_bin), Shelf.bytes]
  have hjoined := ha.joined name ["bin"] rfl
  have hused : (slotsOf (S.bytes bin)).countP (·.isInUse) = files.length := h.used
  have hslots : (slotsOf (S.bytes bin)).length = max directorySlots files.length := h.slots
  refine ⟨hsettled, fun nm => ?_, fun nm hnm => ?_, fun file hfile => ?_, ?_, ?_, ?_⟩
  · rw [hother _ (by simp), h.root]
  · rw [List.map_append, List.mem_append, not_or] at hnm
    rw [hother _ (by simpa using hnm.2), h.absent nm hnm.1]
  · rcases List.mem_append.mp hfile with hfile | hfile
    · obtain ⟨t, ht, hcontents⟩ := h.present file hfile
      have hne : t ≠ bin := fun heq => by
        have hp := hunique _ _ t false true ht (heq ▸ h.tree_bin)
        simp at hp
      refine ⟨t, ?_, (hbytes t hne (hold _ t false ht)).trans hcontents⟩
      rw [hother _ fun heq => ?_, ht]
      rw [heq, h.absent name hnew] at ht
      cases ht
    · obtain rfl := List.mem_singleton.mp hfile
      refine ⟨s, ?_, congrArg File.bytes (Shelf.file_setBytes_self ..)⟩
      rw [htree]
      exact ha.place
  · rw [hbytes rootSector (fun heq => ?_) (hold [] rootSector true rfl), h.rootLength]
    have hp := hunique [] ["bin"] rootSector true true rfl (heq ▸ h.tree_bin)
    cases hp
  · rw [Shelf.slots, hbin, hjoined.used, hused, List.length_append, List.length_singleton]
  · rw [Shelf.slots, hbin, hjoined.length, hslots, hused, List.length_append,
      List.length_singleton]
    omega

section

variable (h : Packed S bin files) (hname : Proper name) (hnew : name ∉ files.map Prod.fst)
  (ha : Added S [name, "bin"] (.file 0) bin s S')

include h hnew ha

/-- The file that was created is empty. -/
theorem Packed.empty : Packed S' bin (files ++ [(name, [])]) := by
  have hbytes : S'.bytes s = [] := congrArg File.bytes ha.file
  have hnext := h.next hnew ha []
  rwa [← hbytes, S'.setBytes_self, hbytes] at hnext

include hname

theorem openNew_tries : Tries (Stores total) faults
    (Namespace.openFile (n := n) (targetPath name) rootSector) S'
    (fun a S₁ => a = s ∧ S₁ = S'.opened s) fun _ _ => False :=
  have hplace : S'.tree [name, "bin"] ≠ none := by
    rw [ha.place]
    nofun
  Namespace.openFile_opens (c := []) ha.settled rfl
    ((h.empty hnew ha).resolve_targetPath hname hplace) ha.place

omit hname

/-- Its contents are written, be they empty or not. -/
theorem writeNew_tries (hshort : contents.length ≤ maxSectors * sectorSize) :
    Tries (Stores total) faults
      (thenAlways (Inode.writeAt (n := n) s 0 contents) (Inode.close s)) (S'.opened s)
      (fun _ S₁ => S₁ = S'.setBytes s contents) (Stopped S') := by
  have hlive : s ∈ S'.live := ha.live ▸ .inl rfl
  have hbytes : S'.bytes s = [] := congrArg File.bytes ha.file
  have hclosed : S.node s = none := Option.eq_none_iff_forall_ne_some.mpr fun nd hn =>
    ha.fresh (h.settled.opened s nd hn)
  have hallowed : ¬ 0 < (S'.seen s).denials := by
    rw [Shelf.seen, ha.node, hclosed]
    decide
  have hnext := (h.next hnew ha contents).settled
  have hend : 0 + contents.length ≤ maxSectors * sectorSize := by omega
  refine Tries.thenAlways ((Inode.writeAt_tries (S := S'.opened s) hlive (S'.node_opened s)
    (.inl (Nat.lt_of_le_of_lt hend (by decide))) (.inl hend)).mono ?_ ?_)
  · intro k S₁ hk
    obtain rfl : S₁ = (S'.setBytes s contents).opened s := by
      by_cases hempty : contents = []
      · rw [if_pos (.inl hempty)] at hk
        rw [hk.2, hempty, ← hbytes, S'.setBytes_self]
      · rw [if_neg (not_or.mpr ⟨hempty, hallowed⟩)] at hk
        have hsplice : splice ((S'.opened s).bytes s) 0 contents = contents := by
          rw [show (S'.opened s).bytes s = S'.bytes s from rfl, hbytes]
          simp [splice]
        rw [hk.2, hsplice]
        rfl
    exact Namespace.close_does hnext hlive
  · rintro why S₁ ⟨rfl, -, -, rfl⟩
    refine (Namespace.close_does ha.settled hlive).mono ?_
    rintro - S₁ rfl
    exact ⟨rfl, ha.settled, rfl⟩

end

/-- A file is copied, or there is no space for it or its contents. -/
theorem addFile_tries (h : Packed S bin files) (hname : Proper name)
    (hnew : name ∉ files.map Prod.fst) (hfew : files.length < maxSectors * 16)
    (hshort : contents.length ≤ maxSectors * sectorSize) :
    Tries (Stores total) faults (addFile (n := n) name contents) S
      (fun _ S' => Packed S' bin (files ++ [(name, contents)]) ∧ S'.node = S.node)
      (Stopped S) := by
  refine Tries.andThen (create_tries h hname hnew hfew) ?_ fun _ _ => id
  rintro - S' ⟨s, ha⟩
  refine Tries.andThen (openNew_tries h hname hnew ha) ?_ fun _ _ => False.elim
  rintro a S₁ ⟨rfl, rfl⟩
  refine Tries.andThen (writeNew_tries h hnew ha hshort) ?_ fun _ _ hstopped =>
    ⟨hstopped.why, hstopped.settled, hstopped.node.trans ha.node⟩
  rintro k S₁ rfl
  exact Tries.pure ⟨h.next hnew ha contents, ha.node⟩

/-- It takes its footprint and what the directory grows by. -/
theorem addFile_spends (h : Packed S bin files) (hname : Proper name)
    (hnew : name ∉ files.map Prod.fst) (hfew : files.length < maxSectors * 16) :
    Spends (Stores total) (addFile (n := n) name contents) S
      (footprint contents.length +
        (treeSize (dirLength (files.length + 1)) - treeSize (dirLength files.length))) := by
  rw [← h.entryCost_bin]
  have hcreate : Spends (Stores total) (Namespace.create (n := n) (targetPath name) 0 rootSector) S
      (footprint 0 + S.entryCost bin) :=
    Namespace.createNode_spends (p := []) h.settled rfl (h.placeFor_targetPath hname) h.tree_bin
  have hwrite : ∀ S', (∃ s, Added S [name, "bin"] (.file 0) bin s S') →
      Spends (Stores total) (do
        let s ← Namespace.openFile (n := n) (targetPath name) rootSector
        let _ ← thenAlways (Inode.writeAt s 0 contents) (Inode.close s)) S'
        (treeSize contents.length - 1) := by
    rintro S' ⟨s, ha⟩
    have hbytes : (S'.opened s).bytes s = [] := congrArg File.bytes ha.file
    refine Spends.after (Namespace.openFile_frugal _ _) (openNew_tries h hname hnew ha) ?_
    rintro a S₁ ⟨rfl, rfl⟩
    refine Spends.before (Spends.thenAlways ?_ (Inode.close_frugal a)) fun _ =>
      Attempt.Frugal.pure _
    have hcost : Spends (Stores total) (Inode.writeAt (n := n) a 0 contents) (S'.opened a) _ :=
      Inode.writeAt_spends (ha.live ▸ .inl rfl) (S'.node_opened a)
    rwa [hbytes, List.length_nil, treeSize_zero, Nat.zero_add] at hcost
  refine Spends.mono (Spends.andThen hcreate (create_tries h hname hnew hfew) fun _ => hwrite) ?_
  have hpos := one_le_treeSize contents.length
  rw [footprint, footprint, treeSize_zero]
  omega

/-! ### All files -/

/-- The files with their sectors. -/
def filesSize (files : List (String × Bytes)) : Nat :=
  (files.map fun file => footprint file.2.length).sum

theorem Packable.next (h : Packable (files ++ (name, contents) :: rest)) : Proper name ∧
    name ∉ files.map Prod.fst ∧ files.length < maxSectors * 16 ∧
    contents.length ≤ maxSectors * sectorSize := by
  have hmem : (name, contents) ∈ files ++ (name, contents) :: rest :=
    List.mem_append_right _ List.mem_cons_self
  have hdistinct := h.distinct
  have hfew := h.few
  rw [List.map_append, List.map_cons] at hdistinct
  rw [List.length_append, List.length_cons] at hfew
  refine ⟨h.proper _ hmem, fun hin => ?_, by omega, h.short _ hmem⟩
  exact (List.nodup_append.mp hdistinct).2.2 name hin name List.mem_cons_self rfl

theorem addFiles_tries (h : Packed S bin files) (hall : Packable (files ++ rest)) :
    Tries (Stores total) faults (addFiles (n := n) rest) S
      (fun _ S' => Packed S' bin (files ++ rest) ∧ S'.node = S.node) (Stopped S) := by
  induction rest generalizing S files with
  | nil =>
    rw [List.append_nil]
    exact Tries.pure ⟨h, rfl⟩
  | cons file rest ih =>
    obtain ⟨hname, hnew, hfew, hshort⟩ := hall.next
    refine Tries.andThen (addFile_tries h hname hnew hfew hshort) ?_ fun _ _ => id
    rintro - S₁ ⟨h₁, hnode⟩
    rw [List.append_cons] at hall ⊢
    refine (ih h₁ hall).mono (fun _ S' hdone => ⟨hdone.1, hdone.2.trans hnode⟩) ?_
    exact fun _ S' hstopped => ⟨hstopped.why, hstopped.settled, hstopped.node.trans hnode⟩

theorem addFiles_spends (h : Packed S bin files) (hall : Packable (files ++ rest)) :
    Spends (Stores total) (addFiles (n := n) rest) S (filesSize rest +
      (treeSize (dirLength (files.length + rest.length)) - treeSize (dirLength files.length))) := by
  induction rest generalizing S files with
  | nil => exact Spends.frugal (Attempt.Frugal.pure ())
  | cons file rest ih =>
    obtain ⟨hname, hnew, hfew, hshort⟩ := hall.next
    refine Spends.mono (Spends.andThen (addFile_spends h hname hnew hfew)
      (addFile_tries h hname hnew hfew hshort) fun _ S' h' => ih h'.1 ?_) ?_
    · rwa [← List.append_cons]
    · have hmono : ∀ a b, a ≤ b → treeSize (dirLength a) ≤ treeSize (dirLength b) := fun a b hab =>
        treeSize_mono (Nat.mul_le_mul_right _ (by omega))
      have hfirst := hmono files.length (files.length + 1) (Nat.le_succ _)
      have hrest := hmono (files.length + 1) (files.length + (rest.length + 1)) (by omega)
      simp only [filesSize, List.map_cons, List.sum_cons, List.length_append, List.length_cons,
        List.length_nil, Nat.zero_add]
      rw [show files.length + 1 + rest.length = files.length + (rest.length + 1) by omega]
      omega

/-! ### What everything takes -/

/-- How many blocks a volume with these files has at least: the free map, the root, the directory
and the files. -/
def demand (blocks : Nat) (files : List (String × Bytes)) : Nat :=
  mapSectors blocks + footprint (rootSlots * entrySize) + footprint (dirLength files.length) +
    filesSize files

/-- Whatever order the files are in. -/
theorem demand_perm {files' : List (String × Bytes)} (h : files'.Perm files) (blocks : Nat) :
    demand blocks files' = demand blocks files := by
  rw [demand, demand, filesSize, filesSize, h.length_eq, (h.map _).sum_nat]

/-- The header of the file with a name. -/
def headerIn (S : Shelf) (name : String) : Sector :=
  ((S.tree [name, "bin"]).map Prod.fst).getD rootSector

section

variable (h : Packed S bin files)

include h

theorem Packed.tree_header {file : String × Bytes} (hfile : file ∈ files) :
    S.tree [file.1, "bin"] = some (headerIn S file.1, false) ∧
      S.bytes (headerIn S file.1) = file.2 := by
  obtain ⟨s, hs, hbytes⟩ := h.present file hfile
  rw [headerIn, hs, Option.map_some, Option.getD_some]
  exact ⟨rfl, hbytes⟩

theorem Packed.exists_place {s : Sector} (hs : s ∈ files.map fun file => headerIn S file.1) :
    ∃ name, S.tree [name, "bin"] = some (s, false) := by
  obtain ⟨file, hfile, rfl⟩ := List.mem_map.mp hs
  exact ⟨file.1, (h.tree_header hfile).1⟩

/-- The root, the directory and the files are different inodes, since they have different places. -/
theorem Packed.nodup_headers (hdistinct : (files.map Prod.fst).Nodup) :
    (rootSector :: bin :: files.map fun file => headerIn S file.1).Nodup := by
  have hunique := h.settled.rooted.unique
  refine List.nodup_cons.mpr ⟨fun hin => ?_, List.nodup_cons.mpr ⟨fun hin => ?_, ?_⟩⟩
  · rcases List.mem_cons.mp hin with heq | hin
    · have hp := hunique [] ["bin"] rootSector true true rfl (heq ▸ h.tree_bin)
      cases hp
    · obtain ⟨name, hname⟩ := h.exists_place hin
      have hp := hunique [] [name, "bin"] rootSector true false rfl hname
      cases hp
  · obtain ⟨name, hname⟩ := h.exists_place hin
    have hp := hunique ["bin"] [name, "bin"] bin true false h.tree_bin hname
    simp at hp
  · have hmap : ((files.map Prod.fst).map (headerIn S)).Nodup := by
      refine List.Nodup.map_on (fun x hx y hy heq => ?_) hdistinct
      obtain ⟨file, hfile, rfl⟩ := List.mem_map.mp hx
      obtain ⟨file', hfile', rfl⟩ := List.mem_map.mp hy
      have hp := hunique _ _ _ false false (h.tree_header hfile).1
        (heq ▸ (h.tree_header hfile').1)
      exact (List.cons.inj hp).1
    rwa [List.map_map] at hmap

/-- What is on a volume fits on it. -/
theorem Packed.demand_le {v : Volume n} (hv : Stores total v S)
    (hdistinct : (files.map Prod.fst).Nodup) : demand total files ≤ total := by
  have hlive : ∀ s ∈ rootSector :: bin :: files.map fun file => headerIn S file.1, s ∈ S.live := by
    intro s hs
    rcases List.mem_cons.mp hs with rfl | hs
    · exact h.settled.linked [] _ true rfl
    rcases List.mem_cons.mp hs with rfl | hs
    · exact h.settled.linked ["bin"] _ true h.tree_bin
    · obtain ⟨name, hname⟩ := h.exists_place hs
      exact h.settled.linked _ s false hname
  have hsum : (files.map fun file => headerIn S file.1).map
      (fun s => footprint (S.bytes s).length) = files.map fun file => footprint file.2.length := by
    rw [List.map_map]
    exact List.map_congr_left fun file hfile => by
      rw [Function.comp_apply, (h.tree_header hfile).2]
  have hfit := hv.footprint_le (h.nodup_headers hdistinct) hlive
  rw [List.map_cons, List.map_cons, hsum, List.sum_cons, List.sum_cons, h.rootLength,
    h.length_bin] at hfit
  rw [demand, filesSize]
  omega

end

end Packer
end TieredVolume
