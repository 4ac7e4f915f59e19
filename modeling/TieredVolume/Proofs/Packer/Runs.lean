import TieredVolume.Proofs.Packer.Filling
import TieredVolume.Proofs.Remount

/-!
Runs of the packer. The root is open during a run and closed when it ends, be it refused or not. A
run ends with an image that has the files in its directory `/bin`, or there is no space for them;
which of the two it is depends on how much room the files take together, and so not on their order.
-/
namespace TieredVolume
namespace Packer

open Volume Attempt

variable {n blocks total : Nat} {S S' : Shelf} {bin : Sector} {files files' : List (String × Bytes)}
  {options : Options} {faults : Fault → Prop}

/-! ### The directory for the files -/

/-- A fresh volume with its root open. -/
abbrev rootOpen : Shelf := Shelf.blank.opened rootSector

theorem settled_rootOpen : Settled rootOpen := settled_blank.open rfl

theorem placeFor_targetDir : rootOpen.tree.placeFor [] targetDir = .ok ["bin"] :=
  Tree.placeFor_name (by decide) (by decide) (by decide) (by decide) (d := rootSector) rfl

/-- The root has slots enough. -/
theorem entryCost_root : rootOpen.entryCost rootSector = 0 := by
  have hslots : rootOpen.slots rootSector = List.replicate rootSlots Entry.empty :=
    slots_blank rootSector
  have hlength : (rootOpen.bytes rootSector).length = rootSlots * entrySize :=
    List.length_replicate ..
  rw [Shelf.entryCost, hslots, hlength, lengthWithOne, countP_empty, List.length_replicate]
  exact Nat.sub_self _

/-- The directory is made. -/
theorem makeTarget_tries : Tries (Stores total) faults (makeTarget (n := n)) rootOpen
    (fun _ S' => ∃ bin, Added rootOpen ["bin"] .directory rootSector bin S') (Stopped rootOpen) := by
  refine (Namespace.createNode_at (c := []) settled_rootOpen rfl placeFor_targetDir rfl
    (.inl (by decide)) Client.bare_root.hasRoom).mono ?_ ?_
  · rintro - S' hcreated
    exact hcreated.added settled_rootOpen rfl
  · rintro why S' ⟨rfl, ⟨-, hsome⟩ | ⟨hwhy, -⟩⟩
    · exact absurd (Client.bare_root.tree_eq_none rfl "bin") hsome
    · exact ⟨hwhy, settled_rootOpen, rfl⟩

theorem makeTarget_spends : Spends (Stores total) (makeTarget (n := n)) rootOpen 2 := by
  have hcost : Spends (Stores total) (makeTarget (n := n)) rootOpen
      (footprint Namespace.NewNode.directory.length + rootOpen.entryCost rootSector) :=
    Namespace.createNode_spends (p := []) settled_rootOpen rfl placeFor_targetDir rfl
  have hfootprint : footprint Namespace.NewNode.directory.length = 2 := by decide
  rwa [entryCost_root, hfootprint] at hcost

/-- The directory has no files yet. -/
theorem Packed.first (ha : Added rootOpen ["bin"] .directory rootSector bin S') :
    Packed S' bin [] := by
  have hjoined := ha.joined "bin" [] rfl
  have hother : ∀ p, p ≠ ["bin"] → p ≠ [] → S'.tree p = none := fun p hp hne => by
    rw [ha.tree, Tree.set, Function.update_of_ne hp]
    cases hx : rootOpen.tree p with
    | none => rfl
    | some x => exact absurd (tree_blank hx).1 hne
  have hslots : S'.slots bin = List.replicate directorySlots Entry.empty := by
    rw [Shelf.slots, Shelf.bytes, ha.file]
    exact slotsOf_zeros directorySlots
  refine ⟨ha.settled, fun name => ?_, fun name _ => hother _ (by simp) (by simp),
    fun _ hfile => absurd hfile List.not_mem_nil, ?_, ?_, ?_⟩
  · by_cases hname : name = "bin"
    · rw [hname, if_pos rfl]
      exact ha.place
    · rw [if_neg hname]
      exact hother _ (by simpa using hname) (by simp)
  · have hwhole := hjoined.whole
    have hlength := hjoined.length
    have hroot : slotsOf (rootOpen.bytes rootSector) = List.replicate rootSlots Entry.empty :=
      slots_blank rootSector
    rw [hroot, countP_empty, List.length_replicate, length_slotsOf] at hlength
    rw [← Nat.div_mul_cancel hwhole, hlength]
    rfl
  · rw [hslots, countP_empty]
    rfl
  · rw [hslots, List.length_replicate]
    rfl

/-! ### Filling it -/

/-- The directory is made and filled, or there is no space for all of it. -/
theorem fill_tries (hfiles : Packable files) : Tries (Stores total) faults (fill (n := n) files)
    rootOpen (fun _ S' => ∃ bin, Packed S' bin files ∧ S'.node = rootOpen.node)
    (Stopped rootOpen) := by
  refine Tries.andThen makeTarget_tries ?_ fun _ _ => id
  rintro - S ⟨bin, ha⟩
  refine Tries.andThen (addFiles_tries (.first ha) hfiles) ?_ fun _ _ hstopped =>
    ⟨hstopped.why, hstopped.settled, hstopped.node.trans ha.node⟩
  rintro - S' ⟨hpacked, hnode⟩
  refine Tries.always ((quiet_stores fun _ _ => shutdown_does).mono ?_)
  rintro - S' rfl
  exact ⟨bin, hpacked, hnode.trans ha.node⟩

theorem fill_spends (hfiles : Packable files) : Spends (Stores total) (fill (n := n) files) rootOpen
    (2 + (filesSize files + (treeSize (dirLength files.length) - treeSize (dirLength 0)))) := by
  refine Spends.andThen makeTarget_spends makeTarget_tries ?_
  rintro - S ⟨bin, ha⟩
  have hadd : Spends (Stores total) (addFiles (n := n) files) S _ :=
    addFiles_spends (.first ha) hfiles
  rw [List.length_nil, Nat.zero_add] at hadd
  exact hadd.before fun _ => Attempt.Frugal.always (Frugal.onCache _)

/-! ### With the root open -/

theorem closed_root (hnode : S.node = rootOpen.node) : S.closed rootSector = S.idle := by
  have hroot : S.node rootSector = some { openers := 1 } := by
    rw [hnode, Shelf.node_opened]
    rfl
  have hothers : Function.update S.node rootSector none = fun _ => none := by
    rw [hnode]
    funext s
    by_cases hs : s = rootSector
    · rw [hs, Function.update_self]
    · rw [Function.update_of_ne hs, Shelf.node_opened_of_ne hs]
      rfl
  simp only [Shelf.closed, hroot, Nat.lt_irrefl, if_false, Bool.false_eq_true]
  rw [Shelf.setNode, hothers, Shelf.idle]

/-- In the end nothing is open, and everything is on the device. -/
theorem leave_yields {v : Volume n} (hroot : rootSector ∈ S.live) (hnode : S.node = rootOpen.node)
    (hv : Stores total v S) : Yields faults leave v fun _ v' => Stores total v' S.idle ∧
      ∀ t, v'.cache.current t = v'.cache.device.block? t.block := by
  have hopen : S.node rootSector = some _ := (congrFun hnode _).trans (Shelf.node_opened ..)
  refine (Inode.close_stores hroot hopen v hv).andThen ?_
  rintro - v₁ ⟨S₁, ⟨w, hvw, hw⟩, rfl⟩
  refine (shutdown_yields hvw).mono ?_
  rintro - v' ⟨hvw', -, hclean⟩
  exact ⟨⟨w, hvw', closed_root hnode ▸ hw⟩, hclean⟩

theorem holdingRoot_yields {x : Attempt n Unit} {v : Volume n} {ok : Shelf → Prop}
    (hx : Tries (Stores total) faults x rootOpen (fun _ => ok) (Stopped rootOpen))
    (hok : ∀ S, ok S → rootSector ∈ S.live ∧ S.node = rootOpen.node)
    (hv : Stores total v .blank) :
    Yields faults (holdingRoot x).run v fun answer v' => match answer with
      | .ok () => (∃ S, ok S ∧ Stores total v' S.idle) ∧
          ∀ t, v'.cache.current t = v'.cache.device.block? t.block
      | .error why => why = .noSpace := by
  have hopen : Tries (Stores total) faults (Attempt.always (Inode.open (n := n) rootSector)) .blank
      (fun _ S => S = rootOpen) fun _ _ => False := Tries.always (Inode.open_stores rfl)
  refine Yields.andThen (hopen v hv) ?_
  rintro (why | ⟨⟩) v₁ ⟨S₁, hv₁, hopened⟩
  · exact hopened.elim
  obtain rfl : S₁ = rootOpen := hopened
  refine Yields.andThen (hx v₁ hv₁) ?_
  rintro (why | ⟨⟩) v₂ ⟨S, hv₂, hS⟩
  · refine (leave_yields (hS.settled.linked [] _ true rfl) hS.node hv₂).andThen fun _ _ _ => ?_
    exact Yields.pure hS.why
  · obtain ⟨hroot, hnode⟩ := hok S hS
    refine (leave_yields hroot hnode hv₂).andThen fun _ _ hleft => ?_
    exact Yields.pure ⟨⟨S, hS, hleft.1⟩, hleft.2⟩

theorem holdingRoot_spends {x : Attempt n Unit} {cost : Nat}
    (hx : Spends (Stores total) x rootOpen cost) :
    Spends (Stores total) (holdingRoot x) .blank cost := by
  refine Spends.afterAlways (Inode.open_frugal _) (Inode.open_stores rfl) ?_
  rintro - S rfl
  exact hx.thenAlways ((Inode.close_frugal _).bind fun _ => Frugal.onCache _)

/-! ### Runs -/

/-- What an attempt on a volume comes to that has no faults. -/
theorem onVolume_cases {x : Attempt n Unit} {v : Volume n}
    {post : Except Refusal Unit → Volume n → Prop} (hx : Yields never x.run v post) :
    (∃ v', onVolume x v = .ok v' ∧ post (.ok ()) v') ∨
    ∃ why v', onVolume x v = .error (.refused why) ∧ post (.error why) v' := by
  obtain ⟨answer, v', hrun, hpost⟩ := hx.ok_of_never
  rw [onVolume, hrun]
  cases answer with
  | ok a => exact .inl ⟨v', rfl, hpost⟩
  | error why => exact .inr ⟨why, v', rfl, hpost⟩

/-- With its background tasks off a blank image gets a root. -/
theorem prepare_eq_ok (hblocks : unitBlocks ≤ blocks) (hlimit : blocks < sectorLimit) :
    ∃ v, prepare blocks = .ok v ∧ Stores blocks v .blank ∧
      blocks ≤ v.map.freeCount + mapSectors blocks + 2 := by
  have hroom : FreeMap.reserved blocks < blocks := by
    simp only [FreeMap.reserved, freeMapStart, mapSectors, sectorBits, unitBlocks] at hblocks ⊢
    omega
  have hd : (Device.image (ImageFile.ofBlocks blocks)).Sound := Array.size_replicate ..
  obtain ⟨v, hmount, hv⟩ : ∃ v, Volume.mount (.image (ImageFile.ofBlocks blocks))
      { format := true, background := false } = .ok (.ok v) ∧ Stores blocks v .blank :=
    Volume.mount_eq_ok hd hlimit hroom rfl
  have hfree : blocks ≤ v.map.freeCount + FreeMap.reserved blocks + 1 :=
    Volume.mount_room hd hlimit hroom rfl hmount
  rw [FreeMap.reserved, freeMapStart] at hfree
  exact ⟨v, by rw [prepare, hmount]; rfl, hv, by omega⟩

/-- The host has room for every image that a volume fits on. -/
theorem blocks_eq_ok {source? : Option (List (String × Bytes))}
    (hlimit : options.size * unitBlocks < sectorLimit) :
    options.blocks ⟨true, source?⟩ = .ok (options.size * unitBlocks) := by
  obtain ⟨blocks, hblocks⟩ : ∃ blocks, blocks = options.size * unitBlocks := ⟨_, rfl⟩
  rw [← hblocks] at hlimit
  have hword : blocks * sectorSize < offsetLimit := by
    simp only [sectorLimit, sectorSize, offsetLimit] at hlimit ⊢
    omega
  have hbytes : blocks * sectorSize ≤ maxImageBytes := by
    simp only [sectorLimit, sectorSize, maxImageBytes] at hlimit ⊢
    omega
  rw [Options.blocks, ← hblocks, checkOffset, if_pos hword]
  simp [hbytes]

/-- If the directory and the files do not fit behind the root, they do not fit at all. -/
theorem lt_demand {free : Nat} (hfree : blocks ≤ free + mapSectors blocks + 2)
    (hshort : free < 2 + (filesSize files +
      (treeSize (dirLength files.length) - treeSize (dirLength 0)))) :
    blocks < demand blocks files := by
  have hempty : treeSize (dirLength 0) = 1 := by decide
  have hroot : footprint (rootSlots * entrySize) = 2 := by decide
  have hmono : treeSize (dirLength 0) ≤ treeSize (dirLength files.length) :=
    treeSize_mono (Nat.mul_le_mul_right _ (by omega))
  rw [demand, hroot, footprint]
  omega

/-- The volume as it is when nobody has anything open. -/
theorem Packed.idle (h : Packed S bin files) (hnode : S.node = rootOpen.node) :
    Packed S.idle bin files := by
  have hstays : ∀ s nd, S.node s = some nd → nd.removed = false := fun s nd hn =>
    Client.stays_root (congrFun hnode s ▸ hn)
  exact ⟨h.settled.idle hstays, h.root, h.absent, h.present, h.rootLength, h.used, h.slots⟩

/-- With the files on the device, all is written to it; or there was no space for them. -/
theorem run_cases (hsize : 1 ≤ options.size) (hlimit : options.size * unitBlocks < sectorLimit)
    (hfiles : Packable files) :
    (∃ (v : Volume cacheCapacity) (S : Shelf) (bin : Sector),
      run options ⟨true, some files⟩ = .ok v.cache.device ∧
      Stores (options.size * unitBlocks) v S.idle ∧ Packed S.idle bin files ∧
      ∀ t, v.cache.current t = v.cache.device.block? t.block) ∨
    run options ⟨true, some files⟩ = .error (.refused .noSpace) ∧
      options.size * unitBlocks < demand (options.size * unitBlocks) files := by
  have hlarge : unitBlocks ≤ options.size * unitBlocks := Nat.le_mul_of_pos_left unitBlocks hsize
  obtain ⟨v₀, hprepare, hv₀, hfree⟩ := prepare_eq_ok hlarge hlimit
  have hrun : run options ⟨true, some files⟩ =
      (onVolume (holdingRoot (fill files)) v₀).map (·.cache.device) := by
    simp only [run, blocks_eq_ok hlimit, bind, Except.bind, hprepare]
    cases onVolume (holdingRoot (fill files)) v₀ <;> rfl
  have hholding : Yields never (holdingRoot (fill files)).run v₀ _ :=
    holdingRoot_yields (fill_tries hfiles)
      (fun S ⟨_, hpacked, hnode⟩ => ⟨hpacked.settled.linked [] _ true rfl, hnode⟩) hv₀
  have hspent := holdingRoot_spends (fill_spends hfiles) v₀ hv₀
  rcases onVolume_cases (hholding.and hspent) with
    ⟨v, hfilled, ⟨⟨S, ⟨bin, hpacked, hnode⟩, hv⟩, hclean⟩, -⟩ | ⟨why, v, hrefused, rfl, hshort⟩
  · exact .inl ⟨v, S, bin, by rw [hrun, hfilled]; rfl, hv, hpacked.idle hnode, hclean⟩
  · exact .inr ⟨by rw [hrun, hrefused]; rfl, lt_demand hfree (hshort rfl)⟩

/-- Whether a run succeeds depends on how much room everything takes. -/
theorem run_settled (hsize : 1 ≤ options.size) (hlimit : options.size * unitBlocks < sectorLimit)
    (hfiles : Packable files) :
    if demand (options.size * unitBlocks) files ≤ options.size * unitBlocks then
      ∃ device, run options ⟨true, some files⟩ = .ok device
    else run options ⟨true, some files⟩ = .error (.refused .noSpace) := by
  rcases run_cases hsize hlimit hfiles with ⟨v, S, bin, hrun, hv, hpacked, -⟩ | ⟨hrun, hshort⟩
  · rw [if_pos (hpacked.demand_le hv hfiles.distinct)]
    exact ⟨_, hrun⟩
  · rw [if_neg (Nat.not_le.mpr hshort)]
    exact hrun

theorem Packable.perm (h : Packable files) (hperm : files'.Perm files) : Packable files' where
  distinct := (hperm.map Prod.fst).nodup_iff.mpr h.distinct
  proper := fun file hfile => h.proper file (hperm.mem_iff.mp hfile)
  short := fun file hfile => h.short file (hperm.mem_iff.mp hfile)
  few := hperm.length_eq ▸ h.few

/-! ### What is mounted again -/

/-- The names in the directory at a path. -/
def listing (path : String) : Attempt n (List String) := do
  let dir ← Namespace.openDirectory path rootSector
  always (Directory.names dir)

/-- The length of the file at a path, and some of its bytes. -/
def excerpt (path : String) (offset count : Nat) : Attempt n (Nat × Bytes) := do
  let s ← Namespace.openFile path rootSector
  let length ← always (Inode.length s)
  return (length, ← always (Inode.readAt s offset count))

/-- A volume has these files in its directory `/bin`, and nothing else. -/
structure Carries (files : List (String × Bytes)) (v : Volume n) : Prop where
  root : ∃ left, (listing "/").run v = .ok (.ok ["bin"]) left
  bin : ∃ names left, (listing targetDir).run v = .ok (.ok names) left ∧
    names.Perm (files.map Prod.fst)
  file : ∀ file ∈ files, ∀ offset count, ∃ left,
    (excerpt (targetPath file.1) offset count).run v =
      .ok (.ok (file.2.length, (file.2.drop offset).take count)) left

theorem listing_does {path : String} {q : List String} {d : Sector} (hS : Settled S)
    (hresolve : S.tree.resolve [] path = some q) (hq : S.tree q = some (d, true)) :
    Tries (Stores total) faults (listing (n := n) path) S
      (fun names _ => names = namesAfter (S.slots d) 0) fun _ _ => False := by
  refine Tries.andThen (Namespace.openDirectory_opens (c := []) hS rfl hresolve hq) ?_
    fun _ _ => id
  rintro a S₁ ⟨rfl, rfl⟩
  refine Tries.always ((Directory.names_does (S := S.opened a) (hS.linked q a true hq)
    (S.node_opened a)).mono ?_)
  rintro names S₁ ⟨rfl, -⟩
  rfl

theorem excerpt_does {path : String} {q : List String} {s : Sector} {offset count : Nat}
    (hS : Settled S) (hresolve : S.tree.resolve [] path = some q) (hq : S.tree q = some (s, false)) :
    Tries (Stores total) faults (excerpt (n := n) path offset count) S
      (fun seen _ => seen = ((S.bytes s).length, ((S.bytes s).drop offset).take count))
      fun _ _ => False := by
  have hlive := hS.linked q s false hq
  refine Tries.andThen (Namespace.openFile_opens (c := []) hS rfl hresolve hq) ?_ fun _ _ => id
  rintro a S₁ ⟨rfl, rfl⟩
  refine Tries.bind (Tries.always ((Inode.length_does (S := S.opened a) hlive
    (S.node_opened a)).mono ?_))
  rintro length S₁ ⟨rfl, rfl⟩
  refine Tries.bind (Tries.always ((Inode.readAt_does (S := S.opened a) hlive
    (S.node_opened a)).mono ?_))
  rintro bytes S₁ ⟨rfl, -⟩
  exact Tries.pure rfl

theorem Packed.names_root (h : Packed S bin files) :
    namesAfter (S.slots rootSector) 0 = ["bin"] := by
  have horderly : Orderly (S.slots rootSector) := h.settled.rooted.orderly [] rootSector rfl
  have hfind : ∀ name, S.tree [name] = findSlot (S.slots rootSector) name := fun _ => treeOf_cons rfl
  refine List.perm_singleton.mp ((List.perm_ext_iff_of_nodup horderly.nodup_namesAfter
    (List.nodup_singleton _)).mpr fun name => mem_namesAfter_zero.trans ?_)
  rw [← hfind, h.root, List.mem_singleton]
  by_cases hname : name = "bin" <;> simp [hname]

theorem Packed.names_bin (h : Packed S bin files) (hdistinct : (files.map Prod.fst).Nodup) :
    (namesAfter (S.slots bin) 0).Perm (files.map Prod.fst) := by
  have horderly : Orderly (S.slots bin) := h.settled.rooted.orderly ["bin"] bin h.tree_bin
  have hfind : ∀ name, S.tree [name, "bin"] = findSlot (S.slots bin) name := fun _ =>
    treeOf_cons h.tree_bin
  refine (List.perm_ext_iff_of_nodup horderly.nodup_namesAfter hdistinct).mpr fun name =>
    mem_namesAfter_zero.trans ?_
  rw [← hfind, ne_eq, h.absent_iff, not_not]

/-- An attempt that is not refused has its answer. -/
theorem answer_of_tries {α : Type} {x : Attempt n α} {v : Volume n} {ok : α → Shelf → Prop}
    (hx : Tries (Stores total) never x S ok fun _ _ => False) (hv : Stores total v S) :
    ∃ a S' left, x.run v = .ok (.ok a) left ∧ ok a S' := by
  have hrun : Yields never x.run v _ := hx v hv
  obtain ⟨answer, left, hrun, S', -, hpost⟩ := hrun.ok_of_never
  cases answer with
  | error why => exact hpost.elim
  | ok a => exact ⟨a, S', left, hrun, hpost⟩

/-- What the shelf has is seen on the volume. -/
theorem Packed.carries {v : Volume n} (h : Packed S bin files) (hv : Stores total v S)
    (hfiles : Packable files) : Carries files v where
  root := by
    obtain ⟨names, -, left, hrun, rfl⟩ := answer_of_tries
      (listing_does h.settled (show S.tree.resolve [] "/" = some [] from rfl) rfl) hv
    rw [h.names_root] at hrun
    exact ⟨left, hrun⟩
  bin := by
    obtain ⟨names, -, left, hrun, rfl⟩ := answer_of_tries
      (listing_does h.settled h.resolve_bin h.tree_bin) hv
    exact ⟨_, left, hrun, h.names_bin hfiles.distinct⟩
  file := fun file hfile offset count => by
    obtain ⟨s, hs, hbytes⟩ := h.present file hfile
    have hplace := h.resolve_targetPath (hfiles.proper file hfile) (by rw [hs]; nofun)
    have hseen : Tries (Stores total) never (excerpt (n := n) (targetPath file.1) offset count) S
        _ _ := excerpt_does h.settled hplace hs
    obtain ⟨seen, -, left, hrun, rfl⟩ := answer_of_tries hseen hv
    rw [hbytes] at hrun
    exact ⟨left, hrun⟩

/-- The bytes of the device, taken for an image again, have the files. -/
theorem Packed.mounted {v : Volume cacheCapacity} (h : Packed S.idle bin files)
    (hv : Stores total v S.idle)
    (hfiles : Packable files) (hclean : ∀ t, v.cache.current t = v.cache.device.block? t.block) :
    ∃ file, ImageFile.open? v.cache.device.bytes = .ok file ∧
      ∀ mounting : MountOptions, mounting.format = false →
        ∃ again, Volume.mount (.image file) mounting = .ok (.ok again) ∧ Carries files again := by
  obtain ⟨hsound, -⟩ := hv.keeps_view
  obtain ⟨file, hopen, hd, hcount, hblock⟩ := Device.exists_image hsound.cache.coherent.sound
  refine ⟨file, hopen, fun mounting hformat => ?_⟩
  obtain ⟨again, hmount, hagain, -⟩ := Volume.mount_stores hv
    (h.settled.linked [] rootSector true rfl) hd (hcount.trans hsound.cache.blockCount)
    (fun t => (hclean t).trans (hblock t.block).symm) hformat
  exact ⟨again, hmount, h.carries hagain hfiles⟩

/-- The packer brings a directory of files into an image. If a run succeeds, the image, mounted as it
is, has the directory `/bin` in its root and nothing else, and in that the files with their bytes. A
run succeeds or there is no space, and which of the two it is does not depend on the order in which
the files are listed. -/
theorem run_packs (hsize : 1 ≤ options.size) (hlimit : options.size * unitBlocks < sectorLimit)
    (hfiles : Packable files) :
    (∀ device, run options ⟨true, some files⟩ = .ok device →
      ∃ file, ImageFile.open? device.bytes = .ok file ∧
        ∀ mounting : MountOptions, mounting.format = false →
          ∃ v, Volume.mount (.image file) mounting = .ok (.ok v) ∧ Carries files v) ∧
    ∀ files', files'.Perm files →
      ((∃ device, run options ⟨true, some files⟩ = .ok device) ∧
        ∃ device, run options ⟨true, some files'⟩ = .ok device) ∨
      run options ⟨true, some files⟩ = .error (.refused .noSpace) ∧
        run options ⟨true, some files'⟩ = .error (.refused .noSpace) := by
  refine ⟨fun device hrun => ?_, fun files' hperm => ?_⟩
  · rcases run_cases hsize hlimit hfiles with ⟨v, S, bin, hrun', hv, hpacked, hclean⟩ | ⟨hrun', -⟩
    · rw [hrun'] at hrun
      obtain rfl := Except.ok.inj hrun
      exact hpacked.mounted hv hfiles hclean
    · rw [hrun'] at hrun
      cases hrun
  · have hfirst := run_settled hsize hlimit hfiles
    have hsecond := run_settled hsize hlimit (hfiles.perm hperm)
    rw [demand_perm hperm] at hsecond
    split at hfirst
    · rename_i hfits
      rw [if_pos hfits] at hsecond
      exact .inl ⟨hfirst, hsecond⟩
    · rename_i hfits
      rw [if_neg hfits] at hsecond
      exact .inr ⟨hfirst, hsecond⟩

/-- Two small files fit on the smallest image, whichever comes first. -/
theorem run_packs_two : ∃ device file v,
    run ⟨"in", "out", 1⟩ ⟨true, some [("a", [1]), ("b", [])]⟩ = .ok device ∧
    ImageFile.open? device.bytes = .ok file ∧ Volume.mount (.image file) {} = .ok (.ok v) ∧
    Carries [("a", [1]), ("b", [])] v ∧
    ∃ device', run ⟨"in", "out", 1⟩ ⟨true, some [("b", []), ("a", [1])]⟩ = .ok device' := by
  have hsize : 1 ≤ (⟨"in", "out", 1⟩ : Options).size := Nat.le_refl 1
  have hlimit : (⟨"in", "out", 1⟩ : Options).size * unitBlocks < sectorLimit := by decide
  have hfiles : Packable [("a", [1]), ("b", [])] := by
    refine ⟨by decide, fun file hfile => ?_, fun file hfile => ?_, by decide⟩
    · rcases List.mem_cons.mp hfile with rfl | hfile
      · exact ⟨by decide, by decide, by decide⟩
      · obtain rfl := List.mem_singleton.mp hfile
        exact ⟨by decide, by decide, by decide⟩
    · rcases List.mem_cons.mp hfile with rfl | hfile
      · decide
      · obtain rfl := List.mem_singleton.mp hfile
        decide
  have hfits := run_settled hsize hlimit hfiles
  rw [if_pos (by decide)] at hfits
  obtain ⟨device, hrun⟩ := hfits
  obtain ⟨hmounts, horder⟩ := run_packs hsize hlimit hfiles
  obtain ⟨file, hopen, hmount⟩ := hmounts device hrun
  obtain ⟨v, hv, hcarries⟩ := hmount {} rfl
  obtain ⟨-, hrun'⟩ | ⟨hrefused, -⟩ := horder [("b", []), ("a", [1])] (List.Perm.swap ..)
  · exact ⟨device, file, v, hrun, hopen, hv, hcarries, hrun'⟩
  · rw [hrun] at hrefused
    cases hrefused

end Packer
end TieredVolume
