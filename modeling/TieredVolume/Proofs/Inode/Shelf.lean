import TieredVolume.Proofs.Inode.Content
import TieredVolume.Proofs.Inode.WellFormed

/-!
The inodes of a volume as those see them who use them: which there are, what is in them, and who has
them open. How they lie on the device is not seen any more.
-/
namespace TieredVolume

/-! ### Byte strings that grow with zeros -/

/-- `old` with `new` laid over it from `offset` on, and zeros between them if `old` is too short. -/
def splice (old : Bytes) (offset : Nat) (new : Bytes) : Bytes :=
  old.take offset ++ List.replicate (offset - old.length) 0 ++ new ++ old.drop (offset + new.length)

/-- `old` with zeros behind it up to `length` bytes, if it is shorter. -/
def extend (old : Bytes) (length : Nat) : Bytes := old ++ List.replicate (length - old.length) 0

theorem getD_zeros (count i : Nat) : (List.replicate count (0 : UInt8)).getD i 0 = 0 := by
  rw [List.getD_eq_getElem?_getD, List.getElem?_getD_replicate_default_eq]

theorem length_splice (old new : Bytes) (offset : Nat) :
    (splice old offset new).length = max old.length (offset + new.length) := by
  simp only [splice, List.length_append, List.length_take, List.length_replicate,
    List.length_drop]
  omega

theorem getD_splice (old new : Bytes) (offset i : Nat) : (splice old offset new).getD i 0 =
    if offset ≤ i ∧ i < offset + new.length then new.getD (i - offset) 0 else old.getD i 0 := by
  have hfront : (old.take offset ++ List.replicate (offset - old.length) 0).length = offset := by
    simp only [List.length_append, List.length_take, List.length_replicate]
    omega
  unfold splice
  by_cases hlow : i < offset
  · rw [if_neg (by omega), List.append_assoc, List.getD_append _ _ _ _ (by omega)]
    by_cases hold : i < old.length
    · rw [List.getD_append _ _ _ _ (by rw [List.length_take]; omega),
        List.getD_eq_getElem _ _ (by rw [List.length_take]; omega), List.getElem_take,
        List.getD_eq_getElem _ _ hold]
    · rw [List.getD_append_right _ _ _ _ (by rw [List.length_take]; omega),
        List.getD_eq_default _ _ (Nat.not_lt.mp hold), getD_zeros]
  · by_cases hin : i < offset + new.length
    · rw [if_pos ⟨by omega, hin⟩, List.getD_append _ _ _ _ (by rw [List.length_append]; omega),
        List.getD_append_right _ _ _ _ (by omega), hfront]
    · rw [if_neg (by omega), List.getD_append_right _ _ _ _ (by rw [List.length_append]; omega),
        List.length_append, hfront]
      simp only [List.getD_eq_getElem?_getD, List.getElem?_drop]
      congr 2
      omega

theorem length_extend (old : Bytes) (length : Nat) :
    (extend old length).length = max old.length length := by
  simp only [extend, List.length_append, List.length_replicate]
  omega

theorem getD_extend (old : Bytes) (length i : Nat) :
    (extend old length).getD i 0 = old.getD i 0 := by
  unfold extend
  by_cases hold : i < old.length
  · rw [List.getD_append _ _ _ _ hold]
  · rw [List.getD_append_right _ _ _ _ (Nat.not_lt.mp hold), getD_zeros,
      List.getD_eq_default _ _ (Nat.not_lt.mp hold)]

theorem bytes_ext {a b : Bytes} (hlen : a.length = b.length)
    (hbyte : ∀ i, a.getD i 0 = b.getD i 0) : a = b := by
  refine List.ext_getElem hlen fun i ha hb => ?_
  rw [← List.getD_eq_getElem a 0 ha, ← List.getD_eq_getElem b 0 hb, hbyte]

open View

variable {w w' w'' : View} {live spare : Set Sector} {h h' s : Sector} {r : Record}
  {nd : Node} {l : Nat} {faults : Fault → Prop} {n : Nat}

/-- The length of a file is within reach, its sectors are bound, the first one even if it is empty,
and what is bound behind its end is zero. -/
structure Sized (w : View) (h : Sector) : Prop where
  limit : w.size h ≤ maxSectors * sectorSize
  first : w.data h 0 ≠ none
  bound : ∀ l, l < Record.dataSectors (w.size h) → w.data h l ≠ none
  zero : ∀ i, w.size h ≤ i → w.byte h i = 0

theorem Sized.of_kept (hz : Sized w h) (hk : Kept w w' h) : Sized w' h where
  limit := hk.size ▸ hz.limit
  first := by
    rw [hk.data]
    exact hz.first
  bound := fun l hl => by
    rw [hk.data]
    exact hz.bound l (hk.size ▸ hl)
  zero := fun i hi => by
    rw [hk.byte]
    exact hz.zero i (hk.size ▸ hi)

theorem Sized.of_grown (hz : Sized w h) (hg : Grown live h w w') : Sized w' h where
  limit := hg.size ▸ hz.limit
  first := hg.data_ne_none hz.first
  bound := fun l hl => hg.data_ne_none (hz.bound l (hg.size ▸ hl))
  zero := fun i hi => by
    rw [hg.byte]
    exact hz.zero i (hg.size ▸ hi)

theorem length_file (w : View) (h : Sector) : (w.file h).bytes.length = w.size h := by
  simp only [View.file, List.length_map, List.length_range]

theorem Sized.getD_file (hz : Sized w h) (i : Nat) : (w.file h).bytes.getD i 0 = w.byte h i := by
  by_cases hi : i < w.size h
  · rw [List.getD_eq_getElem _ _ (by rw [length_file]; exact hi)]
    simp only [View.file, List.getElem_map, List.getElem_range]
  · rw [List.getD_eq_default _ _ (by rw [length_file]; omega), hz.zero i (Nat.not_lt.mp hi)]

/-- The inodes of a volume. -/
structure Shelf where
  /-- The inodes that there are. -/
  live : Set Sector
  /-- Sectors that are set aside for inodes to come. -/
  spare : Set Sector
  file : Sector → File
  node : Sector → Option Node

namespace Shelf

def setFile (S : Shelf) (s : Sector) (f : File) : Shelf :=
  { S with file := Function.update S.file s f }

def setBytes (S : Shelf) (s : Sector) (bytes : Bytes) : Shelf :=
  S.setFile s { S.file s with bytes }

def setNode (S : Shelf) (s : Sector) (node : Option Node) : Shelf :=
  { S with node := Function.update S.node s node }

def bytes (S : Shelf) (s : Sector) : Bytes := (S.file s).bytes

@[simp] theorem node_setNode_self (S : Shelf) (s : Sector) (nd? : Option Node) :
    (S.setNode s nd?).node s = nd? := Function.update_self ..

theorem node_setNode_of_ne {S : Shelf} {nd? : Option Node} (hne : h ≠ s) :
    (S.setNode s nd?).node h = S.node h := Function.update_of_ne hne ..

@[simp] theorem file_setBytes_self (S : Shelf) (s : Sector) (bytes : Bytes) :
    (S.setBytes s bytes).file s = { S.file s with bytes } := Function.update_self ..

theorem file_setBytes_of_ne {S : Shelf} {bytes : Bytes} (hne : h ≠ s) :
    (S.setBytes s bytes).file h = S.file h := Function.update_of_ne hne ..

/-- The node of an inode that is opened once more. -/
def opened (S : Shelf) (s : Sector) : Shelf :=
  S.setNode s (some { (S.node s).getD {} with openers := ((S.node s).getD {}).openers + 1 })

end Shelf

variable {S S' : Shelf} {total : Nat}

/-- The view, of so many sectors in total, has the inodes of the shelf, loaded or not. -/
structure Holds (total : Nat) (w : View) (S : Shelf) : Prop where
  total : w.total = total
  forest : Forest w S.live S.spare
  sized : ∀ h ∈ S.live, Sized w h
  file : ∀ h ∈ S.live, w.file h = S.file h
  node : w.node = S.node
  opened : ∀ h nd, S.node h = some nd → h ∈ S.live

/-- None of them is loaded. -/
structure Keeps (total : Nat) (w : View) (S : Shelf) : Prop extends Holds total w S where
  unloaded : ∀ s, w.loaded s = none

/-- One of them is loaded. -/
structure Held (total : Nat) (s : Sector) (w : View) (S : Shelf) : Prop extends Holds total w S where
  loaded : ∃ r, w.loaded s = some r
  unloaded : ∀ t, t ≠ s → w.loaded t = none

/-- The volume has the inodes of the shelf. -/
def Stores (total : Nat) (v : Volume n) (S : Shelf) : Prop := Over Volume.Shows (Keeps total) v S

/-- A step that keeps all inodes. -/
theorem Holds.of_kept (hw : Holds total w S) (htotal : w'.total = w.total) (hused : w'.used = w.used)
    (hnode : w'.node = w.node) (hkept : ∀ h ∈ S.live, Kept w w' h) : Holds total w' S where
  total := htotal.trans hw.total
  forest := hw.forest.of_kept htotal hused hkept
  sized := fun h hh => (hw.sized h hh).of_kept (hkept h hh)
  file := fun h hh => by rw [(hkept h hh).file, hw.file h hh]
  node := hnode.trans hw.node
  opened := hw.opened

/-- What the volume itself shows has the inodes of the shelf. -/
theorem Stores.keeps_view {v : Volume n} (hv : Stores total v S) : v.Sound ∧ Keeps total v.view S := by
  obtain ⟨w, hvw, hw⟩ := hv
  refine ⟨hvw.sound, hw.toHolds.of_kept hvw.total hvw.used hvw.node fun h hh =>
    hvw.kept_of_wellFormed (hw.forest.wellFormed hh), fun s => ?_⟩
  rw [hvw.loaded, hw.unloaded]

/-- A step that gives one inode other bytes. -/
theorem Holds.of_bytes {bytes : Bytes} (hw : Holds total w S) (hs : s ∈ S.live)
    (htotal : w'.total = w.total) (hforest : Forest w' S.live S.spare) (hnode : w'.node = w.node)
    (hkept : ∀ h ∈ S.live, h ≠ s → Kept w w' h) (hsized : Sized w' s)
    (hparent : (w'.header s).parent = (w.header s).parent)
    (hlen : w'.size s = bytes.length) (hbyte : ∀ i, w'.byte s i = bytes.getD i 0) :
    Holds total w' (S.setBytes s bytes) where
  total := htotal.trans hw.total
  forest := hforest
  sized := fun h hh => by
    by_cases heq : h = s
    · rw [heq]
      exact hsized
    · exact (hw.sized h hh).of_kept (hkept h hh heq)
  file := fun h hh => by
    by_cases heq : h = s
    · subst heq
      have hbytes : (w'.file h).bytes = bytes :=
        bytes_ext ((length_file w' h).trans hlen) fun i => by rw [hsized.getD_file, hbyte]
      have hparent' : (w'.file h).parent = (S.file h).parent := by
        rw [← hw.file h hh, View.file, View.file, hparent]
      simp only [Shelf.setBytes, Shelf.setFile, Function.update_self, ← hbytes, ← hparent']
    · simp only [Shelf.setBytes, Shelf.setFile, Function.update_of_ne heq]
      rw [(hkept h hh heq).file, hw.file h hh]
  node := hnode.trans hw.node
  opened := hw.opened

theorem Holds.bytes_eq (hw : Holds total w S) (hs : s ∈ S.live) : S.bytes s = (w.file s).bytes := by
  rw [Shelf.bytes, hw.file s hs]

theorem Holds.length_eq (hw : Holds total w S) (hs : s ∈ S.live) : (S.bytes s).length = w.size s := by
  rw [hw.bytes_eq hs, length_file]

theorem Holds.getD_eq (hw : Holds total w S) (hs : s ∈ S.live) (i : Nat) :
    (S.bytes s).getD i 0 = w.byte s i := by
  rw [hw.bytes_eq hs, (hw.sized s hs).getD_file]

theorem Shelf.setBytes_self (S : Shelf) (s : Sector) : S.setBytes s (S.bytes s) = S := by
  simp only [setBytes, setFile, bytes, Function.update_eq_self]

/-- A step in which the tree of an inode grows. -/
theorem Holds.of_grown (hw : Holds total w S) (hs : s ∈ S.live) (hforest : Forest w' S.live S.spare)
    (hg : Grown S.live s w w') : Holds total w' S := by
  have hsized := (hw.sized s hs).of_grown hg
  have hbytes : Holds total w' (S.setBytes s (S.bytes s)) :=
    hw.of_bytes hs hg.total hforest hg.node hg.others hsized (by rw [hg.header])
      (by rw [hg.size, hw.length_eq hs]) fun i => by rw [hg.byte, hw.getD_eq hs]
  rwa [Shelf.setBytes_self] at hbytes

theorem Held.of_grown (hw : Held total s w S) (hs : s ∈ S.live) (hforest : Forest w' S.live S.spare)
    (hg : Grown S.live s w w') : Held total s w' S where
  toHolds := hw.toHolds.of_grown hs hforest hg
  loaded := by
    obtain ⟨r, hr⟩ := hw.loaded
    exact hg.exists_loaded hr
  unloaded := fun t ht => by rw [hg.loaded t ht, hw.unloaded t ht]

namespace Inode

open Volume Attempt

/-! ### Loading and unloading -/

theorem load_held (hw : Keeps total w S) (hs : s ∈ S.live) (hn : S.node s = some nd) :
    Does Shows faults (load (n := n) s) w fun _ w' => Held total s w' S := by
  have hheader : w.header s = Record.ofBlock (w.block s) := by
    rw [View.header, hw.unloaded, Option.getD_none]
  have hdata := hw.forest.header s hs
  rw [hheader] at hdata
  refine (load_does (by rw [hw.node, hn]) (hw.unloaded s) (hw.forest.header_stored hs)
    hdata.isValid).mono ?_
  rintro - w' rfl
  refine ⟨hw.toHolds.of_kept rfl rfl rfl fun h _ => ⟨?_, fun _ _ _ => rfl⟩,
    ⟨Record.ofBlock (w.block s), ?_⟩, fun t ht => ?_⟩
  · by_cases heq : h = s
    · subst heq
      rw [header_of_loaded (h := h) (r := Record.ofBlock (w.block h)) ?_, hheader]
      simp only [View.setLoaded, Function.update_self]
    · simp only [View.header, View.setLoaded, Function.update_of_ne heq]
  · simp only [View.setLoaded, Function.update_self]
  · simp only [View.setLoaded, Function.update_of_ne ht, hw.unloaded]

theorem unload_keeps (hw : Held total s w S) (hs : s ∈ S.live) (hn : S.node s = some nd) :
    Does Shows faults (unload (n := n) s) w fun _ w' => Keeps total w' S := by
  obtain ⟨r, hr⟩ := hw.loaded
  refine (unload_does (by rw [hw.node, hn]) hr (hw.forest.header_stored hs)).mono ?_
  rintro - w' rfl
  refine ⟨hw.toHolds.of_kept rfl rfl rfl fun h hh => ?_, fun t => ?_⟩
  · have hblock : ∀ t, t ≠ s → ((w.setLoaded s none).put s r.toBlock).block t = w.block t :=
      fun t ht => by simp only [View.put, View.setLoaded, Function.update_of_ne ht]
    refine ⟨?_, fun p t ht => hblock t fun heq => ?_⟩
    · by_cases heq : h = s
      · subst heq
        rw [header_of_loaded hr]
        simp only [View.header, View.put, View.setLoaded, Function.update_self, Option.getD_none,
          Record.ofBlock_toBlock]
      · simp only [View.header, View.put, View.setLoaded, Function.update_of_ne heq]
    · subst heq
      have hplace := (hw.forest.unique h hh t hs (some p) none t ht rfl).2
      cases hplace
  · by_cases heq : t = s
    · simp only [View.put, View.setLoaded, heq, Function.update_self]
    · simp only [View.put, View.setLoaded, Function.update_of_ne heq, hw.unloaded t heq]

/-- An operation on a loaded inode, told from before the load to after its end. -/
theorem withLoaded_does {α : Type} {body : VolumeM n α} {post : α → Shelf → Prop}
    (hw : Keeps total w S) (hs : s ∈ S.live) (hn : S.node s = some nd)
    (hbody : ∀ w, Held total s w S → Does Shows faults body w fun a w' =>
      ∃ S', S'.live = S.live ∧ S'.node = S.node ∧ Held total s w' S' ∧ post a S') :
    Does Shows faults (withLoaded s body) w fun a w' => ∃ S', Keeps total w' S' ∧ post a S' := by
  refine Does.andThen (load_held hw hs hn) fun _ w₁ hw₁ => ?_
  refine Does.andThen (hbody w₁ hw₁) ?_
  rintro a w₂ ⟨S', hlive, hnode, hw₂, hpost⟩
  refine Does.andThen (unload_keeps hw₂ (hlive ▸ hs) (hnode ▸ hn)) fun _ w₃ hw₃ => ?_
  exact Does.pure ⟨S', hw₃, hpost⟩

/-- The same for an attempt, which ends its load also if it is refused. -/
theorem loaded_tries {α : Type} {body : Attempt n α} {ok : α → Shelf → Prop}
    {refused : Refusal → Shelf → Prop} (hw : Keeps total w S) (hs : s ∈ S.live)
    (hn : S.node s = some nd)
    (hbody : ∀ w, Held total s w S → Tries Shows faults body w
      (fun a w' => ∃ S', S'.live = S.live ∧ S'.node = S.node ∧ Held total s w' S' ∧ ok a S')
      (fun why w' => ∃ S', S'.live = S.live ∧ S'.node = S.node ∧ Held total s w' S' ∧ refused why S')) :
    Tries Shows faults (do always (load s); thenAlways body (unload s)) w
      (fun a w' => ∃ S', Keeps total w' S' ∧ ok a S')
      (fun why w' => ∃ S', Keeps total w' S' ∧ refused why S') := by
  refine Tries.bind (Tries.always ((load_held hw hs hn).mono fun _ w₁ hw₁ => ?_))
  refine Tries.thenAlways ((hbody w₁ hw₁).mono ?_ ?_)
  · rintro a w₂ ⟨S', hlive, hnode, hw₂, hpost⟩
    exact (unload_keeps hw₂ (hlive ▸ hs) (hnode ▸ hn)).mono fun _ w₃ hw₃ => ⟨S', hw₃, hpost⟩
  · rintro a w₂ ⟨S', hlive, hnode, hw₂, hpost⟩
    exact (unload_keeps hw₂ (hlive ▸ hs) (hnode ▸ hn)).mono fun _ w₃ hw₃ => ⟨S', hw₃, hpost⟩

end Inode
end TieredVolume
