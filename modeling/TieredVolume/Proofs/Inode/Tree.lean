import TieredVolume.Disk.IndexPath
import TieredVolume.Proofs.Disk.Record
import TieredVolume.Proofs.Inode.Load

/-!
The sectors that hang on the header of a file. A place in the tree of a file is a link of the header
and the children to take from there; what is linked at a place depends only on the header and on the
index blocks above it. The data sectors are at the leaves, and hold the bytes of the file.
-/
namespace TieredVolume

/-- A position in the tree of a file; the step that was taken last comes first. -/
structure Place where
  slot : Fin 79
  up : List (Fin 64)
  fits : up.length ≤ IndexPath.depthOf slot

namespace Place

/-- The place of a data sector. -/
def Leaf (p : Place) : Prop := p.up.length = IndexPath.depthOf p.slot

theorem ext' {p q : Place} (hslot : p.slot = q.slot) (hup : p.up = q.up) : p = q := by
  cases p
  cases q
  simp only at hslot hup
  subst hslot hup
  rfl

end Place

/-- The place to which a way leads. -/
def IndexPath.place (path : IndexPath) : Place where
  slot := ⟨path.slot, path.slot_lt⟩
  up := path.steps.reverse
  fits := by simp

theorem IndexPath.leaf_place (path : IndexPath) : path.place.Leaf := by
  simp [Place.Leaf, IndexPath.place]

theorem IndexPath.place_injective {path path' : IndexPath} (h : path.place = path'.place) :
    path = path' := by
  have hslot : path.slot = path'.slot := congrArg (fun p : Place => p.slot.val) h
  have hsteps : path.steps = path'.steps := List.reverse_inj.mp (congrArg Place.up h)
  rcases path with ⟨s, hs⟩ | ⟨⟨s, hs⟩, c⟩ | ⟨⟨s, hs⟩, m, l⟩ <;>
    rcases path' with ⟨s', hs'⟩ | ⟨⟨s', hs'⟩, c'⟩ | ⟨⟨s', hs'⟩, m', l'⟩ <;>
    simp only [IndexPath.slot, IndexPath.steps] at hslot hsteps <;> simp_all

/-- A file, as those see it who use it. -/
structure File where
  parent : Sector
  bytes : Bytes

namespace View

/-- The header of an inode: the record in memory while it is loaded, else the stored one. -/
def header (w : View) (h : Sector) : Record := (w.loaded h).getD (Record.ofBlock (w.block h))

/-- A child of an index block. -/
def child (w : View) (b : Sector) (c : Fin 64) : Option Sector :=
  Sector.decode (Record.ofBlock (w.block b)).index[c.val]

/-- The sector to which steps from a link of the header lead, the last step first. -/
def trail (w : View) (h : Sector) (slot : Fin 79) : List (Fin 64) → Option Sector
  | [] => Sector.decode (w.header h).index[slot.val]
  | c :: up => (w.trail h slot up).bind (w.child · c)

/-- The sector that is linked at a place. -/
def link (w : View) (h : Sector) (p : Place) : Option Sector := w.trail h p.slot p.up

/-- The sectors of an inode: its header, and what is linked at its places. -/
def sector (w : View) (h : Sector) : Option Place → Option Sector
  | none => some h
  | some p => w.link h p

/-- The data sector that is bound to a logical sector. -/
def data (w : View) (h : Sector) (logical : Nat) : Option Sector :=
  (IndexPath.locate? logical).bind fun path => w.link h path.place

theorem get_zero (k : Fin 512) : Block.zero.get k = 0 := Vector.getElem_replicate _

theorem offset_lt (i : Nat) : i % 512 < 512 := Nat.mod_lt i (by decide)

/-- A byte of a file; where no sector is bound it is zero. -/
def byte (w : View) (h : Sector) (i : Nat) : UInt8 :=
  match w.data h (i / sectorSize) with
  | some s => (w.block s).get ⟨i % 512, offset_lt i⟩
  | none => 0

/-- The length of a file. -/
def size (w : View) (h : Sector) : Nat := (w.header h).length.toNat

def file (w : View) (h : Sector) : File where
  parent := ⟨(w.header h).parent⟩
  bytes := (List.range (w.size h)).map (w.byte h)

variable {w w' w'' : View} {h s : Sector} {slot : Fin 79} {up : List (Fin 64)} {p : Place}

/-- What is linked depends only on the links of the header and on the index blocks on the way. -/
theorem trail_congr (hindex : (w'.header h).index = (w.header h).index)
    (hblock : ∀ p b, ¬ Place.Leaf p → w.link h p = some b → w'.block b = w.block b)
    (hfits : up.length ≤ IndexPath.depthOf slot) : w'.trail h slot up = w.trail h slot up := by
  induction up with
  | nil => rw [trail, trail, hindex]
  | cons c up ih =>
    rw [List.length_cons] at hfits
    rw [trail, trail, ih (by omega)]
    cases hb : w.trail h slot up with
    | none => simp only [Option.bind_none]
    | some b =>
      have hb' : w'.block b = w.block b :=
        hblock ⟨slot, up, by omega⟩ b (by simp only [Place.Leaf]; omega) hb
      simp only [Option.bind_some, child, hb']

/-- The inode is as it was, header and tree. -/
structure Kept (w w' : View) (h : Sector) : Prop where
  header : w'.header h = w.header h
  block : ∀ p s, w.link h p = some s → w'.block s = w.block s

theorem Kept.refl (w : View) (h : Sector) : Kept w w h := ⟨rfl, fun _ _ _ => rfl⟩

theorem Kept.link (hk : Kept w w' h) (p : Place) : w'.link h p = w.link h p :=
  trail_congr (by rw [hk.header]) (fun q b _ hq => hk.block q b hq) p.fits

theorem Kept.trans (hk : Kept w w' h) (hk' : Kept w' w'' h) : Kept w w'' h where
  header := hk'.header.trans hk.header
  block := fun p s hs => (hk'.block p s (by rw [hk.link, hs])).trans (hk.block p s hs)

/-- What is bound depends only on what is linked. -/
theorem data_congr (hlink : ∀ p, w'.link h p = w.link h p) (l : Nat) :
    w'.data h l = w.data h l := by
  unfold View.data
  cases IndexPath.locate? l with
  | none => rfl
  | some path => exact hlink path.place

theorem Kept.data (hk : Kept w w' h) (l : Nat) : w'.data h l = w.data h l := data_congr hk.link l

theorem byte_of_data {i : Nat} (hs : w.data h (i / sectorSize) = some s) :
    w.byte h i = (w.block s).get ⟨i % 512, offset_lt i⟩ := by
  rw [byte, hs]

theorem byte_congr {i : Nat} (hdata : w'.data h (i / sectorSize) = w.data h (i / sectorSize))
    (hblock : ∀ s, w.data h (i / sectorSize) = some s → w'.block s = w.block s) :
    w'.byte h i = w.byte h i := by
  unfold byte
  rw [hdata]
  cases hs : w.data h (i / sectorSize) with
  | none => rfl
  | some s =>
    simp only
    rw [hblock s hs]

theorem exists_place_of_data {l : Nat} (hs : w.data h l = some s) :
    ∃ path, IndexPath.locate? l = some path ∧ w.link h path.place = some s := by
  unfold data at hs
  exact Option.bind_eq_some_iff.mp hs

theorem Kept.byte (hk : Kept w w' h) (i : Nat) : w'.byte h i = w.byte h i :=
  byte_congr (hk.data _) fun s hs => by
    obtain ⟨path, -, hlink⟩ := exists_place_of_data hs
    exact hk.block _ s hlink

theorem Kept.size (hk : Kept w w' h) : w'.size h = w.size h := by
  rw [View.size, View.size, hk.header]

theorem Kept.file (hk : Kept w w' h) : w'.file h = w.file h := by
  simp only [View.file, hk.size, hk.header, funext hk.byte]

/-- The nodes are no part of an inode. -/
theorem kept_setNode (w : View) (node : Option Node) : Kept w (w.setNode s node) h :=
  ⟨rfl, fun _ _ _ => rfl⟩

/-- Writing elsewhere keeps an inode. -/
theorem kept_put {b : Block} (hs : ∀ q, w.sector h q ≠ some s) : Kept w (w.put s b) h where
  header := by
    have hne : h ≠ s := fun heq => hs none (by rw [sector, heq])
    simp only [View.header, put, Function.update_of_ne hne]
  block := fun q t ht => by
    have hne : t ≠ s := fun heq => hs (some q) (by rw [sector, ht, heq])
    simp only [put, Function.update_of_ne hne]

end View
end TieredVolume
