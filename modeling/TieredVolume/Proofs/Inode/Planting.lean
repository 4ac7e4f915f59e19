import Mathlib.Order.BooleanAlgebra.Set
import TieredVolume.Proofs.Inode.Files
import TieredVolume.Proofs.Inode.Release

/-!
Inodes that come and go, on the shelf and on the disk below it: one that is planted takes sectors
that were set aside, one that is uprooted leaves its header set aside, and all others are kept.
-/
namespace TieredVolume

open View

variable {total : Nat} {w w' : View} {live spare : Set Sector} {h s t : Sector} {nd : Node} {f : File}
  {length : Nat} {parent : Sector} {faults : Fault → Prop} {n : Nat} {S S' : Shelf}

/-! ### Shelves -/

namespace Shelf

/-- The shelf with a new inode, whose header was set aside. -/
def plant (S : Shelf) (s : Sector) (f : File) : Shelf :=
  { S with live := insert s S.live, spare := S.spare \ {s}, file := Function.update S.file s f }

/-- The shelf without an inode, whose header stays set aside. -/
def uproot (S : Shelf) (s : Sector) : Shelf :=
  { S with
    live := S.live \ {s}, spare := insert s S.spare, node := Function.update S.node s none }

/-- The shelf without an inode. -/
def drop (S : Shelf) (s : Sector) : Shelf :=
  { S with live := S.live \ {s}, node := Function.update S.node s none }

/-- The shelf after an inode is closed once. -/
def closed (S : Shelf) (s : Sector) : Shelf :=
  match S.node s with
  | none => S
  | some nd =>
    if 1 < nd.openers then S.setNode s (some { nd with openers := nd.openers - 1 })
    else if nd.removed then S.drop s
    else S.setNode s none

/-- The shelf after an inode is marked as removed; without a node it is gone at once. -/
def removed (S : Shelf) (s : Sector) : Shelf :=
  match S.node s with
  | none => S.drop s
  | some nd => S.setNode s (some { nd with removed := true })

theorem file_closed (S : Shelf) (s : Sector) : (S.closed s).file = S.file := by
  unfold closed
  split
  · rfl
  · split
    · rfl
    · split <;> rfl

theorem file_removed (S : Shelf) (s : Sector) : (S.removed s).file = S.file := by
  unfold removed
  split <;> rfl

theorem bytes_removed (S : Shelf) (s d : Sector) : (S.removed s).bytes d = S.bytes d := by
  rw [bytes, file_removed, bytes]

theorem spare_removed (S : Shelf) (s : Sector) : (S.removed s).spare = S.spare := by
  unfold removed
  split <;> rfl

theorem node_removed_of_ne (hne : h ≠ s) : (S.removed s).node h = S.node h := by
  unfold removed
  split <;> exact Function.update_of_ne hne ..

theorem node_removed (S : Shelf) (s : Sector) :
    (S.removed s).node s = (S.node s).map ({ · with removed := true }) := by
  unfold removed
  split
  · rename_i hn
    rw [hn]
    exact Function.update_self ..
  · rename_i nd hn
    rw [hn]
    exact Function.update_self ..

theorem mem_live_removed : h ∈ (S.removed s).live ↔ h ∈ S.live ∧ (h = s → S.node s ≠ none) := by
  unfold removed
  split
  · rename_i hn
    exact ⟨fun hh => ⟨hh.1, fun heq => absurd heq hh.2⟩, fun hh => ⟨hh.1, fun heq => hh.2 heq hn⟩⟩
  · rename_i nd hn
    exact ⟨fun hh => ⟨hh, fun _ => by rw [hn]; nofun⟩, fun hh => hh.1⟩

/-- Every node has someone who opened it. -/
def Counted (S : Shelf) : Prop := ∀ s nd, S.node s = some nd → 0 < nd.openers

/-- The node of an inode as those see it who open it once more. -/
def seen (S : Shelf) (s : Sector) : Node :=
  { (S.node s).getD {} with openers := ((S.node s).getD {}).openers + 1 }

theorem node_opened (S : Shelf) (s : Sector) : (S.opened s).node s = some (S.seen s) :=
  Function.update_self ..

theorem node_opened_of_ne (hne : h ≠ s) : (S.opened s).node h = S.node h := node_setNode_of_ne hne

theorem closed_opened (hc : S.Counted) : (S.opened s).closed s = S := by
  simp only [closed, opened, setNode, Function.update_self]
  cases hn : S.node s with
  | none =>
    rw [if_neg (by decide), if_neg (by decide), Function.update_idem, ← hn,
      Function.update_eq_self]
  | some nd =>
    have hpos := hc s nd hn
    simp only [Option.getD_some]
    rw [if_pos (by omega), Function.update_idem, Nat.add_sub_cancel, ← hn,
      Function.update_eq_self]

theorem closed_removed (hc : S.Counted) :
    ((S.opened s).setNode s (some { S.seen s with removed := true })).closed s = S.removed s := by
  simp only [closed, opened, seen, setNode, removed, drop, Function.update_self,
    Function.update_idem]
  cases hn : S.node s with
  | none => rw [if_neg (by decide), if_pos trivial]
  | some nd =>
    have hpos := hc s nd hn
    simp only [Option.getD_some]
    rw [if_pos (by omega), Nat.add_sub_cancel]

theorem opened_comm (S : Shelf) (s t : Sector) : (S.opened s).opened t = (S.opened t).opened s := by
  by_cases hst : s = t
  · rw [hst]
  · simp only [opened, setNode, Function.update_of_ne hst, Function.update_of_ne (Ne.symm hst),
      Function.update_comm hst]

theorem seen_opened_of_ne (hne : s ≠ t) : (S.opened s).seen t = S.seen t := by
  simp only [seen, opened, setNode, Function.update_of_ne (Ne.symm hne)]

theorem removed_opened (hne : s ≠ t) : (S.opened s).removed t = (S.removed t).opened s := by
  have hnode : (S.opened s).node t = S.node t := Function.update_of_ne (Ne.symm hne) ..
  unfold removed
  rw [hnode]
  cases S.node t <;>
    simp only [opened, setNode, drop, Function.update_of_ne hne, Function.update_comm hne]

theorem Counted.opened (hc : S.Counted) (s : Sector) : (S.opened s).Counted := fun t nd hn => by
  by_cases hts : t = s
  · simp only [Shelf.opened, setNode, hts, Function.update_self, Option.some.injEq] at hn
    rw [← hn]
    exact Nat.succ_pos _
  · simp only [Shelf.opened, setNode, Function.update_of_ne hts] at hn
    exact hc t nd hn

theorem Counted.removed (hc : S.Counted) : (S.removed t).Counted := fun s nd hn => by
  by_cases hst : s = t
  · rw [hst, node_removed] at hn
    obtain ⟨nd', hn', rfl⟩ := Option.map_eq_some_iff.mp hn
    exact hc t nd' hn'
  · rw [node_removed_of_ne hst] at hn
    exact hc s nd hn

/-- Going over from one inode to another. -/
theorem closed_opened_opened (hc : S.Counted) (s t : Sector) :
    ((S.opened s).opened t).closed s = S.opened t := by
  rw [opened_comm, closed_opened (hc.opened t)]

/-- The shelves are the same, up to files of inodes that there are not. -/
structure Like (S S' : Shelf) : Prop where
  live : S.live = S'.live
  spare : S.spare = S'.spare
  node : S.node = S'.node
  file : ∀ h ∈ S.live, S.file h = S'.file h

end Shelf

theorem Holds.like (hw : Holds total w S) (hl : S.Like S') : Holds total w S' where
  total := hw.total
  forest := hl.live ▸ hl.spare ▸ hw.forest
  sized := hl.live ▸ hw.sized
  file := fun h hh => by
    have hh' : h ∈ S.live := hl.live ▸ hh
    rw [hw.file h hh', hl.file h hh']
  node := hl.node ▸ hw.node
  opened := hl.live ▸ hl.node ▸ hw.opened

theorem Keeps.like (hw : Keeps total w S) (hl : S.Like S') : Keeps total w S' :=
  ⟨hw.toHolds.like hl, hw.unloaded⟩

/-- An inode without a header sector of its own tree is as good as a sector that is set aside. -/
theorem Forest.uproot (hf : Forest w live spare) (hs : s ∈ live)
    (hkept : ∀ h ∈ live, h ≠ s → Kept w w' h)
    (hstored : ∀ t, w'.Stored t ↔ t ∉ w.contents s ∧ w.Stored t) :
    Forest w' (live \ {s}) (insert s spare) := by
  have hsector : ∀ h ∈ live \ {s}, ∀ q, w'.sector h q = w.sector h q := fun h hh q => by
    cases q with
    | none => rfl
    | some p => exact (hkept h hh.1 hh.2).link p
  have hother : ∀ h ∈ live \ {s}, ∀ q t, w.sector h q = some t → t ∉ w.contents s :=
    fun h hh q t hq ht => by
      obtain ⟨p, hp⟩ := mem_contents.mp ht
      exact hh.2 (hf.unique h hh.1 s hs q (some p) t hq hp).1
  refine ⟨fun h hh => ?_, fun h hh p b hp hb => ?_, fun h hh h' hh' q q' t hq hq' => ?_,
    fun h hh q t hq => ?_, fun t ht => ?_, fun t ht => ?_⟩
  · rw [(hkept h hh.1 hh.2).header]
    exact hf.header h hh.1
  · rw [(hkept h hh.1 hh.2).link] at hb
    rw [(hkept h hh.1 hh.2).block p b hb]
    exact hf.index h hh.1 p b hp hb
  · rw [hsector h hh] at hq
    rw [hsector h' hh'] at hq'
    exact hf.unique h hh.1 h' hh'.1 q q' t hq hq'
  · rw [hsector h hh] at hq
    obtain ⟨hst, hspare⟩ := hf.stored h hh.1 q t hq
    refine ⟨(hstored t).mpr ⟨hother h hh q t hq, hst⟩, ?_⟩
    rintro (rfl | hin)
    · exact hh.2 (hf.unique h hh.1 t hs q none t hq rfl).1
    · exact hspare hin
  · rcases ht with rfl | ht
    · exact (hstored t).mpr ⟨hf.notMem_contents hs, hf.header_stored hs⟩
    · refine (hstored t).mpr ⟨fun hin => ?_, hf.setAside t ht⟩
      obtain ⟨p, hp⟩ := mem_contents.mp hin
      exact (hf.stored s hs (some p) t hp).2 ht
  · obtain ⟨hin, hst⟩ := (hstored t).mp ht
    obtain hspare | ⟨h, hh, q, hq⟩ := hf.owned t hst
    · exact .inl (.inr hspare)
    · by_cases hhs : h = s
      · subst hhs
        cases q with
        | none => exact .inl (.inl (Option.some.inj hq).symm)
        | some p => exact absurd (mem_contents.mpr ⟨p, hq⟩) hin
      · exact .inr ⟨h, ⟨hh, hhs⟩, q, by rw [hsector h ⟨hh, hhs⟩, hq]⟩

/-- The place of the first data sector. -/
def Place.first : Place := ⟨0, [], Nat.zero_le _⟩

/-- The other way round: a header that links to one other sector that was set aside. -/
theorem Forest.plant (hf : Forest w live spare) (hs : s ∈ spare) (ht : t ∈ spare) (hne : t ≠ s)
    (htotal : w'.total = w.total) (hused : w'.used = w.used) (hheader : (w'.header s).Is .data)
    (hlink : ∀ p b, w'.link s p = some b ↔ p = .first ∧ b = t)
    (hkept : ∀ h ∈ live, Kept w w' h) : Forest w' (insert s live) (spare \ {s, t}) := by
  have hstored : ∀ b, w'.Stored b ↔ w.Stored b := fun b => by rw [Stored, Stored, htotal, hused]
  have hnew : ∀ q b, w'.sector s q = some b ↔ q = none ∧ b = s ∨ q = some .first ∧ b = t :=
    fun q b => by
      cases q with
      | none => simp [sector, eq_comm]
      | some p => simp [sector, hlink]
  have hold : ∀ h ∈ live, ∀ q, w'.sector h q = w.sector h q := fun h hh q => by
    cases q with
    | none => rfl
    | some p => exact (hkept h hh).link p
  have hspare : ∀ q b, w'.sector s q = some b → b ∈ spare := fun q b hq => by
    rcases (hnew q b).mp hq with ⟨-, rfl⟩ | ⟨-, rfl⟩
    · exact hs
    · exact ht
  refine ⟨fun h hh => ?_, fun h hh p b hp hb => ?_, fun h hh h' hh' q q' b hq hq' => ?_,
    fun h hh q b hq => ?_, fun b hb => (hstored b).mpr (hf.setAside b hb.1), fun b hb => ?_⟩
  · rcases hh with rfl | hh
    · exact hheader
    · rw [(hkept h hh).header]
      exact hf.header h hh
  · rcases hh with rfl | hh
    · obtain ⟨rfl, -⟩ := (hlink p b).mp hb
      exact absurd rfl hp
    · rw [(hkept h hh).link] at hb
      rw [(hkept h hh).block p b hb]
      exact hf.index h hh p b hp hb
  · rcases hh with rfl | hh
    · rcases hh' with rfl | hh'
      · refine ⟨rfl, ?_⟩
        rcases (hnew q b).mp hq with ⟨rfl, rfl⟩ | ⟨rfl, rfl⟩
        · rcases (hnew q' b).mp hq' with ⟨rfl, -⟩ | ⟨-, hbt⟩
          · rfl
          · exact absurd hbt.symm hne
        · rcases (hnew q' b).mp hq' with ⟨-, hbs⟩ | ⟨rfl, -⟩
          · exact absurd hbs hne
          · rfl
      · rw [hold h' hh'] at hq'
        exact absurd hq' (hf.sector_ne_of_spare (hspare q b hq) hh' q')
    · rw [hold h hh] at hq
      rcases hh' with rfl | hh'
      · exact absurd hq (hf.sector_ne_of_spare (hspare q' b hq') hh q)
      · rw [hold h' hh'] at hq'
        exact hf.unique h hh h' hh' q q' b hq hq'
  · rw [hstored]
    rcases hh with rfl | hh
    · refine ⟨hf.setAside b (hspare q b hq), fun hin => hin.2 ?_⟩
      rcases (hnew q b).mp hq with ⟨-, rfl⟩ | ⟨-, rfl⟩
      · exact .inl rfl
      · exact .inr rfl
    · rw [hold h hh] at hq
      obtain ⟨hst, hout⟩ := hf.stored h hh q b hq
      exact ⟨hst, fun hin => hout hin.1⟩
  · obtain hin | ⟨h, hh, q, hq⟩ := hf.owned b ((hstored b).mp hb)
    · by_cases hbs : b = s
      · exact .inr ⟨s, .inl rfl, none, by rw [hbs]; rfl⟩
      · by_cases hbt : b = t
        · exact .inr ⟨s, .inl rfl, some .first, (hnew _ _).mpr (.inr ⟨rfl, hbt⟩)⟩
        · refine .inl ⟨hin, ?_⟩
          rintro (rfl | rfl)
          · exact hbs rfl
          · exact hbt rfl
    · exact .inr ⟨h, .inr hh, q, by rw [hold h hh, hq]⟩

/-! ### A new header -/

section New

/-- The view with the header of a file in `s` whose first data sector is `t`. -/
def View.headed (w : View) (s t parent : Sector) (length : Nat) : View :=
  w.put s (Record.data t parent length).toBlock

variable (hl : w.loaded s = none)

include hl

theorem header_headed :
    (w.headed s t parent length).header s = Record.data t parent length := by
  simp only [View.header, View.headed, View.put, hl, Option.getD_none, Function.update_self,
    Record.ofBlock_toBlock]

theorem link_headed (ht : Sector.decode t.raw = some t) {p : Place} {b : Sector} :
    (w.headed s t parent length).link s p = some b ↔ p = .first ∧ b = t := by
  have htop : ∀ slot : Fin 79, (w.headed s t parent length).trail s slot [] =
      if slot = 0 then some t else none := fun slot => by
    rw [trail, header_headed hl]
    simp only [Record.data, Vector.getElem_set, Vector.getElem_replicate]
    by_cases hslot : slot = 0
    · rw [if_pos (by rw [hslot]; rfl), if_pos hslot, ht]
    · rw [if_neg (fun heq => hslot (Fin.ext heq.symm)), if_neg hslot, Sector.decode_noneRaw]
  rw [link]
  by_cases hslot : p.slot = 0
  · have hup : p.up = [] := by
      have hfits := p.fits
      rw [hslot] at hfits
      exact List.length_eq_zero_iff.mp (Nat.le_zero.mp hfits)
    rw [hup, htop, if_pos hslot]
    constructor
    · intro hb
      exact ⟨Place.ext' hslot hup, (Option.some.inj hb).symm⟩
    · rintro ⟨-, rfl⟩
      rfl
  · have hnone := trail_append_none ((htop p.slot).trans (if_neg hslot)) p.up
    rw [List.append_nil] at hnone
    rw [hnone]
    constructor
    · intro hb
      cases hb
    · rintro ⟨rfl, -⟩
      exact absurd rfl hslot

/-- A new file of one sector of zeros. -/
theorem file_headed (ht : Sector.decode t.raw = some t) (hne : t ≠ s) (hzero : w.block t = Block.zero)
    (hlen : length ≤ sectorSize) :
    Sized (w.headed s t parent length) s ∧
      (w.headed s t parent length).file s = ⟨parent, List.replicate length 0⟩ := by
  have hsize : (w.headed s t parent length).size s = length := by
    rw [View.size, header_headed hl]
    simp only [Record.data, UInt32.toNat_ofNat', sectorSize] at hlen ⊢
    omega
  have hbyte : ∀ i, (w.headed s t parent length).byte s i = 0 := fun i => by
    cases hb : (w.headed s t parent length).data s (i / sectorSize) with
    | none => rw [View.byte, hb]
    | some b =>
      obtain ⟨path, -, hlink⟩ := exists_place_of_data hb
      obtain ⟨-, rfl⟩ := (link_headed hl ht).mp hlink
      rw [byte_of_data hb]
      simp only [View.headed, View.put, Function.update_of_ne hne, hzero, get_zero]
  have hfirst : (w.headed s t parent length).data s 0 ≠ none := by
    have hlink : (w.headed s t parent length).data s 0 = some t :=
      (link_headed hl ht).mpr ⟨rfl, rfl⟩
    rw [hlink]
    exact Option.some_ne_none t
  have hsized : Sized (w.headed s t parent length) s := by
    refine ⟨?_, hfirst, fun l hl' => ?_, fun i _ => hbyte i⟩
    · rw [hsize]
      exact hlen.trans (by decide)
    · rw [hsize] at hl'
      have hzero : l = 0 := by
        simp only [Record.dataSectors, sectorSize] at hl' hlen
        omega
      exact hzero ▸ hfirst
  refine ⟨hsized, ?_⟩
  have hbytes : ((w.headed s t parent length).file s).bytes = List.replicate length 0 :=
    bytes_ext (by rw [length_file, hsize, List.length_replicate]) fun i => by
      rw [hsized.getD_file, hbyte, getD_zeros]
  rw [← hbytes]
  simp only [View.file, header_headed hl, Record.data]

end New

/-- A header in a sector that was set aside, before the sector that was taken for it. -/
theorem SetAside.headed (ha : SetAside live spare t w w') (hs : s ∈ spare)
    (hl : w'.loaded s = none) :
    Forest (w'.headed s t parent length) (insert s live) (insert t spare \ {s, t}) :=
  ha.forest.plant (.inr hs) (.inl rfl) (fun heq => ha.fresh (heq ▸ hs)) rfl rfl
    (header_headed hl ▸ Record.is_data t parent length) (fun _ _ => link_headed hl ha.raw)
    fun _ hh => ha.forest.kept_put_spare (.inr hs) hh

/-! ### The inodes that are kept -/

theorem Keeps.node_of_spare (hw : Keeps total w S) (hs : s ∈ S.spare) : S.node s = none := by
  cases hn : S.node s with
  | none => rfl
  | some nd => exact absurd rfl (hw.forest.sector_ne_of_spare hs (hw.opened s nd hn) none)

/-- The inodes stay what they are when a sector is set aside. -/
theorem Keeps.setAside (hw : Keeps total w S) (ha : SetAside S.live S.spare s w w') :
    Keeps total w' { S with spare := insert s S.spare } where
  total := ha.total.trans hw.total
  forest := ha.forest
  sized := fun h hh => (hw.sized h hh).of_kept (ha.kept h hh)
  file := fun h hh => by rw [(ha.kept h hh).file, hw.file h hh]
  node := ha.node.trans hw.node
  opened := hw.opened
  unloaded := fun t => by rw [ha.loaded, hw.unloaded]

/-- A header that was put into a sector that was set aside makes a new inode of it. -/
theorem Keeps.headed (hw : Keeps total w S) (hs : s ∈ S.spare)
    (ha : SetAside S.live S.spare t w w') (hzero : w'.block t = Block.zero)
    (hlen : length ≤ sectorSize) :
    Keeps total (w'.headed s t parent length) (S.plant s ⟨parent, List.replicate length 0⟩) := by
  have hne : t ≠ s := fun heq => ha.fresh (heq ▸ hs)
  have hl : w'.loaded s = none := by rw [ha.loaded, hw.unloaded]
  have hkept : ∀ h ∈ S.live, Kept w (w'.headed s t parent length) h := fun h hh =>
    (ha.kept h hh).trans (ha.forest.kept_put_spare (.inr hs) hh)
  obtain ⟨hsized, hfile⟩ : Sized (w'.headed s t parent length) s ∧
      (w'.headed s t parent length).file s = ⟨parent, List.replicate length 0⟩ :=
    file_headed hl ha.raw hne hzero hlen
  have hlive : s ∉ S.live := fun hin => hw.forest.sector_ne_of_spare hs hin none rfl
  have hforest : Forest (w'.headed s t parent length) (insert s S.live)
      (insert t S.spare \ {s, t}) := ha.headed hs hl
  have hspare : insert t S.spare \ {s, t} = S.spare \ {s} := by
    ext b
    simp only [Set.mem_sdiff, Set.mem_insert_iff, Set.mem_singleton_iff]
    refine ⟨fun ⟨hin, hout⟩ => ⟨hin.resolve_left fun h => hout (.inr h), fun h => hout (.inl h)⟩,
      fun ⟨hin, hout⟩ => ⟨.inr hin, ?_⟩⟩
    rintro (h | rfl)
    · exact hout h
    · exact ha.fresh hin
  rw [hspare] at hforest
  refine ⟨⟨ha.total.trans hw.total, hforest, fun h hh => ?_, fun h hh => ?_, ha.node.trans hw.node,
    fun h nd hn => .inr (hw.opened h nd hn)⟩, fun h => ?_⟩
  · rcases hh with rfl | hh
    · exact hsized
    · exact (hw.sized h hh).of_kept (hkept h hh)
  · rcases hh with rfl | hh
    · simp only [Shelf.plant, Function.update_self, hfile]
    · have hne : h ≠ s := fun heq => hlive (heq ▸ hh)
      simp only [Shelf.plant, Function.update_of_ne hne]
      rw [(hkept h hh).file, hw.file h hh]
  · change w'.loaded h = none
    rw [ha.loaded, hw.unloaded]

/-- Without what hangs on it, an inode that is not open is as good as a sector set aside. -/
theorem Holds.uproot (hw : Holds total w S) (hs : s ∈ S.live) (htotal : w'.total = w.total)
    (hkept : ∀ h ∈ S.live, h ≠ s → Kept w w' h)
    (hstored : ∀ t, w'.Stored t ↔ t ∉ w.contents s ∧ w.Stored t)
    (hnode : w'.node = Function.update w.node s none) (hloaded : ∀ t, w'.loaded t = none) :
    Keeps total w' (S.uproot s) where
  total := htotal.trans hw.total
  forest := hw.forest.uproot hs hkept hstored
  sized := fun h hh => (hw.sized h hh.1).of_kept (hkept h hh.1 hh.2)
  file := fun h hh => by
    rw [(hkept h hh.1 hh.2).file]
    exact hw.file h hh.1
  node := by
    rw [hnode, hw.node]
    rfl
  opened := fun h nd hn => by
    by_cases heq : h = s
    · simp only [Shelf.uproot, heq, Function.update_self] at hn
      cases hn
    · simp only [Shelf.uproot, Function.update_of_ne heq] at hn
      exact ⟨hw.opened h nd hn, heq⟩
  unloaded := hloaded

theorem Keeps.free (hw : Keeps total w S) (hs : s ∈ S.spare) :
    Keeps total (w.free s) { S with spare := S.spare \ {s} } := by
  have hsplit : insert s (S.spare \ {s}) = S.spare := by
    rw [Set.insert_sdiff_singleton, Set.insert_eq_of_mem hs]
  have hforest : Forest (w.free s) S.live (S.spare \ {s}) :=
    Forest.free_spare (by rw [hsplit]; exact hw.forest) fun hin => hin.2 rfl
  exact ⟨⟨hw.total, hforest, fun h hh => (hw.sized h hh).of_kept (Forest.kept_free w s h),
    fun h hh => by rw [(Forest.kept_free w s h).file, hw.file h hh], hw.node, hw.opened⟩,
    hw.unloaded⟩

/-- Another node of an inode that there is. -/
theorem Keeps.setNode {nd? : Option Node} (hw : Keeps total w S) (hs : s ∈ S.live) :
    Keeps total (w.setNode s nd?) (S.setNode s nd?) := by
  have hkept : ∀ h, Kept w (w.setNode s nd?) h := fun h => kept_setNode w nd?
  refine ⟨⟨hw.total, hw.forest.of_kept rfl rfl fun h _ => hkept h, fun h hh => ?_, fun h hh => ?_, ?_,
    fun h nd hn => ?_⟩, hw.unloaded⟩
  · exact (hw.sized h hh).of_kept (hkept h)
  · rw [(hkept h).file]
    exact hw.file h hh
  · simp only [View.setNode, Shelf.setNode, hw.node]
  · by_cases heq : h = s
    · exact heq ▸ hs
    · rw [Shelf.node_setNode_of_ne heq] at hn
      exact hw.opened h nd hn

end TieredVolume
