import TieredVolume.Proofs.Frugal
import TieredVolume.Proofs.Inode.Footprint
import TieredVolume.Proofs.Mount
import TieredVolume.Proofs.Namespace.Operations
import TieredVolume.Proofs.Space.Ledger

/-!
How much room an attempt takes. From a state on it takes at most so many sectors, and it is refused
for want of one only if fewer are free. A file takes its header and what the ways to its sectors
need, so a write takes what its new length needs beyond the old one.
-/
namespace TieredVolume

variable {n total cost cost' : Nat} {σ τ α β : Type} {R : Volume n → τ → Prop} {t : τ}
  {faults : Fault → Prop}

/-- From a state on, an attempt takes at most `cost` sectors, and it is refused for want of one only
if fewer are free. -/
def Spends (R : Volume n → τ → Prop) (x : Attempt n α) (t : τ) (cost : Nat) : Prop :=
  ∀ v, R v t → Yields anyFault x.run v fun
    | .ok _, v' => v.map.freeCount ≤ v'.map.freeCount + cost
    | .error why, _ => why = .noSpace → v.map.freeCount < cost

namespace Spends

variable {x : Attempt n α} {f : α → Attempt n β}

theorem mono (h : Spends R x t cost) (hcost : cost ≤ cost') : Spends R x t cost' := by
  refine fun v hv => (h v hv).mono fun answer v' hpost => ?_
  cases answer with
  | ok a => exact hpost.trans (Nat.add_le_add_left hcost _)
  | error why => exact fun hwhy => Nat.lt_of_lt_of_le (hpost hwhy) hcost

theorem frugal (h : x.Frugal) : Spends R x t cost := by
  refine fun v _ => (h v).mono fun answer v' hpost => ?_
  cases answer with
  | ok a => exact Nat.le_add_right_of_le hpost.2.freeCount_le
  | error why => exact fun hwhy => absurd (congrArg Except.error hwhy) hpost.1

/-- What is taken by one attempt after another. -/
theorem andThen {p : α → τ → Prop} {q : Refusal → τ → Prop} (hx : Spends R x t cost)
    (hp : Tries R anyFault x t p q) (hf : ∀ a t', p a t' → Spends R (f a) t' cost') :
    Spends R (x >>= f) t (cost + cost') := fun v hv => by
  rw [Attempt.run_bind]
  refine ((hx v hv).and (hp v hv)).andThen fun answer v₁ h => ?_
  cases answer with
  | ok a =>
    obtain ⟨hspent, t', hv₁, hpost⟩ := h
    refine (hf a t' hpost v₁ hv₁).mono fun answer v' h' => ?_
    cases answer with
    | ok b =>
      have hspent' : v₁.map.freeCount ≤ v'.map.freeCount + cost' := h'
      change v.map.freeCount ≤ v'.map.freeCount + (cost + cost')
      change v.map.freeCount ≤ v₁.map.freeCount + cost at hspent
      omega
    | error why =>
      intro hwhy
      have hshort : v₁.map.freeCount < cost' := h' hwhy
      change v.map.freeCount ≤ v₁.map.freeCount + cost at hspent
      omega
  | error why => exact Yields.pure fun hwhy => Nat.lt_add_right cost' (h.1 hwhy)

/-- A frugal attempt before. -/
theorem after {p : α → τ → Prop} {q : Refusal → τ → Prop} (hx : x.Frugal)
    (hp : Tries R anyFault x t p q) (hf : ∀ a t', p a t' → Spends R (f a) t' cost) :
    Spends R (x >>= f) t cost := by
  have hnone : Spends R x t 0 := frugal hx
  rw [← Nat.zero_add cost]
  exact hnone.andThen hp hf

/-- An attempt behind that is frugal as things then are. -/
theorem andFrugal {p : α → τ → Prop} {q : Refusal → τ → Prop} (hx : Spends R x t cost)
    (hp : Tries R anyFault x t p q) (hf : ∀ a t', p a t' → (f a).Frugal) :
    Spends R (x >>= f) t cost := by
  rw [← Nat.add_zero cost]
  exact hx.andThen hp fun a t' h => frugal (hf a t' h)

theorem afterAlways {y : VolumeM n α} {p : α → τ → Prop} (hy : Frugal y) (hp : Does R anyFault y t p)
    (hf : ∀ a t', p a t' → Spends R (f a) t' cost) : Spends R (Attempt.always y >>= f) t cost :=
  after (q := fun _ _ => False) (Attempt.Frugal.always hy) (Tries.always hp) hf

/-- A refusal for another reason takes nothing, whatever is behind it. -/
theorem refuse {why : Refusal} {f : α → Attempt n β} (hwhy : why ≠ .noSpace) :
    Spends R (Attempt.refuse why >>= f) t cost := fun v _ => by
  rw [Attempt.run_bind]
  exact Yields.pure fun heq => absurd heq hwhy

/-- Frugal attempts behind. -/
theorem before (hx : Spends R x t cost) (hf : ∀ a, (f a).Frugal) : Spends R (x >>= f) t cost :=
  fun v hv => by
    rw [Attempt.run_bind]
    refine (hx v hv).andThen fun answer v₁ h => ?_
    cases answer with
    | ok a =>
      refine (hf a v₁).mono fun answer v' h' => ?_
      cases answer with
      | ok b => exact Nat.le_trans h (Nat.add_le_add_right h'.2.freeCount_le cost)
      | error why => exact fun hwhy => absurd (congrArg Except.error hwhy) h'.1
    | error why => exact Yields.pure h

theorem thenAlways {cleanup : VolumeM n Unit} (hx : Spends R x t cost) (hc : Frugal cleanup) :
    Spends R (Attempt.thenAlways x cleanup) t cost := fun v hv => by
  refine (hx v hv).andThen fun answer v₁ h => ?_
  refine (hc v₁).andThen fun _ v' hease => ?_
  cases answer with
  | ok a => exact Yields.pure (Nat.le_trans h (Nat.add_le_add_right hease.freeCount_le cost))
  | error why => exact Yields.pure h

/-- What is given back by a refusal does not matter, since nothing is to go on then. -/
theorem onRefusal {cleanup : VolumeM n Unit} (hx : Spends R x t cost) :
    Spends R (Attempt.onRefusal x cleanup) t cost := fun v hv => by
  refine (hx v hv).andThen fun answer v₁ h => ?_
  cases answer with
  | ok a => exact Yields.pure h
  | error why => exact (Yields.anything cleanup v₁).andThen fun _ _ _ => Yields.pure h

theorem lift {υ : Type} {S : τ → υ → Prop} {u : υ} (h : ∀ t, S t u → Spends R x t cost) :
    Spends (Over R S) x u cost := by
  rintro v ⟨t, hv, ht⟩
  exact h t ht v hv

end Spends

/-! ### Inodes -/

namespace Inode

open Volume Attempt

variable {w : View} {S : Shelf} {s parent : Sector} {nd : Node} {stop length offset : Nat}
  {bytes : Bytes}

theorem allocate_spends : Spends Shows (allocate (n := n) 1) w 1 := by
  have htake : Tries Shows anyFault (allocate (n := n) 1) w _ _ := allocate_tries
  intro v hv
  refine (htake v hv).mono fun answer v' hpost => ?_
  obtain ⟨w', hv', hpost⟩ := hpost
  cases answer with
  | ok s =>
    obtain ⟨hlt, -, hfree, -, -, b, rfl⟩ := hpost
    have hone : (w.take s b).vacant.ncard + 1 = w.vacant.ncard :=
      View.ncard_vacant_of_used rfl rfl hlt hfree
    change v.map.freeCount ≤ v'.map.freeCount + 1
    rw [hv.freeCount, hv'.freeCount, hone]
  | error why =>
    intro _
    rw [hv.freeCount, hpost.2.1.ncard_vacant]
    exact Nat.one_pos

/-- Binding through takes what the length needs beyond the old one. -/
theorem bindThrough_spends (hw : Held total s w S) (hs : s ∈ S.live) (hn : S.node s = some nd) :
    Spends Shows (bindThrough (n := n) s stop) w
      (treeSize stop - treeSize (S.bytes s).length) := by
  obtain ⟨r, hr⟩ := hw.loaded
  have hbind : Tries Shows anyFault (bindThrough (n := n) s stop) w _ _ :=
    bindThrough_tries hw.forest hs (by rw [hw.node, hn]) hr (.inr trivial)
  have hcost := (hw.sized s hs).card_missing_le stop
  rw [hw.length_eq hs]
  intro v hv
  refine (hbind v hv).mono fun answer v' hpost => ?_
  obtain ⟨w', hv', hpost⟩ := hpost
  cases answer with
  | ok _ =>
    have hpaid := hpost.2.2.2.count
    change v.map.freeCount ≤ v'.map.freeCount + _
    rw [hv.freeCount, hv'.freeCount]
    omega
  | error why =>
    intro _
    rw [hv.freeCount]
    exact Nat.lt_of_lt_of_le hpost.lt hcost

/-- A write takes what the new length needs beyond the old one. -/
theorem writeAt_spends (hs : s ∈ S.live) (hn : S.node s = some nd) :
    Spends (Stores total) (writeAt (n := n) s offset bytes) S
      (treeSize (offset + bytes.length) - treeSize (S.bytes s).length) := by
  refine Spends.lift fun w hw => ?_
  unfold writeAt
  split
  · exact Spends.frugal (Attempt.Frugal.pure 0)
  refine Spends.afterAlways (node_frugal s)
    (node_does_of_unloaded (by rw [hw.node, hn]) (hw.unloaded s)) ?_
  rintro nd' w₁ ⟨-, -, rfl⟩
  split
  · exact Spends.frugal (Attempt.Frugal.pure 0)
  refine Spends.afterAlways (Frugal.ofExcept _) (p := fun stop w' =>
    stop = offset + bytes.length ∧ w' = w₁) (addOffset_does (.inr trivial) ⟨rfl, rfl⟩) ?_
  rintro stop w₂ ⟨rfl, rfl⟩
  refine Spends.afterAlways (load_frugal s) (load_held hw hs hn) fun _ w₃ hw₃ => ?_
  refine Spends.thenAlways ?_ (unload_frugal s)
  obtain ⟨r, hr⟩ := hw₃.loaded
  refine Spends.afterAlways (record_frugal s) (record_does (by rw [hw₃.node, hn]) hr) ?_
  rintro r' w₄ ⟨-, rfl⟩
  split
  · exact Spends.frugal (Attempt.Frugal.always (writeSpans_frugal s _ _ _))
  · refine Spends.before (bindThrough_spends hw₃ hs hn) fun _ => ?_
    exact (Attempt.Frugal.always (writeSpans_frugal s _ _ _)).bind fun _ =>
      (Attempt.Frugal.always (updateRecord_frugal s _)).bind fun _ => Attempt.Frugal.pure _

/-- Growing takes what the new length needs beyond the old one. -/
theorem grow_spends {size : Nat} (hw : Keeps total w S) (hs : s ∈ S.live) (hn : S.node s = some nd) :
    Spends Shows (grow (n := n) s size offset) w
      (treeSize (offset + size) - treeSize (S.bytes s).length) := by
  refine Spends.afterAlways (load_frugal s) (load_held hw hs hn) fun _ w₁ hw₁ => ?_
  refine Spends.thenAlways ?_ (unload_frugal s)
  refine Spends.afterAlways (Frugal.ofExcept _) (p := fun stop w' => stop = offset + size ∧ w' = w₁)
    (addOffset_does (.inr trivial) ⟨rfl, rfl⟩) ?_
  rintro stop w₂ ⟨rfl, rfl⟩
  exact Spends.before (bindThrough_spends hw₁ hs hn) fun _ =>
    Attempt.Frugal.always (updateRecord_frugal s _)

/-- A new file takes what its length needs, besides the header that was set aside. -/
theorem create_spends (hs : s ∈ S.spare) :
    Spends (Stores total) (create (n := n) s length parent) S (treeSize length) := by
  refine Spends.lift fun w hw => ?_
  have hfirst : treeSize (min length sectorSize) = 1 := treeSize_of_short (Nat.min_le_right ..)
  have hlong : treeSize (min length sectorSize) ≤ treeSize length := treeSize_mono (Nat.min_le_left ..)
  rw [show treeSize length = 1 + (treeSize length - treeSize (min length sectorSize)) by omega]
  refine Spends.andThen allocate_spends (allocate_setAside hw.forest) ?_
  rintro start w₁ ha
  refine Spends.afterAlways (Frugal.onCache _) (head_does ha hs) ?_
  rintro - _ ⟨w₂, ha₂, hzero, rfl⟩
  obtain ⟨T, hT⟩ : ∃ T, T = S.plant s ⟨parent, List.replicate (min length sectorSize) 0⟩ := ⟨_, rfl⟩
  have hw₂ : Keeps _ _ T := hT ▸ hw.headed hs ha₂ hzero (Nat.min_le_right length sectorSize)
  have hin : s ∈ T.live := hT ▸ .inl rfl
  have hbytes : (T.bytes s).length = min length sectorSize := by
    simp only [hT, Shelf.bytes, Shelf.plant, Function.update_self, List.length_replicate]
  split
  · refine Spends.afterAlways (open_frugal s) ((open_stores hin).lower hw₂) ?_
    rintro - w₃ ⟨-, hw₃, rfl⟩
    have hgrow : Spends Shows (grow (n := n) s length 0) w₃ _ :=
      grow_spends hw₃ hin (T.node_opened s)
    rw [Nat.zero_add, show (T.opened s).bytes s = T.bytes s from rfl, hbytes] at hgrow
    exact Spends.thenAlways (Spends.onRefusal hgrow) (close_frugal s)
  · exact Spends.frugal (Attempt.Frugal.pure ())

end Inode

/-! ### Directories -/

/-- The length of a directory with these slots once it has one more name. -/
def lengthWithOne (es : List Entry) : Nat := max es.length (es.countP (·.isInUse) + 1) * entrySize

/-- What a directory takes for one more name. -/
def Shelf.entryCost (S : Shelf) (d : Sector) : Nat :=
  treeSize (lengthWithOne (S.slots d)) - treeSize (S.bytes d).length

namespace Directory

open Attempt

variable {S : Shelf} {d target : Sector} {nd : Node} {name : String} {isDir : Bool}

theorem create_spends {s parent : Sector} {slots : Nat} (hs : s ∈ S.spare)
    (hword : slots * entrySize < offsetLimit) :
    Spends (Stores total) (create (n := n) s slots parent) S (treeSize (slots * entrySize)) := by
  have hlength : checkOffset (slots * entrySize) = .ok (slots * entrySize) := if_pos hword
  refine Spends.afterAlways (Frugal.ofExcept _) (p := fun length S' =>
    length = slots * entrySize ∧ S' = S) (Does.ofExcept hlength ⟨rfl, rfl⟩) ?_
  rintro length S' ⟨rfl, rfl⟩
  exact Inode.create_spends hs

/-- A name takes what its slot needs, which is behind the others only if all are in use. -/
theorem add_spends (hd : d ∈ S.live) (hn : S.node d = some nd) (hallowed : nd.denials = 0)
    (hwhole : entrySize ∣ (S.bytes d).length) :
    Spends (Stores total) (add (n := n) d name target isDir) S (S.entryCost d) := by
  unfold add
  cases hname : isValidName name with
  | false => exact Spends.refuse nofun
  | true =>
    refine Spends.afterAlways (lookup_frugal d name) (lookup_does hd hn) ?_
    rintro (- | found) S' ⟨rfl, -⟩
    · refine Spends.afterAlways (freeOffset_frugal d) (freeOffset_does hd hn hwhole) ?_
      rintro offset S' ⟨rfl, i, rfl, hi⟩
      have hmake : Entry.make name target isDir = .ok _ := Entry.make_eq_ok hname
      refine Spends.afterAlways (Frugal.ofExcept _) (p := fun e S₁ => e = _ ∧ S₁ = S')
        (Does.ofExcept hmake ⟨rfl, rfl⟩) ?_
      rintro e S₁ ⟨rfl, rfl⟩
      have hlen : i < (putSlot (S₁.slots d) i Entry.empty).length :=
        (List.getElem?_eq_some_iff.mp ((getElem?_putSlot hi.le).trans (if_pos rfl))).1
      rw [hi.length_putSlot] at hlen
      refine Spends.mono (Spends.andFrugal (Inode.writeAt_spends hd hn)
        (writeSlot_tries hd hn hallowed hwhole hi.le (.inr (.inr trivial))) ?_) ?_
      · rintro k S₂ ⟨rfl, -⟩
        exact Attempt.Frugal.pure ()
      · rw [Entry.length_toBytes]
        refine Nat.sub_le_sub_right (treeSize_mono ?_) _
        rw [lengthWithOne, ← Nat.succ_mul]
        exact Nat.mul_le_mul_right entrySize hlen
    · exact Spends.refuse nofun

end Directory

/-! ### Creating -/

namespace Namespace

open Volume Attempt

variable {S : Shelf} {s d cwd : Sector} {new : NewNode} {name path : String} {p : List String}

theorem make_spends (hs : s ∈ S.spare) :
    Spends (Stores total) (new.make (n := n) s d) S (treeSize new.length) := by
  cases new with
  | file size => exact Inode.create_spends hs
  | directory => exact Directory.create_spends hs (by decide)

/-- A new node takes its sectors and what its name needs. -/
theorem createIn_spends (hS : Settled S) {q : List String} (hq : S.tree q = some (d, true)) :
    Spends (Stores total) (createIn (n := n) d name new) (S.opened d)
      (footprint new.length + S.entryCost d) := by
  have hd := hS.listed hq
  rw [show footprint new.length + S.entryCost d = 1 + (treeSize new.length + S.entryCost d) by
    rw [footprint, Nat.add_comm (treeSize new.length) 1, Nat.add_assoc]]
  refine Spends.andThen (Spends.lift fun w _ => Inode.allocate_spends) Inode.allocate_stores ?_
  rintro s S₁ ⟨hfresh, hlive, rfl⟩
  refine Spends.andThen (Spends.onRefusal (make_spends (.inl rfl)))
    (makeIn_tries hfresh hS.spare (.inr fun _ => trivial)) ?_
  rintro - S₁ rfl
  obtain ⟨P, hP⟩ : ∃ P, P = S.plant s ⟨d, List.replicate new.length 0⟩ := ⟨_, rfl⟩
  have hbytes : (P.opened d).bytes d = S.bytes d :=
    hP ▸ Shelf.bytes_plant fun heq => hlive (heq ▸ hd.live)
  have hcost : (P.opened d).entryCost d = S.entryCost d := by
    rw [Shelf.entryCost, Shelf.entryCost, Shelf.slots, Shelf.slots, hbytes]
  have hdP : P.Listed d := hP ▸ hd.plant hlive
  rw [← hP, ← hcost]
  exact Spends.onRefusal (Directory.add_spends (S := P.opened d) hdP.live (P.node_opened d)
    hdP.writable hdP.whole)

/-- Creating takes the sectors of the new node and what the directory needs for one more name. -/
theorem createNode_spends {q : List String} (hS : Settled S) (hc : S.tree p = some (cwd, true))
    (hplace : S.tree.placeFor p path = .ok (name :: q)) (hq : S.tree q = some (d, true)) :
    Spends (Stores total) (createNode (n := n) path cwd new) S
      (footprint new.length + S.entryCost d) := by
  unfold createNode
  unfold Tree.placeFor at hplace
  cases hsplit : Path.parentFile path with
  | none =>
    rw [hsplit] at hplace
    cases hplace
  | some split =>
    obtain ⟨dir, last⟩ := split
    rw [hsplit] at hplace
    dsimp only at hplace ⊢
    by_cases hbad : (!isValidName last || decide (last = ".") || decide (last = "..")) = true
    · simp only [if_pos hbad] at hplace
      cases hplace
    · simp only [if_neg hbad] at hplace ⊢
      refine Spends.after (openParent_frugal dir cwd) (openParent_tries hS hc) ?_
      rintro d' S₁ ⟨q', hparent, hq', rfl⟩
      rw [Tree.placeIn_directory last hparent hq'] at hplace
      obtain ⟨rfl, rfl⟩ := List.cons.inj (Except.ok.inj hplace)
      rw [hq] at hq'
      obtain ⟨rfl, -⟩ := Prod.mk.inj (Option.some.inj hq')
      exact Spends.thenAlways (createIn_spends hS hq) (Inode.close_frugal d)

end Namespace

/-! ### Formatting -/

namespace Volume

variable {v : Volume n} {device : Device} {options : MountOptions}

theorem Shows.freeCount_unwritten {c : Cache n} (hv : v.Shows (unwritten c total).view)
    (hlimit : total < sectorLimit) (hroom : FreeMap.reserved total ≤ total) :
    v.map.freeCount + FreeMap.reserved total = total := by
  have hused : ∀ i < total, (unwritten c total).map.isUsed i = true ↔
      i < FreeMap.reserved total ∨ i ∈ ([] : List Nat) := fun i hi => by
    rw [unwritten, FreeMap.isUsed_ofReserved (Nat.lt_of_lt_of_le hi (le_mapBits total))]
    simp
  have hall := FreeMap.freeCount_add (m := (unwritten c total).map) rfl hroom hused
    (fun _ hi => absurd hi List.not_mem_nil) List.nodup_nil
  rw [hv.freeCount, ← freeCount_eq (unwritten c total) hlimit]
  exact hall

/-- A fresh root takes one sector, since its header has the first one. -/
theorem formatWith_room {v : Volume n} (hn : 0 < n) (hd : device.Sound)
    (hlimit : device.blockCount < sectorLimit)
    (hroom : FreeMap.reserved device.blockCount < device.blockCount)
    (hrun : formatWith n device = .ok (.ok v)) :
    device.blockCount ≤ v.map.freeCount + FreeMap.reserved device.blockCount + 1 := by
  obtain ⟨v₀, c, hassemble, hv₀⟩ := assemble_format hn hd hlimit hroom
  have hroot : Spends (Stores device.blockCount) (makeRoot (n := n)) .unmade
      (treeSize (rootSlots * entrySize)) :=
    Spends.before (Directory.create_spends rfl (by decide)) fun _ =>
      Attempt.Frugal.always (Frugal.onCache _)
  have hspent := hroot v₀ ⟨_, hv₀, keeps_unwritten c hroom⟩
  have hfree := hv₀.freeCount_unwritten hlimit (Nat.le_of_lt hroom)
  simp only [formatWith, hassemble, bind, Except.bind] at hrun
  cases hmake : makeRoot.run v₀ with
  | error e v' =>
    rw [hmake] at hrun
    cases hrun
  | ok answer v' =>
    have hcost := hspent.of_ok hmake
    rw [hmake] at hrun
    cases answer with
    | error why => cases hrun
    | ok _ =>
      cases hrun
      change v₀.map.freeCount ≤ v.map.freeCount + treeSize (rootSlots * entrySize) at hcost
      rw [treeSize_of_short (by decide)] at hcost
      omega

theorem mount_room {v : Volume cacheCapacity} (hd : device.Sound)
    (hlimit : device.blockCount < sectorLimit)
    (hroom : FreeMap.reserved device.blockCount < device.blockCount)
    (hformat : options.format = true) (hrun : mount device options = .ok (.ok v)) :
    device.blockCount ≤ v.map.freeCount + FreeMap.reserved device.blockCount + 1 := by
  rw [mount_eq_fresh hformat, fresh] at hrun
  obtain ⟨v₀, hv₀, -⟩ := formatWith_eq_ok (n := cacheCapacity) (by decide) hd hlimit hroom
  have hfree := formatWith_room (by decide) hd hlimit hroom hv₀
  rw [hv₀] at hrun
  cases hrun
  cases options.background <;> exact hfree

end Volume

end TieredVolume
