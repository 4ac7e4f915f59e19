import Mathlib.Order.Lattice.Nat
import TieredVolume.Proofs.Mount
import TieredVolume.Proofs.Inode.Capacity
import TieredVolume.Proofs.Namespace.Turns

/-!
A directory as a map from names to inodes, with the slots in which its names are. A catalog records
what was put into the directory and not taken out again, and how many names were in it at once.
Whatever was done to the directory, its slots are as the catalog says, and so is every answer: a new
name goes into the lowest slot that no name is in, and there never are more slots than there were at
first or were needed at once.
-/
namespace TieredVolume

variable {total n count : Nat} {S S' : Shelf} {v v' : Volume n} {d target : Sector} {nd : Node}
  {es es' : List Entry} {e e' : Entry} {i j k : Nat} {bytes old new : Bytes} {name : String}
  {isDir : Bool} {check : Entry → Node → Except Refusal Unit}

/-! ### The bytes of a slot -/

def slotBytes (bytes : Bytes) (i : Nat) : Bytes := (bytes.drop (i * entrySize)).take entrySize

theorem slotBytes_eq (hwhole : entrySize ∣ bytes.length) :
    slotBytes bytes i = ((slotsOf bytes)[i]?).elim [] Entry.toBytes := by
  have hspells : Entry.ofBytes? (slotBytes bytes i) = (slotsOf bytes)[i]? := ofBytes?_slot
  by_cases hlen : (slotBytes bytes i).length = 32
  · rw [← hspells, Entry.ofBytes?, dif_pos hlen, Option.elim_some, Entry.toBytes_ofBytes]
    rfl
  · rw [← hspells, Entry.ofBytes?, dif_neg hlen, Option.elim_none, ← List.length_eq_zero_iff]
    simp only [slotBytes, List.length_take, List.length_drop, entrySize] at hlen hwhole ⊢
    omega

/-- One slot was written, or another one appended; the others are as they were. -/
structure Rewrote (old : Bytes) (i : Nat) (e : Entry) (new : Bytes) : Prop where
  written : slotBytes new i = e.toBytes
  others : ∀ k, k ≠ i → slotBytes new k = slotBytes old k
  length : new.length = if i * entrySize < old.length then old.length else old.length + entrySize

theorem Slotted.rewrote (h : Slotted old i e new) (hwhole : entrySize ∣ old.length)
    (hi : i ≤ (slotsOf old).length) : Rewrote old i e new where
  written := by
    rw [slotBytes_eq h.whole, h.slots, getElem?_putSlot hi, if_pos rfl, Option.elim_some]
  others := fun k hk => by
    rw [slotBytes_eq h.whole, slotBytes_eq hwhole, h.slots, getElem?_putSlot hi, if_neg hk]
  length := by
    have hold := length_slots_mul hwhole
    rw [← length_slots_mul h.whole, h.slots, putSlot, ← hold]
    by_cases hlt : i < (slotsOf old).length
    · rw [if_pos hlt, List.length_set, if_pos (Nat.mul_lt_mul_of_pos_right hlt (by decide))]
    · rw [if_neg hlt, List.length_append, List.length_singleton, Nat.succ_mul,
        if_neg (Nat.not_lt.mpr (Nat.mul_le_mul_right _ (Nat.not_lt.mp hlt)))]

namespace Directory

/-! ### Catalogs -/

/-- What a name was added for, and where. -/
structure Listed where
  sector : Sector
  isDir : Bool
  slot : Nat

/-- What was added to a directory and not taken out again. -/
structure Catalog where
  listed : String → Option Listed := fun _ => none
  /-- How many names are in the directory. -/
  used : Nat := 0
  /-- How many names there were at most at any time. -/
  peak : Nat := 0

namespace Catalog

/-- The lowest slot that no name is in. -/
noncomputable def free (c : Catalog) : Nat :=
  sInf {i | ∀ name l, c.listed name = some l → l.slot ≠ i}

def put (c : Catalog) (name : String) (l : Listed) : Catalog where
  listed := Function.update c.listed name (some l)
  used := c.used + 1
  peak := max c.peak (c.used + 1)

def take (c : Catalog) (name : String) : Catalog :=
  { c with listed := Function.update c.listed name none, used := c.used - 1 }

theorem listed_put (c : Catalog) (name m : String) (l : Listed) :
    (c.put name l).listed m = if m = name then some l else c.listed m := Function.update_apply ..

theorem listed_take (c : Catalog) (name m : String) :
    (c.take name).listed m = if m = name then none else c.listed m := Function.update_apply ..

/-- The catalog after an event. What was refused is not recorded. -/
noncomputable def next (c : Catalog) : Event → Catalog
  | .add name target isDir (.ok _) => c.put name ⟨target, isDir, c.free⟩
  | .add _ _ _ (.error _) => c
  | .remove name (.ok _) => c.take name
  | .remove _ (.error _) => c
  | .other => c

/-- The slots of a directory that had `count` of them at first are as the catalog says. -/
structure Lists (count : Nat) (c : Catalog) (es : List Entry) : Prop where
  listed : ∀ name l, c.listed name = some l ↔ ∃ i e, es[i]? = some e ∧ e.isInUse = true ∧
    e.name = name ∧ l = ⟨e.sector, e.isDir, i⟩
  used : es.countP (·.isInUse) = c.used
  peak : c.used ≤ c.peak
  length : es.length = max count c.peak

variable {c : Catalog}

theorem lists_empty (count : Nat) : Lists count {} (List.replicate count Entry.empty) where
  listed := fun name l => ⟨nofun, by
    rintro ⟨i, e, he, hu, -⟩
    rw [List.eq_of_mem_replicate (List.mem_of_getElem? he), Entry.isInUse_empty] at hu
    cases hu⟩
  used := countP_empty count
  peak := Nat.le_refl 0
  length := by rw [List.length_replicate, Nat.max_zero]

namespace Lists

variable (h : Lists count c es)

include h

theorem listed_of_used (he : es[i]? = some e) (hu : e.isInUse = true) :
    c.listed e.name = some ⟨e.sector, e.isDir, i⟩ := (h.listed _ _).mpr ⟨i, e, he, hu, rfl, rfl⟩

theorem unique (he : es[i]? = some e) (he' : es[j]? = some e') (hu : e.isInUse = true)
    (hu' : e'.isInUse = true) (hname : e.name = e'.name) : i = j := by
  have hsame := (h.listed_of_used he hu).symm.trans (hname ▸ h.listed_of_used he' hu')
  exact congrArg Listed.slot (Option.some.inj hsame)

theorem listed_eq_none : c.listed name = none ↔ findSlot es name = none := by
  rw [findSlot_eq_none_iff, Option.eq_none_iff_forall_ne_some]
  constructor
  · rintro hnone i e he hu rfl
    exact hnone _ (h.listed_of_used he hu)
  · intro hnone l hl
    obtain ⟨i, e, he, hu, hname, -⟩ := (h.listed name l).mp hl
    exact hnone i e he hu hname

theorem free_eq (hi : FirstFree es i) : c.free = i := by
  refine IsLeast.csInf_eq ⟨fun name l hl hslot => ?_, fun k hk => Nat.le_of_not_lt fun hlt => ?_⟩
  · obtain ⟨j, e, he, hu, -, rfl⟩ := (h.listed name l).mp hl
    rw [hi.free e (hslot ▸ he)] at hu
    cases hu
  · obtain ⟨e, he⟩ : ∃ e, es[k]? = some e :=
      ⟨_, List.getElem?_eq_getElem (Nat.lt_of_lt_of_le hlt hi.le)⟩
    exact hk _ _ (h.listed_of_used he (hi.before k e hlt he)) rfl

theorem put (hi : FirstFree es i) (hu : e.isInUse = true) (hnew : findSlot es e.name = none) :
    Lists count (c.put e.name ⟨e.sector, e.isDir, c.free⟩) (putSlot es i e) where
  listed := fun name l => by
    rw [h.free_eq hi, listed_put]
    by_cases hname : name = e.name
    · rw [if_pos hname, Option.some.injEq]
      constructor
      · rintro rfl
        exact ⟨i, e, (getElem?_putSlot hi.le).trans (if_pos rfl), hu, hname.symm, rfl⟩
      · rintro ⟨k, e', hk, hu', hname', rfl⟩
        rcases putSlot_cases hi.le hk with ⟨rfl, rfl⟩ | ⟨-, hk⟩
        · rfl
        · exact absurd (hname'.trans hname) (findSlot_eq_none_iff.mp hnew k e' hk hu')
    · rw [if_neg hname, h.listed]
      constructor
      · rintro ⟨k, e', hk, hu', hname', rfl⟩
        have hki : k ≠ i := fun hki => by
          rw [hi.free e' (hki ▸ hk)] at hu'
          cases hu'
        exact ⟨k, e', ((getElem?_putSlot hi.le).trans (if_neg hki)).trans hk, hu', hname', rfl⟩
      · rintro ⟨k, e', hk, hu', hname', rfl⟩
        rcases putSlot_cases hi.le hk with ⟨-, rfl⟩ | ⟨-, hk⟩
        · exact absurd hname'.symm hname
        · exact ⟨k, e', hk, hu', hname', rfl⟩
  used := by rw [countP_putSlot hi.free hu, h.used, Catalog.put]
  peak := Nat.le_max_right ..
  length := by
    rw [hi.length_putSlot, h.used, h.length, Catalog.put, Nat.max_assoc]

theorem take (hfound : FoundAt es name i e) (hgone : e'.isInUse = false) :
    Lists count (c.take name) (putSlot es i e') where
  listed := fun name' l => by
    have hi := Nat.le_of_lt (List.getElem?_eq_some_iff.mp hfound.slot).1
    rw [listed_take]
    by_cases hname : name' = name
    · rw [if_pos hname]
      refine ⟨nofun, ?_⟩
      rintro ⟨k, e₁, hk, hu, hname', rfl⟩
      obtain ⟨hki, hk⟩ := used_putSlot hi hgone hk hu
      exact absurd (h.unique hk hfound.slot hu hfound.used
        (hname'.trans (hname.trans hfound.named.symm))) hki
    · rw [if_neg hname, h.listed]
      constructor
      · rintro ⟨k, e₁, hk, hu, hname', rfl⟩
        have hki : k ≠ i := fun hki => by
          rw [hki, hfound.slot] at hk
          exact hname (by rw [← hname', ← Option.some.inj hk, hfound.named])
        exact ⟨k, e₁, ((getElem?_putSlot hi).trans (if_neg hki)).trans hk, hu, hname', rfl⟩
      · rintro ⟨k, e₁, hk, hu, hname', rfl⟩
        exact ⟨k, e₁, (used_putSlot hi hgone hk hu).2, hu, hname', rfl⟩
  used := by
    obtain ⟨hlt, rfl⟩ := List.getElem?_eq_some_iff.mp hfound.slot
    rw [putSlot, if_pos hlt, List.countP_set hlt, if_pos hfound.used, if_neg (by rw [hgone]; nofun),
      h.used, Nat.add_zero, Catalog.take]
  peak := (Nat.sub_le ..).trans h.peak
  length := by
    have hlt := (List.getElem?_eq_some_iff.mp hfound.slot).1
    rw [putSlot, if_pos hlt, List.length_set, h.length, Catalog.take]

theorem next {event : Event} (hedit : Edits event es es') : Lists count (c.next event) es' := by
  cases hedit with
  | add hname hnew hi he =>
    have hput := h.put hi (Entry.isInUse_make hname he) (Entry.name_make hname he ▸ hnew)
    rwa [Entry.name_make hname he, Entry.sector_make hname he, Entry.isDir_make hname he] at hput
  | remove hfound => exact h.take hfound (Entry.isInUse_tombstone _)
  | refuse => exact h
  | keep => exact h
  | other => exact h

end Lists

theorem Lists.hasRoom (h : Lists count c (slotsOf bytes)) (hwhole : entrySize ∣ bytes.length)
    (hroom : c.used < maxSectors * 16) : HasRoom bytes := by
  by_cases hall : ∀ e ∈ slotsOf bytes, e.isInUse = true
  · have hused : (slotsOf bytes).length = c.used :=
      (List.countP_eq_length.mpr hall).symm.trans h.used
    have hlen := length_slots_mul hwhole
    rw [hused] at hlen
    simp only [entrySize, maxSectors, sectorSize, HasRoom] at hroom hlen ⊢
    exact .inr (by omega)
  · obtain ⟨e, he, hu⟩ := not_forall₂.mp hall
    exact .inl ⟨e, he, Bool.not_eq_true _ ▸ hu⟩

end Catalog

/-! ### Whatever is done -/

/-- A directory that was made with `count` slots, whatever was done to it since. -/
inductive Recorded (total : Nat) (d : Sector) (count : Nat) : Shelf → Catalog → Volume n → Prop
  | made {S : Shelf} {v v' : Volume n} {parent : Sector} (hv : Stores total v S) (hc : S.Counted)
      (hd : d ∈ S.spare) (hrun : (create d count parent).run v = .ok (.ok ()) v') :
      Recorded total d count (S.plant d ⟨parent, List.replicate (count * entrySize) 0⟩) {} v'
  | turn {S S' : Shelf} {c : Catalog} {v v' : Volume n} {event : Event}
      (h : Recorded total d count S c v) (hturn : Turn total d S v event S' v') :
      Recorded total d count S' (c.next event) v'

theorem Recorded.lists {c : Catalog} (h : Recorded total d count S c v) :
    Tended total d S v ∧ c.Lists count (S.slots d) := by
  induction h with
  | @made S v v' parent hv hc hd hrun =>
    have hcreate : Tries (Stores total) anyFault (create (n := n) d count parent) S _ _ :=
      create_tries hd (.inr trivial) (.inr trivial)
    obtain ⟨T, hv', rfl⟩ := Does.of_ok hcreate hv hrun
    have hbytes : (S.plant d ⟨parent, List.replicate (count * entrySize) 0⟩).bytes d =
        List.replicate (count * entrySize) 0 := by
      simp only [Shelf.bytes, Shelf.plant, Function.update_self]
    have hslots : (S.plant d ⟨parent, List.replicate (count * entrySize) 0⟩).slots d =
        List.replicate count Entry.empty := by rw [Shelf.slots, hbytes, slotsOf_zeros]
    have hfree : ∀ e ∈ List.replicate count Entry.empty, ¬ e.isInUse = true := fun e he => by
      rw [List.eq_of_mem_replicate he, Entry.isInUse_empty]
      exact Bool.false_ne_true
    rw [hslots]
    refine ⟨⟨hv', hc, .inl rfl, ?_, ?_, ?_⟩, Catalog.lists_empty count⟩
    · rw [hbytes, List.length_replicate]
      exact Nat.dvd_mul_left ..
    · rw [hslots]
      exact fun e he hu => absurd hu (hfree e he)
    · rw [hslots]
      exact fun _ _ e _ he _ hu => absurd hu (hfree e (List.mem_of_getElem? he))
  | turn _ hturn ih =>
    obtain ⟨htended, hedit⟩ := hturn.step ih.1
    exact ⟨htended, ih.2.next hedit⟩

/-- How adding a name is answered, and what becomes of the bytes of the directory: refused, they stay
as they are; else one slot is written, the first that is not in use or the one behind the last. -/
structure AddsTo (c : Catalog) (old new : Bytes) (name : String) (target : Sector) (isDir : Bool)
    (answer : Except Refusal Unit) : Prop where
  invalid : answer = .error .invalidName ↔ isValidName name = false
  present : answer = .error .alreadyExists ↔ isValidName name = true ∧ c.listed name ≠ none
  full : answer = .error .noSpace → ∀ e ∈ slotsOf old, e.isInUse = true
  refused : ∀ why, answer = .error why →
    (why = .invalidName ∨ why = .alreadyExists ∨ why = .noSpace) ∧ new = old
  added : answer = .ok () → FirstFree (slotsOf old) c.free ∧
    ∃ e, Entry.make name target isDir = .ok e ∧ Rewrote old c.free e new

/-- How taking out a name is answered, and what becomes of the bytes of the directory: refused, they
stay as they are; else the slot of the name becomes a tombstone. -/
structure TakesFrom (S : Shelf) (c : Catalog) (old new : Bytes) (name : String)
    (check : Entry → Node → Except Refusal Unit) (answer : Except Refusal Unit) : Prop where
  absent : c.listed name = none → answer = .error .notFound ∧ new = old
  present : ∀ l, c.listed name = some l → ∃ e, (slotsOf old)[l.slot]? = some e ∧
    e.isInUse = true ∧ e.name = name ∧ e.sector = l.sector ∧ e.isDir = l.isDir ∧
    (answer = .ok () ↔ S.MayGo check e) ∧
    (answer = .ok () → Rewrote old l.slot e.tombstone new) ∧
    ∀ why, answer = .error why → S.MustStay check e why ∧ new = old

/-- A directory that was made with `count` slots is as the catalog says, and so are its answers. A
name is only added if there is a slot left for it. -/
structure Conforms (d : Sector) (count : Nat) (S : Shelf) (c : Catalog) (v : Volume n) : Prop where
  distinct : ∀ (i j : Nat) (e e' : Entry), (slotsOf (v.bytesOf d))[i]? = some e →
    (slotsOf (v.bytesOf d))[j]? = some e' → e.isInUse = true → e'.isInUse = true →
    e.name = e'.name → i = j
  used : (slotsOf (v.bytesOf d)).countP (·.isInUse) = c.used
  size : (v.bytesOf d).length = max count c.peak * entrySize
  length : ∃ v', Inode.length d v = .ok (max count c.peak * entrySize) v'
  lookup : ∀ name, ∃ found v', lookup d name v = .ok found v' ∧
    found.map (fun x => (x.1.sector, x.1.isDir, x.2)) =
      (c.listed name).map fun l => (l.sector, l.isDir, l.slot * entrySize)
  add : ∀ name target isDir,
    (isValidName name = true → c.listed name = none → c.used < maxSectors * 16) →
    ∃ answer v', (add d name target isDir).run v = .ok answer v' ∧
      AddsTo c (v.bytesOf d) (v'.bytesOf d) name target isDir answer
  remove : ∀ name check, ∃ answer v', (removeIf d name check).run v = .ok answer v' ∧
    TakesFrom S c (v.bytesOf d) (v'.bytesOf d) name check answer

section

variable {c : Catalog} (h : Tended total d S v) (hl : c.Lists count (S.slots d))
  (hn : S.node d = some nd)

include h hl hn

theorem lookup_listed : ∃ found v', lookup d name v = .ok found v' ∧
    found.map (fun x => (x.1.sector, x.1.isDir, x.2)) =
      (c.listed name).map fun l => (l.sector, l.isDir, l.slot * entrySize) := by
  have hlookup : Does (Stores total) never (lookup (n := n) d name) S _ := lookup_does h.live hn
  obtain ⟨found, v', hok, T, hv', -, hfound⟩ := (hlookup v h.stores).ok_of_never
  refine ⟨found, v', hok, ?_⟩
  rcases found with - | ⟨e, offset⟩
  · rw [hl.listed_eq_none.mpr hfound]
    rfl
  · obtain ⟨i, rfl, he, hu, rfl, -⟩ := hfound
    rw [hl.listed_of_used he hu]
    rfl

theorem add_answers (hallowed : nd.denials = 0)
    (hroom : isValidName name = true → c.listed name = none → c.used < maxSectors * 16) :
    ∃ answer v', (add d name target isDir).run v = .ok answer v' ∧
      AddsTo c (v.bytesOf d) (v'.bytesOf d) name target isDir answer := by
  have hadd : Tries (Stores total) never (add (n := n) d name target isDir) S _ _ :=
    add_slot_tries h.live hn hallowed h.whole fun hname hnew =>
      .inl (hl.hasRoom h.whole (hroom hname (hl.listed_eq_none.mpr hnew)))
  obtain ⟨answer, v', hok, T, hv', hpost⟩ := (hadd v h.stores).ok_of_never
  refine ⟨answer, v', hok, ?_⟩
  rw [h.stores.bytesOf_eq h.live]
  rcases answer with why | ⟨⟩
  · obtain ⟨rfl, hwhy⟩ := hpost
    rw [hv'.bytesOf_eq h.live]
    rcases hwhy with ⟨rfl, hname⟩ | ⟨rfl, hname, hfound⟩ | ⟨rfl, hname, hnew, hall⟩
    · exact ⟨by simp [hname], by simp [hname], nofun, by rintro _ ⟨⟩; exact ⟨.inl rfl, rfl⟩, nofun⟩
    · have hlisted := mt hl.listed_eq_none.mp hfound
      exact ⟨by simp [hname], by simp [hname, hlisted], nofun,
        by rintro _ ⟨⟩; exact ⟨.inr (.inl rfl), rfl⟩, nofun⟩
    · have hlisted := hl.listed_eq_none.mpr hnew
      exact ⟨by simp [hname], by simp [hlisted], fun _ => hall,
        by rintro _ ⟨⟩; exact ⟨.inr (.inr rfl), rfl⟩, nofun⟩
  · obtain ⟨hname, hnew, i, e, bytes, hi, he, hslotted, rfl⟩ := hpost
    have hlisted := hl.listed_eq_none.mpr hnew
    rw [hv'.bytesOf_eq h.live, S.bytes_setBytes]
    refine ⟨by simp [hname], by simp [hlisted], nofun, nofun, fun _ => ?_⟩
    rw [hl.free_eq hi]
    exact ⟨hi, e, he, hslotted.rewrote h.whole hi.le⟩

theorem remove_answers (hallowed : nd.denials = 0) :
    ∃ answer v', (removeIf d name check).run v = .ok answer v' ∧
      TakesFrom S c (v.bytesOf d) (v'.bytesOf d) name check answer := by
  have hremove : Tries (Stores total) never (removeIf (n := n) d name check) S _ _ :=
    removeIf_slot_tries h.live hn h.whole h.counted fun _ _ => h.of_findSlot
  obtain ⟨answer, v', hok, T, hv', hpost⟩ := (hremove v h.stores).ok_of_never
  refine ⟨answer, v', hok, ?_⟩
  rw [h.stores.bytesOf_eq h.live]
  have hslot : ∀ {i e l}, FoundAt (S.slots d) name i e → c.listed name = some l →
      l = ⟨e.sector, e.isDir, i⟩ := fun hfound hlisted => by
    rw [← hfound.named, hl.listed_of_used hfound.slot hfound.used] at hlisted
    exact (Option.some.inj hlisted).symm
  rcases answer with why | ⟨⟩
  · obtain ⟨rfl, hwhy⟩ := hpost
    rw [hv'.bytesOf_eq h.live]
    rcases hwhy with ⟨rfl, hnone⟩ | ⟨i, e, hfound, hstay⟩
    · refine ⟨fun _ => ⟨rfl, rfl⟩, fun l hlisted => ?_⟩
      rw [hl.listed_eq_none.mpr hnone] at hlisted
      cases hlisted
    · refine ⟨fun hnone => ?_, fun l hlisted => ?_⟩
      · rw [hl.listed_eq_none, hfound.find] at hnone
        cases hnone
      · obtain rfl := hslot hfound hlisted
        exact ⟨e, hfound.slot, hfound.used, hfound.named, rfl, rfl,
          ⟨by rintro ⟨⟩, fun hgo => absurd hstay hgo.not_mustStay⟩, by rintro ⟨⟩,
          by rintro _ ⟨⟩; exact ⟨hstay, rfl⟩⟩
  · obtain ⟨i, e, hfound, hgo, bytes, hcleared, rfl⟩ := hpost
    rw [Cleared, if_neg (by omega)] at hcleared
    have htended := h.removed hv' hcleared hfound.slot hfound.used
    rw [hv'.bytesOf_eq htended.live, S.bytes_setBytes_removed]
    refine ⟨fun hnone => ?_, fun l hlisted => ?_⟩
    · rw [hl.listed_eq_none, hfound.find] at hnone
      cases hnone
    · obtain rfl := hslot hfound hlisted
      exact ⟨e, hfound.slot, hfound.used, hfound.named, rfl, rfl, ⟨fun _ => hgo, fun _ => rfl⟩,
        fun _ => hcleared.rewrote h.whole
          (Nat.le_of_lt (List.getElem?_eq_some_iff.mp hfound.slot).1), by rintro _ ⟨⟩⟩

end

/-- Whatever names were added to a directory and taken out of it, with success or refused, it is the
map that its catalog says, with as many slots as it was made with or had to hold at once; and the
next call is answered by the catalog, and rewrites no slot but the one of its name. -/
theorem Recorded.conforms {c : Catalog} (h : Recorded total d count S c v)
    (hn : S.node d = some nd) (hallowed : nd.denials = 0) : Conforms d count S c v := by
  obtain ⟨htended, hlists⟩ := h.lists
  have hbytes := htended.stores.bytesOf_eq htended.live
  have hsize : (S.bytes d).length = max count c.peak * entrySize := by
    rw [← hlists.length]
    exact (length_slots_mul htended.whole).symm
  refine ⟨?_, ?_, hbytes ▸ hsize, ?_, fun name => lookup_listed htended hlists hn,
    fun name target isDir => add_answers htended hlists hn hallowed,
    fun name check => remove_answers htended hlists hn hallowed⟩
  · rw [hbytes]
    exact fun i j e e' => hlists.unique
  · rw [hbytes]
    exact hlists.used
  · have hlength : Does (Stores total) never (Inode.length (n := n) d) S _ :=
      Inode.length_does htended.live hn
    obtain ⟨k, v', hok, -, -, rfl, -⟩ := (hlength v htended.stores).ok_of_never
    exact ⟨v', hsize ▸ hok⟩

/-! ### A directory on a new volume -/

theorem exists_spare (hv : Stores total v S) (hroom : ¬ Crowded total S.live S.spare) :
    ∃ (s : Sector) (v' : Volume n), s ∉ S.live ∧
      Stores total v' { S with spare := insert s S.spare } := by
  have hallocate : Tries (Stores total) never (Volume.allocate (n := n) 1) S _ _ :=
    Inode.allocate_stores
  obtain ⟨why | s, v', -, T, hv', hpost⟩ := (hallocate v hv).ok_of_never
  · exact absurd hpost.2.1 hroom
  · obtain ⟨-, hlive, rfl⟩ := hpost
    exact ⟨s, v', hlive, hv'⟩

theorem exists_created {parent : Sector} (hv : Stores total v S) (hd : d ∈ S.spare)
    (hshort : count * entrySize ≤ sectorSize) (hroom : ¬ Crowded total S.live S.spare) :
    ∃ v' : Volume n, (create d count parent).run v = .ok (.ok ()) v' ∧
      Stores total v' (S.plant d ⟨parent, List.replicate (count * entrySize) 0⟩) := by
  have hcreate : Tries (Stores total) never (create (n := n) d count parent) S _ _ :=
    create_tries hd (.inl (Nat.lt_of_le_of_lt hshort (by decide)))
      (.inl (hshort.trans (by decide)))
  obtain ⟨why | ⟨⟩, v', hok, T, hv', hpost⟩ := (hcreate v hv).ok_of_never
  · exact absurd (hpost.2.1 hshort) hroom
  · exact ⟨v', hok, hpost ▸ hv'⟩

/-- Two inodes leave room on a volume of this size. -/
theorem not_crowded_two {live spare : Set Sector} (a b c : Sector)
    (hlive : ∀ s ∈ live, s = a ∨ s = b) (hspare : ∀ s ∈ spare, s = c) :
    ¬ Crowded 60000 live spare := by
  have hlive' : ∀ s ∈ live, s ∈ [a, b] := fun s hs => by simpa using hlive s hs
  have hspare' : ∀ s ∈ spare, s ∈ [c] := fun s hs => by simpa using hspare s hs
  refine not_crowded (by decide) hlive' hspare' ?_
  simp only [List.length_cons, List.length_nil]
  decide

/-- A new volume with a directory of one slot that was just made. -/
theorem exists_made : ∃ (S : Shelf) (v : Volume cacheCapacity) (d : Sector),
    Recorded 60000 d 1 S {} v ∧ S.slots d = [Entry.empty] ∧ S.node d = none ∧
      (∀ s ∈ S.live, s = d ∨ s = rootSector) ∧ S.spare = ∅ := by
  have hcount : (Device.memory (MemoryDisk.blank 60000)).blockCount = 60000 := Array.size_replicate
  obtain ⟨v₀, -, hv₀⟩ : ∃ v, Volume.mount (.memory (MemoryDisk.blank 60000)) { format := true } =
      .ok (.ok v) ∧ Stores _ v .blank := Volume.mount_eq_ok trivial (by rw [hcount]; decide)
    (by rw [hcount]; decide) rfl
  rw [hcount] at hv₀
  obtain ⟨d, v₁, hd, hv₁⟩ := exists_spare hv₀ (not_crowded_two rootSector rootSector rootSector
    (fun s hs => .inl hs) fun s hs => hs.elim)
  obtain ⟨v₂, hrun, hv₂⟩ : ∃ v₂, (create d 1 rootSector).run v₁ = .ok (.ok ()) v₂ ∧ Stores _ v₂ _ :=
    exists_created hv₁ (.inl rfl) (by decide) (not_crowded_two rootSector rootSector d
      (fun s hs => .inl hs) fun s hs => hs.resolve_right id)
  refine ⟨_, v₂, d, .made hv₁ nofun (.inl rfl) hrun, ?_, rfl, fun s hs => hs, ?_⟩
  · simp only [Shelf.slots, Shelf.bytes, Shelf.plant, Function.update_self, slotsOf_zeros,
      List.replicate_one]
  · exact Set.insert_sdiff_self_of_notMem fun hs : d ∈ (∅ : Set Sector) => hs

/-- The same, with the directory open and an inode that can be put into it. -/
theorem exists_open : ∃ (S : Shelf) (v : Volume cacheCapacity) (d t : Sector) (nd : Node),
    Recorded 60000 d 1 S {} v ∧ S.slots d = [Entry.empty] ∧ S.node d = some nd ∧ nd.denials = 0 ∧
      S.Fresh d t := by
  obtain ⟨S, v, d, hmade, hslots, hn, hlive, hspare⟩ := exists_made
  have hd := hmade.lists.1.live
  have hunused : ∀ e ∈ S.slots d, ¬ e.isInUse = true := by
    rw [hslots]
    exact fun e he => by rw [List.mem_singleton.mp he]; decide
  have hopen : Does (Stores 60000) never (Inode.open (n := cacheCapacity) d) S _ :=
    Inode.open_stores hd
  obtain ⟨-, v₁, -, _, hv₁, rfl⟩ := (hopen v hmade.lists.1.stores).ok_of_never
  have hempty : ∀ s ∈ (S.opened d).spare, s = d := fun s (hs : s ∈ S.spare) => by
    rw [hspare] at hs
    exact hs.elim
  obtain ⟨t, v₂, ht, hv₂⟩ := exists_spare hv₁ (not_crowded_two d rootSector d hlive hempty)
  obtain ⟨v₃, -, hv₃⟩ : ∃ v₃, (create t 0 d).run v₂ = .ok (.ok ()) v₃ ∧ Stores _ v₃ _ :=
    exists_created hv₂ (.inl rfl) (by decide) (not_crowded_two d rootSector t hlive
      fun s hs => hs.resolve_right fun hs => (hspare ▸ hs : s ∈ (∅ : Set Sector)))
  have hne : d ≠ t := fun heq => ht (heq ▸ hd)
  have hbytes : (Shelf.plant { S.opened d with spare := insert t (S.opened d).spare } t
      ⟨d, List.replicate (0 * entrySize) 0⟩).bytes d = S.bytes d := by
    simp only [Shelf.bytes, Shelf.plant, Function.update_of_ne hne]
    rfl
  have hturn : Turn 60000 d S v .other _ v₃ := .other hv₃ (hmade.lists.1.counted.opened d) (.inr hd)
    hbytes fun e he hu => absurd hu (hunused e he)
  refine ⟨_, v₃, d, t, S.seen d, .turn hmade hturn, ?_, S.node_opened d, ?_, .inl rfl, hne.symm, ?_⟩
  · rw [← hslots, Shelf.slots, Shelf.slots, hbytes]
  · rw [Shelf.seen, hn, Option.getD_none]
  · rw [Shelf.slots, hbytes]
    exact fun e he hu => absurd hu (hunused e he)

/-- The same, with a name in the slot there is. -/
theorem exists_added : ∃ (S : Shelf) (c : Catalog) (v : Volume cacheCapacity) (d t : Sector)
    (nd : Node), Recorded 60000 d 1 S c v ∧ S.node d = some nd ∧ nd.denials = 0 ∧
      c.listed "a" = some ⟨t, true, 0⟩ := by
  obtain ⟨S, v, d, t, nd, hmade, hslots, hn, hallowed, hfresh⟩ := exists_open
  obtain ⟨htended, hlists⟩ := hmade.lists
  obtain ⟨answer, v', hrun, hadds⟩ : ∃ answer v', (add d "a" t true).run v = .ok answer v' ∧
      AddsTo {} (v.bytesOf d) (v'.bytesOf d) "a" t true answer :=
    add_answers htended hlists hn hallowed fun _ _ => by decide
  have hbytes : slotsOf (v.bytesOf d) = [Entry.empty] := by
    rw [htended.stores.bytesOf_eq htended.live]
    exact hslots
  have hok : answer = .ok () := by
    rcases answer with why | ⟨⟩
    · rcases (hadds.refused why rfl).1 with rfl | rfl | rfl
      · exact absurd (hadds.invalid.mp rfl) (by decide)
      · exact absurd rfl (hadds.present.mp rfl).2
      · exact absurd (hadds.full rfl Entry.empty (hbytes ▸ List.mem_singleton_self _)) (by decide)
    · rfl
  subst hok
  have hfree : ({} : Catalog).free = 0 :=
    hlists.free_eq ⟨Nat.zero_le _, fun e he => by rw [hslots] at he; cases he; rfl, nofun⟩
  refine ⟨_, _, v', d, t, nd, .turn hmade (.add hn hallowed hfresh hrun), hn, hallowed, ?_⟩
  rw [Catalog.next, Catalog.listed_put, if_pos rfl, hfree]

theorem Recorded.conforms_one : ∃ (S : Shelf) (c : Catalog) (v : Volume cacheCapacity)
    (d t : Sector) (nd : Node), Recorded 60000 d 1 S c v ∧ S.node d = some nd ∧ nd.denials = 0 ∧
      c.listed "a" = some ⟨t, true, 0⟩ ∧ Conforms d 1 S c v := by
  obtain ⟨S, c, v, d, t, nd, hadded, hn, hallowed, hlisted⟩ := exists_added
  exact ⟨S, c, v, d, t, nd, hadded, hn, hallowed, hlisted, hadded.conforms hn hallowed⟩

end Directory
end TieredVolume
