import TieredVolume.Proofs.Namespace.Directory

/-!
The life of one directory, whoever uses it. Names are added and taken out, with success or refused,
and in between anything else may go on, as long as the directory keeps its bytes and the inodes of
its names. Each turn rewrites one slot, or leaves the slots as they were.
-/
namespace TieredVolume

variable {total n : Nat} {S S' : Shelf} {v v' : Volume n} {d t target : Sector} {nd : Node}
  {es es' : List Entry} {e : Entry} {i : Nat} {bytes : Bytes} {name : String} {isDir : Bool}
  {answer : Except Refusal Unit} {check : Entry → Node → Except Refusal Unit}

/-- The bytes of an inode, as the volume itself shows them. -/
def Volume.bytesOf (v : Volume n) (s : Sector) : Bytes := (v.view.file s).bytes

theorem Stores.bytesOf_eq (hv : Stores total v S) (hd : d ∈ S.live) : v.bytesOf d = S.bytes d :=
  (hv.keeps_view.2.bytes_eq hd).symm

/-! ### Entries with inodes of their own -/

/-- No two entries in use are of one inode. -/
def Apart (es : List Entry) : Prop := ∀ (i j : Nat) (e e' : Entry), es[i]? = some e →
  es[j]? = some e' → e.isInUse = true → e'.isInUse = true → e.sector = e'.sector → i = j

theorem Apart.put (h : Apart es) (hi : i ≤ es.length)
    (hnew : ∀ e' ∈ es, e'.isInUse = true → e'.sector ≠ e.sector) : Apart (putSlot es i e) := by
  intro k l e₁ e₂ hk hl hu₁ hu₂ hsame
  rcases putSlot_cases hi hk with ⟨hki, heq⟩ | ⟨-, hk'⟩
  · rcases putSlot_cases hi hl with ⟨hli, -⟩ | ⟨-, hl'⟩
    · rw [hki, hli]
    · exact absurd (heq ▸ hsame.symm) (hnew e₂ (List.mem_of_getElem? hl') hu₂)
  · rcases putSlot_cases hi hl with ⟨-, heq⟩ | ⟨-, hl'⟩
    · exact absurd (heq ▸ hsame) (hnew e₁ (List.mem_of_getElem? hk') hu₁)
    · exact h k l e₁ e₂ hk' hl' hu₁ hu₂ hsame

theorem Apart.take (h : Apart es) (hi : i ≤ es.length) (hgone : e.isInUse = false) :
    Apart (putSlot es i e) := fun k l e₁ e₂ hk hl hu₁ hu₂ =>
  h k l e₁ e₂ (used_putSlot hi hgone hk hu₁).2 (used_putSlot hi hgone hl hu₂).2 hu₁ hu₂

namespace Shelf

/-- An inode for a new entry: no entry of the directory is of it. -/
structure Fresh (S : Shelf) (d target : Sector) : Prop where
  live : target ∈ S.live
  ne : target ≠ d
  unlisted : ∀ e ∈ S.slots d, e.isInUse = true → e.sector ≠ target

/-- The shelf after a name was taken out of a directory, which has these bytes now. -/
def takenOut (S : Shelf) (d : Sector) (name : String) (bytes : Bytes) : Shelf :=
  (findSlot (S.slots d) name).elim S fun x => (S.setBytes d bytes).removed x.1

theorem slots_setBytes (S : Shelf) (d : Sector) (bytes : Bytes) :
    (S.setBytes d bytes).slots d = slotsOf bytes := by
  rw [slots, Shelf.bytes, file_setBytes_self]

theorem bytes_setBytes (S : Shelf) (d : Sector) (bytes : Bytes) :
    (S.setBytes d bytes).bytes d = bytes := by
  rw [Shelf.bytes, file_setBytes_self]

theorem bytes_setBytes_removed (S : Shelf) (d : Sector) (bytes : Bytes) (t : Sector) :
    ((S.setBytes d bytes).removed t).bytes d = bytes := by
  rw [bytes_removed, bytes_setBytes]

theorem slots_setBytes_removed (S : Shelf) (d : Sector) (bytes : Bytes) (t : Sector) :
    ((S.setBytes d bytes).removed t).slots d = slotsOf bytes := by
  rw [slots, bytes_setBytes_removed]

end Shelf

namespace Directory

/-- A directory of a volume that can be worked with: every entry in use has an inode of its own. -/
structure Tended (total : Nat) (d : Sector) (S : Shelf) (v : Volume n) : Prop where
  stores : Stores total v S
  counted : S.Counted
  live : d ∈ S.live
  whole : entrySize ∣ (S.bytes d).length
  inode : ∀ e ∈ S.slots d, e.isInUse = true → e.sector ∈ S.live ∧ e.sector ≠ d
  apart : Apart (S.slots d)

/-! ### Turns -/

/-- What is done to a directory, with the answer. -/
inductive Event
  | add (name : String) (target : Sector) (isDir : Bool) (answer : Except Refusal Unit)
  | remove (name : String) (answer : Except Refusal Unit)
  | other

/-- One turn of the volume, with what is done to the directory in it. Whoever adds or takes out has
the directory open and may write to it, and what is added has an inode of its own. -/
inductive Turn (total : Nat) (d : Sector) : Shelf → Volume n → Event → Shelf → Volume n → Prop
  | add {S : Shelf} {v v' : Volume n} {nd : Node} {name : String} {target : Sector} {isDir : Bool}
      {answer : Except Refusal Unit} (hn : S.node d = some nd) (hallowed : nd.denials = 0)
      (hfresh : S.Fresh d target) (hrun : (add d name target isDir).run v = .ok answer v') :
      Turn total d S v (.add name target isDir answer) (S.setBytes d (v'.bytesOf d)) v'
  | remove {S : Shelf} {v v' : Volume n} {nd : Node} {name : String}
      {check : Entry → Node → Except Refusal Unit} (hn : S.node d = some nd)
      (hallowed : nd.denials = 0) (hrun : (removeIf d name check).run v = .ok (.ok ()) v') :
      Turn total d S v (.remove name (.ok ())) (S.takenOut d name (v'.bytesOf d)) v'
  | keep {S : Shelf} {v v' : Volume n} {nd : Node} {name : String} {why : Refusal}
      {check : Entry → Node → Except Refusal Unit} (hn : S.node d = some nd)
      (hallowed : nd.denials = 0) (hrun : (removeIf d name check).run v = .ok (.error why) v') :
      Turn total d S v (.remove name (.error why)) S v'
  | other {S S' : Shelf} {v v' : Volume n} (hv : Stores total v' S') (hc : S'.Counted)
      (hd : d ∈ S'.live) (hbytes : S'.bytes d = S.bytes d)
      (hinode : ∀ e ∈ S.slots d, e.isInUse = true → e.sector ∈ S'.live) :
      Turn total d S v .other S' v'

/-- What an event does to the slots. -/
inductive Edits : Event → List Entry → List Entry → Prop
  | add {name : String} {target : Sector} {isDir : Bool} {es : List Entry} {i : Nat} {e : Entry}
      (hname : isValidName name = true) (hnew : findSlot es name = none) (hi : FirstFree es i)
      (he : Entry.make name target isDir = .ok e) :
      Edits (.add name target isDir (.ok ())) es (putSlot es i e)
  | refuse {name : String} {target : Sector} {isDir : Bool} {why : Refusal} {es : List Entry} :
      Edits (.add name target isDir (.error why)) es es
  | remove {name : String} {es : List Entry} {i : Nat} {e : Entry} (hfound : FoundAt es name i e) :
      Edits (.remove name (.ok ())) es (putSlot es i e.tombstone)
  | keep {name : String} {why : Refusal} {es : List Entry} : Edits (.remove name (.error why)) es es
  | other {es : List Entry} : Edits .other es es

theorem Tended.added (h : Tended total d S v) (hv : Stores total v' (S.setBytes d bytes))
    (hslotted : Slotted (S.bytes d) i e bytes) (hi : i ≤ (S.slots d).length)
    (hfresh : S.Fresh d e.sector) : Tended total d (S.setBytes d bytes) v' where
  stores := hv
  counted := h.counted
  live := h.live
  whole := by
    rw [S.bytes_setBytes]
    exact hslotted.whole
  inode := fun e' he hu => by
    rw [S.slots_setBytes, hslotted.slots] at he
    obtain ⟨k, hk⟩ := List.getElem?_of_mem he
    rcases putSlot_cases hi hk with ⟨-, rfl⟩ | ⟨-, hk⟩
    · exact ⟨hfresh.live, hfresh.ne⟩
    · exact h.inode e' (List.mem_of_getElem? hk) hu
  apart := by
    rw [S.slots_setBytes, hslotted.slots]
    exact h.apart.put hi hfresh.unlisted

theorem Tended.removed (h : Tended total d S v)
    (hv : Stores total v' ((S.setBytes d bytes).removed e.sector))
    (hslotted : Slotted (S.bytes d) i e.tombstone bytes) (he : (S.slots d)[i]? = some e)
    (hu : e.isInUse = true) : Tended total d ((S.setBytes d bytes).removed e.sector) v' := by
  have hi : i ≤ (S.slots d).length := Nat.le_of_lt (List.getElem?_eq_some_iff.mp he).1
  have hslots : ((S.setBytes d bytes).removed e.sector).slots d =
      putSlot (S.slots d) i e.tombstone :=
    (S.slots_setBytes_removed d bytes e.sector).trans hslotted.slots
  have hgone := Entry.isInUse_tombstone e
  have hne := (h.inode e (List.mem_of_getElem? he) hu).2
  refine ⟨hv, h.counted.removed (S := S.setBytes d bytes), Shelf.mem_live_removed.mpr ⟨h.live,
    fun heq => absurd heq.symm hne⟩, ?_, fun e' he' hu' => ?_, ?_⟩
  · rw [S.bytes_setBytes_removed]
    exact hslotted.whole
  · rw [hslots] at he'
    obtain ⟨k, hk⟩ := List.getElem?_of_mem he'
    obtain ⟨hki, hk⟩ := used_putSlot hi hgone hk hu'
    obtain ⟨hlive, hne'⟩ := h.inode e' (List.mem_of_getElem? hk) hu'
    -- the inode that goes belongs to the slot that was cleared alone
    exact ⟨Shelf.mem_live_removed.mpr ⟨hlive, fun hsame =>
      absurd (h.apart k i e' e hk he hu' hu hsame) hki⟩, hne'⟩
  · rw [hslots]
    exact h.apart.take hi hgone

theorem Tended.of_findSlot (h : Tended total d S v)
    (hfind : findSlot (S.slots d) name = some (t, isDir)) : t ∈ S.live ∧ d ≠ t := by
  obtain ⟨i, e, he, hu, -, heq⟩ := exists_of_findSlot hfind
  obtain ⟨rfl, -⟩ := Prod.mk.inj heq
  obtain ⟨hlive, hne⟩ := h.inode e (List.mem_of_getElem? he) hu
  exact ⟨hlive, Ne.symm hne⟩

theorem Tended.restored (h : Tended total d S v) (hv : Stores total v' S) : Tended total d S v' :=
  { h with stores := hv }

/-! ### What a turn does -/

section

variable (h : Tended total d S v)

include h

theorem add_step (hn : S.node d = some nd) (hallowed : nd.denials = 0) (hfresh : S.Fresh d target)
    (hrun : (add d name target isDir).run v = .ok answer v') :
    Tended total d (S.setBytes d (v'.bytesOf d)) v' ∧
      Edits (.add name target isDir answer) (S.slots d) (slotsOf (v'.bytesOf d)) := by
  have hadd : Tries (Stores total) anyFault (add (n := n) d name target isDir) S _ _ :=
    add_slot_tries h.live hn hallowed h.whole fun _ _ => .inr trivial
  obtain ⟨T, hv, hpost⟩ := Does.of_ok hadd h.stores hrun
  match answer, hpost with
  | .ok (), ⟨hname, hnew, i, e, bytes, hi, he, hslotted, hT⟩ =>
    subst hT
    have hbytes : v'.bytesOf d = bytes := (hv.bytesOf_eq h.live).trans (S.bytes_setBytes d bytes)
    rw [hbytes, hslotted.slots]
    exact ⟨h.added hv hslotted hi.le (Entry.sector_make hname he ▸ hfresh), .add hname hnew hi he⟩
  | .error why, ⟨hT, _⟩ =>
    subst hT
    rw [hv.bytesOf_eq h.live, T.setBytes_self]
    exact ⟨h.restored hv, .refuse⟩

theorem remove_step (hn : S.node d = some nd) (hallowed : nd.denials = 0)
    (hrun : (removeIf d name check).run v = .ok (.ok ()) v') :
    Tended total d (S.takenOut d name (v'.bytesOf d)) v' ∧
      Edits (.remove name (.ok ())) (S.slots d) ((S.takenOut d name (v'.bytesOf d)).slots d) := by
  have hremove : Tries (Stores total) anyFault (removeIf (n := n) d name check) S _ _ :=
    removeIf_slot_tries h.live hn h.whole h.counted fun _ _ => h.of_findSlot
  obtain ⟨T, hv, i, e, hfound, -, bytes, hcleared, rfl⟩ := Does.of_ok hremove h.stores hrun
  rw [Cleared, if_neg (by omega)] at hcleared
  have htended := h.removed hv hcleared hfound.slot hfound.used
  have hbytes : v'.bytesOf d = bytes :=
    (hv.bytesOf_eq htended.live).trans (S.bytes_setBytes_removed d bytes e.sector)
  have hshelf : S.takenOut d name (v'.bytesOf d) = (S.setBytes d bytes).removed e.sector := by
    rw [Shelf.takenOut, hfound.find, hbytes, Option.elim_some]
  rw [hshelf, S.slots_setBytes_removed, hcleared.slots]
  exact ⟨htended, .remove hfound⟩

theorem keep_step {why : Refusal} (hn : S.node d = some nd)
    (hrun : (removeIf d name check).run v = .ok (.error why) v') : Tended total d S v' := by
  have hremove : Tries (Stores total) anyFault (removeIf (n := n) d name check) S _ _ :=
    removeIf_slot_tries h.live hn h.whole h.counted fun _ _ => h.of_findSlot
  obtain ⟨T, hv, rfl, -⟩ := Does.of_ok hremove h.stores hrun
  exact h.restored hv

theorem other_step (hv : Stores total v' S') (hc : S'.Counted) (hd : d ∈ S'.live)
    (hslots : S'.slots d = S.slots d) (hbytes : S'.bytes d = S.bytes d)
    (hinode : ∀ e ∈ S.slots d, e.isInUse = true → e.sector ∈ S'.live) :
    Tended total d S' v' where
  stores := hv
  counted := hc
  live := hd
  whole := by
    rw [hbytes]
    exact h.whole
  inode := fun e he hu => by
    rw [hslots] at he
    exact ⟨hinode e he hu, (h.inode e he hu).2⟩
  apart := by
    rw [hslots]
    exact h.apart

/-- A turn keeps the directory in order, and edits its slots as its event says. -/
theorem Turn.step {event : Event} (hturn : Turn total d S v event S' v') :
    Tended total d S' v' ∧ Edits event (S.slots d) (S'.slots d) := by
  cases hturn with
  | add hn hallowed hfresh hrun =>
    rw [Shelf.slots_setBytes]
    exact add_step h hn hallowed hfresh hrun
  | remove hn hallowed hrun => exact remove_step h hn hallowed hrun
  | keep hn hallowed hrun => exact ⟨keep_step h hn hrun, .keep⟩
  | other hv hc hd hbytes hinode =>
    have hslots : S'.slots d = S.slots d := by rw [Shelf.slots, hbytes, Shelf.slots]
    rw [hslots]
    exact ⟨other_step h hv hc hd hslots hbytes hinode, .other⟩

end

end Directory
end TieredVolume
