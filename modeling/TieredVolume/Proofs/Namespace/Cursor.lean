import TieredVolume.Proofs.Client.Basic
import TieredVolume.Proofs.Namespace.Catalog
import TieredVolume.Proofs.Namespace.Listing

/-!
Reading the names of a directory while others change it. How far a handle has read is an offset into
the slots, which are cleared, used again and appended meanwhile. As no slot ever moves, every name
that is handed out is in use at that moment, no slot is handed out twice, and what stays in the
directory until the end is handed out once.
-/
namespace TieredVolume
namespace Directory

open Volume

variable {total n : Nat} {S S' : Shelf} {v v' : Volume n} {d target : Sector} {nd : Node}
  {es es' : List Entry} {i pos pos' : Nat} {name : String} {isDir : Bool}
  {told : List (Nat × String)} {steady : Set (Nat × Entry)}

/-- The entries in use, with their slots. -/
def usedSlots (es : List Entry) : Set (Nat × Entry) :=
  {x | es[x.1]? = some x.2 ∧ x.2.isInUse = true}

/-- Somebody reads the names of a directory while others add to it and take out of it. The handle
has read up to `pos`; `told` are the names it was told, with the offsets of their slots, and
`steady` are the entries that were in use from the start on. -/
inductive Reading (total : Nat) (d : Sector) : Shelf → Volume n → (pos : Nat) →
    (told : List (Nat × String)) → (steady : Set (Nat × Entry)) → Prop
  | start {S : Shelf} {v : Volume n} (h : Tended total d S v) :
      Reading total d S v 0 [] (usedSlots (S.slots d))
  | next {S : Shelf} {v v' : Volume n} {pos pos' : Nat} {told : List (Nat × String)}
      {steady : Set (Nat × Entry)} {nd : Node} {name : String}
      (h : Reading total d S v pos told steady) (hn : S.node d = some nd)
      (hrun : Directory.next d pos v = .ok (some name, pos') v') :
      Reading total d S v' pos' (told ++ [(pos' - entrySize, name)]) steady
  | stop {S : Shelf} {v v' : Volume n} {pos pos' : Nat} {told : List (Nat × String)}
      {steady : Set (Nat × Entry)} {nd : Node} (h : Reading total d S v pos told steady)
      (hn : S.node d = some nd) (hrun : Directory.next d pos v = .ok (none, pos') v') :
      Reading total d S v' pos' told steady
  | turn {S S' : Shelf} {v v' : Volume n} {pos : Nat} {told : List (Nat × String)}
      {steady : Set (Nat × Entry)} {event : Event} (h : Reading total d S v pos told steady)
      (hturn : Turn total d S v event S' v') :
      Reading total d S' v' pos told (steady ∩ usedSlots (S'.slots d))

/-- What was told of slots like these up to `pos`. -/
structure ReadTo (es : List Entry) (pos : Nat) (told : List (Nat × String))
    (steady : Set (Nat × Entry)) : Prop where
  place : ∃ i ≤ es.length, pos = i * entrySize
  ordered : told.Pairwise (·.1 < ·.1)
  behind : ∀ x ∈ told, x.1 < pos
  used : steady ⊆ usedSlots es
  covers : ∀ x ∈ steady, x.1 * entrySize < pos → (x.1 * entrySize, x.2.name) ∈ told

theorem Edits.length_le {event : Event} (h : Edits event es es') : es.length ≤ es'.length := by
  have hput : ∀ i e, es.length ≤ (putSlot es i e).length := fun i e => by
    unfold putSlot
    split
    · rw [List.length_set]
    · rw [List.length_append]
      exact Nat.le_add_right ..
  cases h with
  | add hname hnew hi he => exact hput ..
  | remove hfound => exact hput ..
  | refuse => exact Nat.le_refl _
  | keep => exact Nat.le_refl _
  | other => exact Nat.le_refl _

namespace ReadTo

theorem start (es : List Entry) : ReadTo es 0 [] (usedSlots es) where
  place := ⟨0, Nat.zero_le _, rfl⟩
  ordered := .nil
  behind := nofun
  used := subset_rfl
  covers := fun _ _ hlt => absurd hlt (Nat.not_lt_zero _)

theorem next (h : ReadTo es (i * entrySize) told steady)
    (hnext : NextSlot es i (some name, pos')) :
    ReadTo es pos' (told ++ [(pos' - entrySize, name)]) steady := by
  obtain ⟨j, e, rfl, hij, he, hu, rfl, hunused⟩ := hnext
  have hlast : (j + 1) * entrySize - entrySize = j * entrySize := by
    rw [Nat.succ_mul, Nat.add_sub_cancel]
  have hle : i * entrySize ≤ j * entrySize := Nat.mul_le_mul_right _ hij
  rw [hlast]
  refine ⟨⟨j + 1, (List.getElem?_eq_some_iff.mp he).1, rfl⟩, ?_, ?_, h.used, ?_⟩
  · refine List.pairwise_append.mpr ⟨h.ordered, List.pairwise_singleton .., fun x hx y hy => ?_⟩
    rw [List.mem_singleton.mp hy]
    exact Nat.lt_of_lt_of_le (h.behind x hx) hle
  · intro x hx
    rcases List.mem_append.mp hx with hx | hx
    · have hlt := h.behind x hx
      simp only [entrySize] at hlt hle ⊢
      omega
    · rw [List.mem_singleton.mp hx]
      exact Nat.mul_lt_mul_of_pos_right (Nat.lt_succ_self j) (by decide)
  · rintro ⟨k, e'⟩ hx hlt
    obtain ⟨he', hu'⟩ := h.used hx
    have hkj : k ≤ j := Nat.le_of_lt_succ (Nat.lt_of_mul_lt_mul_right hlt)
    -- nothing in use was passed over
    by_cases hk : k < i
    · exact List.mem_append_left _ (h.covers _ hx (Nat.mul_lt_mul_of_pos_right hk (by decide)))
    · by_cases heq : k = j
      · subst heq
        rw [he] at he'
        obtain rfl := Option.some.inj he'
        exact List.mem_append_right _ (List.mem_singleton_self _)
      · rw [hunused k e' (Nat.not_lt.mp hk) (by omega) he'] at hu'
        cases hu'

theorem le_length (h : ReadTo es (i * entrySize) told steady) : i ≤ es.length := by
  obtain ⟨k, hk, hpos⟩ := h.place
  rwa [Nat.eq_of_mul_eq_mul_right (by decide) hpos]

/-- Once nothing in use is left, all that stayed was told. -/
theorem covers_all (h : ReadTo es (i * entrySize) told steady)
    (hunused : ∀ (k : Nat) e, i ≤ k → es[k]? = some e → e.isInUse = false) :
    ∀ x ∈ steady, (x.1 * entrySize, x.2.name) ∈ told := fun x hx => by
  obtain ⟨he, hu⟩ := h.used hx
  refine h.covers x hx (Nat.mul_lt_mul_of_pos_right (Nat.lt_of_not_le fun hle => ?_) (by decide))
  rw [hunused x.1 x.2 hle he] at hu
  cases hu

theorem stop (h : ReadTo es (i * entrySize) told steady) (hnext : NextSlot es i (none, pos')) :
    ReadTo es pos' told steady := by
  obtain ⟨rfl, hunused⟩ := hnext
  rw [Nat.max_eq_right h.le_length]
  exact ⟨⟨es.length, Nat.le_refl _, rfl⟩, h.ordered, fun x hx => Nat.lt_of_lt_of_le (h.behind x hx)
    (Nat.mul_le_mul_right _ h.le_length), h.used, fun x hx _ => h.covers_all hunused x hx⟩

/-- Nothing was told twice. -/
theorem count_eq_one (h : ReadTo es pos told steady) {x : Nat × String} (hx : x ∈ told) :
    (told.map (·.1)).count x.1 = 1 :=
  List.count_eq_one_of_mem (List.pairwise_map.mpr (h.ordered.imp Nat.ne_of_lt))
    (List.mem_map_of_mem hx)

theorem turn {event : Event} (h : ReadTo es pos told steady) (hedit : Edits event es es') :
    ReadTo es' pos told (steady ∩ usedSlots es') where
  place := by
    obtain ⟨i, hi, hpos⟩ := h.place
    exact ⟨i, hi.trans hedit.length_le, hpos⟩
  ordered := h.ordered
  behind := h.behind
  used := Set.inter_subset_right
  covers := fun x hx => h.covers x hx.1

end ReadTo

/-! ### Whatever goes on meanwhile -/

theorem Reading.readTo (h : Reading total d S v pos told steady) :
    Tended total d S v ∧ ReadTo (S.slots d) pos told steady := by
  have hstep : ∀ {S : Shelf} {v v' : Volume n} {pos told steady r} {nd : Node},
      Tended total d S v ∧ ReadTo (S.slots d) pos told steady → S.node d = some nd →
      Directory.next d pos v = .ok r v' →
      Tended total d S v' ∧ ∃ i, pos = i * entrySize ∧ NextSlot (S.slots d) i r :=
    fun ⟨htended, hread⟩ hn hrun => by
      obtain ⟨i, -, rfl⟩ := hread.place
      have hnext : Does (Stores total) anyFault (Directory.next (n := n) d (i * entrySize)) _ _ :=
        nextSlot_does htended.live hn
      obtain ⟨T, hv, hslot, rfl⟩ := hnext.of_ok htended.stores hrun
      exact ⟨htended.restored hv, i, rfl, hslot⟩
  induction h with
  | start htended => exact ⟨htended, .start _⟩
  | next h hn hrun ih =>
    obtain ⟨htended, i, rfl, hslot⟩ := hstep ih hn hrun
    exact ⟨htended, ih.2.next hslot⟩
  | stop h hn hrun ih =>
    obtain ⟨htended, i, rfl, hslot⟩ := hstep ih hn hrun
    exact ⟨htended, ih.2.stop hslot⟩
  | turn h hturn ih =>
    obtain ⟨htended, hedit⟩ := hturn.step ih.1
    exact ⟨htended, ih.2.turn hedit⟩

/-- What the next step of a reading comes to: the first slot in use that is not read yet, or the
end, and then all that stayed in use was told once. Besides, read without a break the directory
tells all names in use in slot order, a clone of the handle starts over, and what is appended after
the end was reached is told next. -/
structure Enumerates (total : Nat) (d : Sector) (S : Shelf) (v : Volume n) (pos : Nat)
    (told : List (Nat × String)) (steady : Set (Nat × Entry)) : Prop where
  next : ∃ i r v', pos = i * entrySize ∧ Directory.next d pos v = .ok r v' ∧
    NextSlot (slotsOf (v.bytesOf d)) i r ∧
    (r.1 = none → r.2 = (v.bytesOf d).length ∧ ∀ x ∈ steady,
      (x.1 * entrySize, x.2.name) ∈ told ∧ (told.map (·.1)).count (x.1 * entrySize) = 1)
  ordered : told.Pairwise (·.1 < ·.1)
  behind : ∀ x ∈ told, x.1 < pos
  names : ∃ v', Directory.names d v =
    .ok (((slotsOf (v.bytesOf d)).filter (·.isInUse)).map (·.name)) v'
  clone : ∀ cursor, ∃ v', (Call.clone ⟨d, true, cursor⟩).attempt.run v =
      .ok (.ok (.opened ⟨d, true, 0⟩)) v' ∧
    Reading total d (S.opened d) v' 0 [] (usedSlots (slotsOf (v.bytesOf d)))
  append : pos = (v.bytesOf d).length → ∀ name target isDir v',
    (add d name target isDir).run v = .ok (.ok ()) v' →
    (v.bytesOf d).length < (v'.bytesOf d).length →
    ∃ v'', Directory.next d pos v' = .ok (some name, pos + entrySize) v''

/-- A handle that was cloned starts over. -/
theorem clone_reading (h : Tended total d S v) (cursor : Nat) :
    ∃ v', (Call.clone ⟨d, true, cursor⟩).attempt.run v = .ok (.ok (.opened ⟨d, true, 0⟩)) v' ∧
      Reading total d (S.opened d) v' 0 [] (usedSlots (S.slots d)) := by
  have hclone : Tries (Stores total) never (Call.attempt (n := n) (.clone ⟨d, true, cursor⟩)) S
      (fun reply S' => reply = .opened ⟨d, true, 0⟩ ∧ S' = S.opened d) (fun _ _ => False) := by
    refine Tries.bind (Tries.always ((Inode.open_stores h.live).mono ?_))
    rintro - S' rfl
    exact Tries.pure ⟨rfl, rfl⟩
  obtain ⟨why | reply, v', hok, T, hv, hpost⟩ := (hclone v h.stores).ok_of_never
  · exact hpost.elim
  · obtain ⟨rfl, rfl⟩ := hpost
    exact ⟨v', hok, .start ⟨hv, h.counted.opened d, h.live, h.whole, h.inode, h.apart⟩⟩

/-- A name that is appended behind all that was read is read next. -/
theorem append_next (h : Tended total d S v) (hn : S.node d = some nd)
    (hallowed : nd.denials = 0) (hpos : pos = (v.bytesOf d).length)
    (hrun : (add d name target isDir).run v = .ok (.ok ()) v')
    (hmore : (v.bytesOf d).length < (v'.bytesOf d).length) :
    ∃ v'', Directory.next d pos v' = .ok (some name, pos + entrySize) v'' := by
  have hadd : Tries (Stores total) anyFault (add (n := n) d name target isDir) S _ _ :=
    add_slot_tries h.live hn hallowed h.whole fun _ _ => .inr trivial
  obtain ⟨T, hv, hname, -, i, e, bytes, hi, he, hslotted, rfl⟩ := Does.of_ok hadd h.stores hrun
  rw [h.stores.bytesOf_eq h.live] at hpos hmore
  rw [hv.bytesOf_eq h.live, S.bytes_setBytes] at hmore
  have hlen := length_slots_mul h.whole
  have hend : i = (slotsOf (S.bytes d)).length := by
    by_contra hne
    have hin : i * entrySize < (S.bytes d).length := by
      rw [← hlen]
      exact Nat.mul_lt_mul_of_pos_right (lt_of_le_of_ne hi.le hne) (by decide)
    rw [(hslotted.rewrote h.whole hi.le).length, if_pos hin] at hmore
    exact absurd hmore (Nat.lt_irrefl _)
  rw [hpos, ← hlen, ← hend]
  have hnext : Does (Stores total) never (Directory.next (n := n) d (i * entrySize)) _ _ :=
    nextSlot_does (S := S.setBytes d bytes) h.live hn
  obtain ⟨r, v'', hok, -, -, hslot, -⟩ := (hnext v' hv).ok_of_never
  rw [S.slots_setBytes, hslotted.slots] at hslot
  have hr := hslot.eq_of_used ((getElem?_putSlot hi.le).trans (if_pos rfl))
    (Entry.isInUse_make hname he)
  rw [Entry.name_make hname he, Nat.succ_mul] at hr
  exact ⟨v'', hr ▸ hok⟩

/-- Whatever is added to a directory and taken out of it while somebody reads its names, the next
step hands out the first name in use that is ahead, behind all that was told; at the end all that
stayed in the directory was told, and told once. -/
theorem Reading.enumerates (h : Reading total d S v pos told steady) (hn : S.node d = some nd)
    (hallowed : nd.denials = 0) : Enumerates total d S v pos told steady := by
  obtain ⟨htended, hread⟩ := h.readTo
  have hbytes := htended.stores.bytesOf_eq htended.live
  have hslots : slotsOf (v.bytesOf d) = S.slots d := by rw [hbytes, Shelf.slots]
  refine ⟨?_, hread.ordered, hread.behind, ?_, ?_,
    fun hpos name target isDir v' => append_next htended hn hallowed hpos⟩
  · obtain ⟨i, -, rfl⟩ := hread.place
    have hnext : Does (Stores total) never (Directory.next (n := n) d (i * entrySize)) _ _ :=
      nextSlot_does htended.live hn
    obtain ⟨r, v', hok, -, -, hslot, -⟩ := (hnext v htended.stores).ok_of_never
    refine ⟨i, r, v', rfl, hok, hslots ▸ hslot, fun hnone => ?_⟩
    obtain ⟨name, offset⟩ := r
    obtain rfl : name = none := hnone
    obtain ⟨rfl, hunused⟩ := hslot
    refine ⟨?_, fun x hx => ?_⟩
    · rw [Nat.max_eq_right hread.le_length, hbytes]
      exact length_slots_mul htended.whole
    · have htold := hread.covers_all hunused x hx
      exact ⟨htold, hread.count_eq_one htold⟩
  · have hnames : Does (Stores total) never (Directory.names (n := n) d) S _ :=
      names_does htended.live hn
    obtain ⟨names, v', hok, -, -, rfl, -⟩ := (hnames v htended.stores).ok_of_never
    exact ⟨v', hslots ▸ hok⟩
  · rw [hslots]
    exact clone_reading htended

/-- On a new volume, the one name of a directory was read. -/
theorem Reading.enumerates_one : ∃ (S : Shelf) (v : Volume cacheCapacity) (d : Sector) (nd : Node)
    (e : Entry) (steady : Set (Nat × Entry)), (0, e) ∈ steady ∧
      Reading 60000 d S v entrySize [(0, "a")] steady ∧ S.node d = some nd ∧ nd.denials = 0 ∧
      Enumerates 60000 d S v entrySize [(0, "a")] steady := by
  obtain ⟨S, c, v, d, t, nd, hadded, hn, hallowed, hlisted⟩ := exists_added
  obtain ⟨htended, hlists⟩ := hadded.lists
  obtain ⟨i, e, he, hu, hname, hslot⟩ := (hlists.listed _ _).mp hlisted
  obtain rfl : 0 = i := congrArg Listed.slot hslot
  have hnext : Does (Stores (n := cacheCapacity) 60000) never
      (Directory.next d (0 * entrySize)) S _ := nextSlot_does htended.live hn
  obtain ⟨r, v', hok, -, -, hr, -⟩ := (hnext v htended.stores).ok_of_never
  rw [hr.eq_of_used he hu, hname] at hok
  have hread : Reading 60000 d S v' entrySize [(0, "a")] (usedSlots (S.slots d)) :=
    .next (.start htended) hn hok
  exact ⟨S, v', d, nd, e, usedSlots (S.slots d), ⟨he, hu⟩, hread, hn, hallowed,
    hread.enumerates hn hallowed⟩

end Directory
end TieredVolume
