import TieredVolume.Namespace.Directory
import TieredVolume.Proofs.Inode.Lifetime
import TieredVolume.Proofs.Namespace.Slots

/-!
What the operations on directories do to the shelf. A search comes to the first slot that it looks
for. Adding a name and taking one out rewrite one slot, or leave everything as it was.
-/
namespace TieredVolume

variable {total : Nat} {S S' : Shelf} {d t : Sector} {nd : Node} {p : Entry → Bool}
  {es : List Entry} {e : Entry} {i count : Nat} {name : String} {target : Sector} {isDir : Bool}
  {faults : Fault → Prop} {n : Nat}

/-- The slots of a directory. -/
def Shelf.slots (S : Shelf) (d : Sector) : List Entry := slotsOf (S.bytes d)

theorem Stores.length_le {v : Volume n} (hv : Stores total v S) (hd : d ∈ S.live) :
    (S.bytes d).length ≤ maxSectors * sectorSize := by
  obtain ⟨w, -, hw⟩ := hv
  rw [hw.length_eq hd]
  exact (hw.sized d hd).limit

/-- No directory has more slots than are ever looked at. -/
theorem Stores.length_slots_le {v : Volume n} (hv : Stores total v S) (hd : d ∈ S.live) :
    (S.slots d).length ≤ Directory.maxSlots := by
  have hlen := hv.length_le hd
  rw [Shelf.slots, length_slotsOf]
  simp only [maxSectors, sectorSize, entrySize, Directory.maxSlots] at hlen ⊢
  omega

/-- What a search from slot `i` on finds. -/
def FirstSlot (p : Entry → Bool) (es : List Entry) (i : Nat) : Option (Entry × Nat) → Prop
  | some (e, offset) => ∃ j, offset = j * entrySize ∧ es[j]? = some e ∧ p e = true ∧
      ∀ (k : Nat) e', i ≤ k → k < j → es[k]? = some e' → p e' = false
  | none => ∀ (k : Nat) e', i ≤ k → es[k]? = some e' → p e' = false

/-- Slots from one on that is not looked for are not either, or come after it. -/
theorem unlike_or_past (he : es[i]? = some e) (hp : p e = false) (k : Nat) (e' : Entry) (hk : i ≤ k)
    (he' : es[k]? = some e') : p e' = false ∨ i + 1 ≤ k := by
  by_cases hki : k = i
  · rw [hki, he] at he'
    exact .inl (Option.some.inj he' ▸ hp)
  · exact .inr (by omega)

theorem FirstSlot.find?_eq {r : Option (Entry × Nat)} (h : FirstSlot p es 0 r) :
    es.find? p = r.map Prod.fst := by
  match r, h with
  | none, h =>
    refine List.find?_eq_none.mpr fun e he => ?_
    obtain ⟨k, hk⟩ := List.getElem?_of_mem he
    rw [h k e (Nat.zero_le k) hk]
    nofun
  | some (e, offset), ⟨j, _, he, hp, hbefore⟩ =>
    obtain ⟨hj, rfl⟩ := List.getElem?_eq_some_iff.mp he
    refine List.find?_eq_some_iff_getElem.mpr ⟨hp, j, hj, rfl, fun k hk => ?_⟩
    rw [hbefore k es[k] (Nat.zero_le k) hk (List.getElem?_eq_getElem (hk.trans hj))]
    rfl

/-- The bytes of a directory after the inode that `name` stands for was changed to `found`. -/
structure Relisted (old new : Bytes) (name : String) (found : Option (Sector × Bool)) : Prop where
  whole : entrySize ∣ new.length
  orderly : Orderly (slotsOf new)
  find : ∀ n, findSlot (slotsOf new) n = if n = name then found else findSlot (slotsOf old) n

/-- The bytes of a directory after a name was put into its first free slot. -/
structure Joined (old new : Bytes) (name : String) (found : Sector × Bool) : Prop
    extends Relisted old new name (some found) where
  used : (slotsOf new).countP (·.isInUse) = (slotsOf old).countP (·.isInUse) + 1
  length : (slotsOf new).length = max (slotsOf old).length ((slotsOf old).countP (·.isInUse) + 1)

/-- The bytes of a directory after an entry was put into slot `i`, or behind the last. -/
structure Slotted (old : Bytes) (i : Nat) (e : Entry) (new : Bytes) : Prop where
  whole : entrySize ∣ new.length
  slots : slotsOf new = putSlot (slotsOf old) i e

theorem Slotted.joined {old new : Bytes} (h : Slotted old i e new) (hes : Orderly (slotsOf old))
    (hi : FirstFree (slotsOf old) i) (hname : isValidName name = true)
    (he : Entry.make name target isDir = .ok e) (hnew : findSlot (slotsOf old) name = none)
    (hdot : name ≠ ".") (hdots : name ≠ "..") : Joined old new name (target, isDir) := by
  have huse := Entry.isInUse_make hname he
  have hsame := Entry.name_make hname he
  obtain ⟨horderly, hfind⟩ := hes.put hi.le hi.free huse (hsame ▸ hnew) (hsame ▸ hname)
    (hsame ▸ hdot) (hsame ▸ hdots)
  rw [← h.slots, hsame, Entry.sector_make hname he, Entry.isDir_make hname he] at hfind
  rw [← h.slots] at horderly
  refine ⟨⟨h.whole, horderly, hfind⟩, ?_, ?_⟩
  · rw [h.slots, countP_putSlot hi.free huse]
  · rw [h.slots, hi.length_putSlot]

/-- Another entry can be put into the directory. -/
def HasRoom (bytes : Bytes) : Prop :=
  (∃ e ∈ slotsOf bytes, e.isInUse = false) ∨ bytes.length + entrySize ≤ maxSectors * sectorSize

/-- The bytes of a directory, with the node `nd`, after a tombstone was to be put into slot `i`. -/
def Cleared (nd : Node) (old : Bytes) (i : Nat) (e : Entry) (new : Bytes) : Prop :=
  if 0 < nd.denials then new = old
  else Slotted old i e.tombstone new

/-- The bytes of a directory, with the node `nd`, after a name was to be taken out. -/
def TakenOut (nd : Node) (old new : Bytes) (name : String) : Prop :=
  if 0 < nd.denials then new = old else Relisted old new name none

theorem TakenOut.relisted {old new : Bytes} (h : TakenOut nd old new name)
    (hallowed : nd.denials = 0) : Relisted old new name none := by
  rwa [TakenOut, if_neg (by omega)] at h

theorem Cleared.takenOut {old new : Bytes} (h : Cleared nd old i e new)
    (hes : Orderly (slotsOf old)) (he : (slotsOf old)[i]? = some e) (hu : e.isInUse = true) :
    TakenOut nd old new e.name := by
  unfold Cleared at h
  unfold TakenOut
  by_cases hdenied : 0 < nd.denials
  · rwa [if_pos hdenied] at h ⊢
  · rw [if_neg hdenied] at h ⊢
    obtain ⟨horderly, hfind⟩ := hes.take he hu (Entry.isInUse_tombstone e)
    exact ⟨h.whole, h.slots ▸ horderly, fun m => by rw [h.slots, hfind m]⟩

/-- An inode may go: the check agrees, and if it is a directory, it has no names. -/
structure Shelf.MayGo (S : Shelf) (check : Entry → Node → Except Refusal Unit) (e : Entry) :
    Prop where
  agreed : check e (S.seen e.sector) = .ok ()
  empty : e.isDir = true → ∀ m, findSlot (S.slots e.sector) m = none

/-- Why an inode may not go. -/
def Shelf.MustStay (S : Shelf) (check : Entry → Node → Except Refusal Unit) (e : Entry)
    (why : Refusal) : Prop :=
  check e (S.seen e.sector) = .error why ∨ check e (S.seen e.sector) = .ok () ∧ e.isDir = true ∧
    why = .directoryNotEmpty ∧ ∃ m, findSlot (S.slots e.sector) m ≠ none

theorem Shelf.MayGo.not_mustStay {check : Entry → Node → Except Refusal Unit} {why : Refusal}
    (h : S.MayGo check e) : ¬ S.MustStay check e why := by
  rintro (herror | ⟨-, hdir, -, m, hm⟩)
  · rw [h.agreed] at herror
    cases herror
  · exact hm (h.empty hdir m)

namespace Directory

open Volume Attempt

/-! ### Searching -/

section Search

variable (hd : d ∈ S.live) (hn : S.node d = some nd)

include hd hn

theorem entryAt_does : Does (Stores total) faults (entryAt (n := n) d (i * entrySize)) S fun r S' =>
    r = (S.slots d)[i]? ∧ S' = S := by
  refine Does.andThen (Inode.readAt_does hd hn) ?_
  rintro bytes S' ⟨rfl, rfl⟩
  exact Does.pure ⟨ofBytes?_slot, rfl⟩

/-- Reading an entry changes nothing, wherever it lies. -/
theorem entryAt_quiet {offset : Nat} :
    Does (Stores total) faults (entryAt (n := n) d offset) S fun _ S' => S' = S := by
  refine Does.andThen (Inode.readAt_does hd hn) ?_
  rintro bytes S' ⟨-, rfl⟩
  exact Does.pure rfl

theorem findFrom_does (hslots : (S.slots d).length ≤ i + count) :
    Does (Stores total) faults (findFrom (n := n) d p count (i * entrySize)) S fun r S' =>
      FirstSlot p (S.slots d) i r ∧ S' = S := by
  induction count generalizing i with
  | zero =>
    refine Does.pure ⟨fun k e' hk he => ?_, rfl⟩
    have hlt := (List.getElem?_eq_some_iff.mp he).1
    omega
  | succ count ih =>
    refine Does.andThen (entryAt_does hd hn) ?_
    rintro r S' ⟨rfl, rfl⟩
    cases he : (S'.slots d)[i]? with
    | none =>
      have hend := List.getElem?_eq_none_iff.mp he
      refine Does.pure ⟨fun k e' hk he' => ?_, rfl⟩
      have hlt := (List.getElem?_eq_some_iff.mp he').1
      omega
    | some e =>
      by_cases hp : p e = true
      · simp only [if_pos hp]
        exact Does.pure ⟨⟨i, rfl, he, hp, fun k e' hk hk' => by omega⟩, rfl⟩
      · simp only [if_neg hp]
        have hnext : i * entrySize + entrySize = (i + 1) * entrySize := (Nat.succ_mul _ _).symm
        rw [hnext]
        have hpast := unlike_or_past he (Bool.eq_false_iff.mpr hp)
        refine (ih (by omega)).mono ?_
        rintro r S'' ⟨hr, rfl⟩
        refine ⟨?_, rfl⟩
        match r, hr with
        | none, hr =>
          intro k e' hk he'
          exact (hpast k e' hk he').elim id fun hk => hr k e' hk he'
        | some (e', offset), ⟨j, hj, he', hp', hbefore⟩ =>
          refine ⟨j, hj, he', hp', fun k e'' hk hkj he'' => ?_⟩
          exact (hpast k e'' hk he'').elim id fun hk => hbefore k e'' hk hkj he''

theorem findEntry_does : Does (Stores total) faults (findEntry (n := n) d p) S fun r S' =>
    FirstSlot p (S.slots d) 0 r ∧ S' = S := by
  intro v hv
  have hfind : Does (Stores total) faults (findFrom (n := n) d p maxSlots (0 * entrySize)) S _ :=
    findFrom_does hd hn (by rw [Nat.zero_add]; exact hv.length_slots_le hd)
  rw [Nat.zero_mul] at hfind
  exact hfind v hv

/-- The entry that a name is found at. -/
theorem lookup_does : Does (Stores total) faults (lookup (n := n) d name) S fun r S' => S' = S ∧
    match r with
    | none => findSlot (S.slots d) name = none
    | some (e, offset) => ∃ i, offset = i * entrySize ∧ FoundAt (S.slots d) name i e := by
  refine (findEntry_does hd hn).mono ?_
  rintro (- | ⟨e, offset⟩) S' ⟨hr, rfl⟩
  · exact ⟨rfl, congrArg (Option.map _) hr.find?_eq⟩
  · have hfind := congrArg (Option.map fun e : Entry => (e.sector, e.isDir)) hr.find?_eq
    obtain ⟨i, hoffset, he, hp, -⟩ := hr
    simp only [Bool.and_eq_true, beq_iff_eq] at hp
    exact ⟨rfl, i, hoffset, he, hp.1, hp.2, hfind⟩

theorem isEmpty_does : Does (Stores total) faults (isEmpty (n := n) d) S fun r S' =>
    (r = true ↔ ∀ name, findSlot (S.slots d) name = none) ∧ S' = S := by
  refine Does.andThen (findEntry_does hd hn) ?_
  rintro (- | ⟨e, offset⟩) S' ⟨hr, rfl⟩
  · refine Does.pure ⟨⟨fun _ name => findSlot_eq_none_iff.mpr fun i e he hu => ?_,
      fun _ => rfl⟩, rfl⟩
    rw [hr i e (Nat.zero_le _) he] at hu
    cases hu
  · obtain ⟨i, -, he, hu, -⟩ := hr
    refine Does.pure ⟨⟨nofun, fun hall => ?_⟩, rfl⟩
    exact absurd rfl (findSlot_eq_none_iff.mp (hall e.name) i e he hu)

/-- The first slot that is not in use; the one behind the last if all are. -/
theorem freeOffset_does (hwhole : entrySize ∣ (S.bytes d).length) :
    Does (Stores total) faults (freeOffset (n := n) d) S fun offset S' => S' = S ∧
      ∃ i, offset = i * entrySize ∧ FirstFree (S.slots d) i := by
  refine Does.andThen (findEntry_does hd hn) ?_
  rintro (- | ⟨e, offset⟩) S' ⟨hr, rfl⟩
  · refine (Inode.length_does hd hn).mono ?_
    rintro offset S'' ⟨rfl, rfl⟩
    refine ⟨rfl, (S''.slots d).length, (length_slots_mul hwhole).symm, Nat.le_refl _,
      fun e he => ?_, fun k e hk he => ?_⟩
    · rw [List.getElem?_eq_none (Nat.le_refl _)] at he
      cases he
    · simpa using hr k e (Nat.zero_le _) he
  · obtain ⟨i, hoffset, he, hfree, hbefore⟩ := hr
    refine Does.pure ⟨rfl, i, hoffset, Nat.le_of_lt (List.getElem?_eq_some_iff.mp he).1,
      fun e' he' => ?_, fun k e' hk he' => ?_⟩
    · rw [he] at he'
      rw [← Option.some.inj he']
      simpa using hfree
    · simpa using hbefore k e' (Nat.zero_le _) hk he'

end Search

/-! ### Making -/

/-- Making a directory plants `count` empty slots; refused, it changes nothing. -/
theorem create_tries {parent : Sector} (hd : d ∈ S.spare)
    (hword : count * entrySize < offsetLimit ∨ faults .overflow)
    (hend : count * entrySize ≤ maxSectors * sectorSize ∨ faults (.pastIndex maxSectors)) :
    Tries (Stores total) faults (create (n := n) d count parent) S
      (fun _ S' => S' = S.plant d ⟨parent, List.replicate (count * entrySize) 0⟩)
      (fun why S' => why = .noSpace ∧
        (count * entrySize ≤ sectorSize → Crowded total S.live S.spare) ∧ S' = S) := by
  unfold create checkOffset
  by_cases hlt : count * entrySize < offsetLimit
  · rw [if_pos hlt]
    exact Tries.bind (Tries.always (Does.ofExcept rfl (Inode.create_stores hd hword hend)))
  · rw [if_neg hlt]
    exact Tries.bind (Tries.always (Does.ofExcept_error rfl (hword.resolve_left hlt)))

/-! ### Adding -/

/-- Writing an entry into a slot, or behind the last. -/
theorem writeSlot_tries (hd : d ∈ S.live) (hn : S.node d = some nd) (hallowed : nd.denials = 0)
    (hwhole : entrySize ∣ (S.bytes d).length) (hi : i ≤ (S.slots d).length)
    (hroom : i < (S.slots d).length ∨
      (S.bytes d).length + entrySize ≤ maxSectors * sectorSize ∨ faults (.pastIndex maxSectors)) :
    Tries (Stores total) faults (Inode.writeAt (n := n) d (i * entrySize) e.toBytes) S
      (fun k S' => k = entrySize ∧ ∃ bytes, Slotted (S.bytes d) i e bytes ∧
        S' = S.setBytes d bytes)
      (fun why S' => why = .noSpace ∧ (S.slots d).length = i ∧ S' = S) := by
  intro v hv
  have hlimit := hv.length_le hd
  obtain ⟨m, hm⟩ := hwhole
  have hlen : (S.slots d).length = m := by
    rw [Shelf.slots, length_slotsOf, hm, Nat.mul_div_cancel_left _ (by decide)]
  have hnonempty : e.toBytes ≠ [] := fun h => by
    have hlength := Entry.length_toBytes e
    rw [h] at hlength
    cases hlength
  simp only [entrySize, maxSectors, sectorSize] at hm hroom hlimit
  have hword : i * entrySize + e.toBytes.length < offsetLimit := by
    rw [Entry.length_toBytes, entrySize, offsetLimit]
    omega
  have hend : i * entrySize + e.toBytes.length ≤ maxSectors * sectorSize ∨
      faults (.pastIndex maxSectors) := by
    rw [Entry.length_toBytes, entrySize, maxSectors, sectorSize]
    rcases hroom with hin | hroom | hfault
    · exact .inl (by omega)
    · exact .inl (by omega)
    · exact .inr hfault
  refine ((Inode.writeAt_tries hd hn (.inl hword) hend).mono ?_ ?_) v hv
  · rintro k S' hk
    rw [if_neg (not_or.mpr ⟨hnonempty, by omega⟩), Entry.length_toBytes] at hk
    refine ⟨hk.1, _, ⟨?_, slotsOf_splice ⟨m, hm⟩ ?_⟩, hk.2⟩
    · rw [length_splice, Entry.length_toBytes]
      simp only [entrySize]
      omega
    · rw [← length_slotsOf]
      exact hi
  · rintro why S' ⟨rfl, -, hshort, rfl⟩
    refine ⟨rfl, ?_, rfl⟩
    rw [Entry.length_toBytes, entrySize] at hshort
    omega

/-- Adding puts an entry into the first slot that is not in use; refused, it changes nothing. -/
theorem add_slot_tries (hd : d ∈ S.live) (hn : S.node d = some nd) (hallowed : nd.denials = 0)
    (hwhole : entrySize ∣ (S.bytes d).length)
    (hroom : isValidName name = true → findSlot (S.slots d) name = none →
      HasRoom (S.bytes d) ∨ faults (.pastIndex maxSectors)) :
    Tries (Stores total) faults (add (n := n) d name target isDir) S
      (fun _ S' => isValidName name = true ∧ findSlot (S.slots d) name = none ∧
        ∃ i e bytes, FirstFree (S.slots d) i ∧ Entry.make name target isDir = .ok e ∧
          Slotted (S.bytes d) i e bytes ∧ S' = S.setBytes d bytes)
      (fun why S' => S' = S ∧
        (why = .invalidName ∧ isValidName name = false ∨
          why = .alreadyExists ∧ isValidName name = true ∧ findSlot (S.slots d) name ≠ none ∨
          why = .noSpace ∧ isValidName name = true ∧ findSlot (S.slots d) name = none ∧
            ∀ e ∈ S.slots d, e.isInUse = true)) := by
  unfold add
  cases hname : isValidName name with
  | false => exact Tries.bind (Tries.refuse ⟨rfl, .inl ⟨rfl, rfl⟩⟩)
  | true =>
    refine Tries.bind (Tries.always ((lookup_does hd hn).mono ?_))
    rintro (- | ⟨e, offset⟩) S' ⟨rfl, hr⟩
    · refine Tries.bind (Tries.always ((freeOffset_does hd hn hwhole).mono ?_))
      rintro offset S'' ⟨rfl, i, rfl, hi⟩
      have hmake : Entry.make name target isDir = .ok _ := Entry.make_eq_ok hname
      refine Tries.bind (Tries.always (Does.ofExcept hmake ?_))
      refine Tries.andThen (writeSlot_tries hd hn hallowed hwhole hi.le ?_) ?_ ?_
      · rcases hroom hname hr with (⟨e, he, hunused⟩ | hshort) | hfault
        · obtain ⟨k, hk⟩ := List.getElem?_of_mem he
          have hlt : k < (S''.slots d).length := (List.getElem?_eq_some_iff.mp hk).1
          by_contra hend
          rw [hi.before k e (by omega) hk] at hunused
          cases hunused
        · exact .inr (.inl hshort)
        · exact .inr (.inr hfault)
      · rintro k S₁ ⟨rfl, bytes, hslotted, rfl⟩
        simp only [ne_eq, not_true_eq_false, if_false]
        exact Tries.pure ⟨trivial, hr, i, _, bytes, hi, hmake, hslotted, rfl⟩
      · rintro why S₁ ⟨rfl, hend, rfl⟩
        refine ⟨rfl, .inr (.inr ⟨rfl, rfl, hr, fun e he => ?_⟩)⟩
        obtain ⟨k, hk⟩ := List.getElem?_of_mem he
        exact hi.before k e (hend ▸ (List.getElem?_eq_some_iff.mp hk).1) hk
    · obtain ⟨i, -, hfound⟩ := hr
      refine Tries.bind (Tries.refuse ⟨rfl, .inr (.inl ⟨rfl, rfl, ?_⟩)⟩)
      rw [hfound.find]
      nofun

/-- Adding puts the name into the map of the directory; refused, it changes nothing. -/
theorem add_tries (hd : d ∈ S.live) (hn : S.node d = some nd) (hallowed : nd.denials = 0)
    (hwhole : entrySize ∣ (S.bytes d).length) (hes : Orderly (S.slots d))
    (hdot : name ≠ ".") (hdots : name ≠ "..")
    (hroom : findSlot (S.slots d) name = none →
      HasRoom (S.bytes d) ∨ faults (.pastIndex maxSectors)) :
    Tries (Stores total) faults (add (n := n) d name target isDir) S
      (fun _ S' => isValidName name = true ∧ findSlot (S.slots d) name = none ∧
        ∃ bytes, Joined (S.bytes d) bytes name (target, isDir) ∧ S' = S.setBytes d bytes)
      (fun why S' => S' = S ∧
        (why = .invalidName ∧ isValidName name = false ∨
          why = .alreadyExists ∧ findSlot (S.slots d) name ≠ none ∨
          why = .noSpace ∧ findSlot (S.slots d) name = none ∧
            ∀ e ∈ S.slots d, e.isInUse = true)) := by
  refine (add_slot_tries hd hn hallowed hwhole fun _ => hroom).mono ?_ ?_
  · rintro - S' ⟨hname, hnew, i, e, bytes, hi, he, hslotted, rfl⟩
    exact ⟨hname, hnew, bytes, hslotted.joined hes hi hname he hnew hdot hdots, rfl⟩
  · rintro why S' ⟨rfl, ⟨rfl, hname⟩ | ⟨rfl, -, hfound⟩ | ⟨rfl, -, hnew, hall⟩⟩
    · exact ⟨rfl, .inl ⟨rfl, hname⟩⟩
    · exact ⟨rfl, .inr (.inl ⟨rfl, hfound⟩)⟩
    · exact ⟨rfl, .inr (.inr ⟨rfl, hnew, hall⟩)⟩

/-! ### Taking out -/

/-- A directory that has no names goes on; one that has is refused. Nothing changes. -/
theorem refuseUnlessEmpty_tries (hd : d ∈ S.live) (hc : S.Counted) :
    Tries (Stores total) faults (refuseUnlessEmpty (n := n) d) S
      (fun _ S' => (∀ name, findSlot (S.slots d) name = none) ∧ S' = S)
      (fun why S' => why = .directoryNotEmpty ∧
        (∃ name, findSlot (S.slots d) name ≠ none) ∧ S' = S) := by
  have hn := S.node_opened d
  unfold refuseUnlessEmpty
  refine Tries.bind (Tries.always ((Inode.open_stores hd).mono ?_))
  rintro - S₁ rfl
  refine Tries.bind (Tries.always ((isEmpty_does (S := S.opened d) hd hn).mono ?_))
  rintro empty S₁ ⟨hempty, rfl⟩
  refine Tries.bind (Tries.always ((Inode.close_stores (S := S.opened d) hd hn).mono ?_))
  rintro - S₁ rfl
  rw [Shelf.closed_opened hc]
  cases empty with
  | true => exact Tries.pure ⟨hempty.mp rfl, rfl⟩
  | false =>
    refine Tries.refuse ⟨rfl, ?_, rfl⟩
    by_contra hall
    have hfalse := hempty.mpr fun name => by
      by_contra hne
      exact hall ⟨name, hne⟩
    cases hfalse

/-- Putting a tombstone into a slot, which stays as it is while writing is denied. -/
theorem writeTombstone_tries {refused : Refusal → Shelf → Prop} (hd : d ∈ S.live)
    (hn : S.node d = some nd) (hwhole : entrySize ∣ (S.bytes d).length)
    (hi : i < (S.slots d).length) :
    Tries (Stores total) faults (Inode.writeAt (n := n) d (i * entrySize) e.tombstone.toBytes) S
      (fun _ S' => ∃ bytes, Cleared nd (S.bytes d) i e bytes ∧ S' = S.setBytes d bytes)
      refused := by
  by_cases hdenied : 0 < nd.denials
  · refine (Inode.writeAt_denied hn hdenied).mono ?_ fun _ _ => id
    rintro k S' ⟨-, rfl⟩
    exact ⟨S'.bytes d, by rw [Cleared, if_pos hdenied], (S'.setBytes_self d).symm⟩
  · refine (writeSlot_tries hd hn (by omega) hwhole (Nat.le_of_lt hi) (.inl hi)).mono ?_ ?_
    · rintro k S' ⟨-, bytes, hslotted, rfl⟩
      exact ⟨bytes, by rw [Cleared, if_neg hdenied]; exact hslotted, rfl⟩
    · rintro why S' ⟨-, hend, -⟩
      exact absurd hend (Nat.ne_of_gt hi)

/-- Clearing the slot of an inode that is open, and marking the inode as removed, if it may go. -/
theorem clearSlot_tries {check : Entry → Node → Except Refusal Unit} (hd : d ∈ S.live)
    (hn : S.node d = some nd) (hwhole : entrySize ∣ (S.bytes d).length) (hc : S.Counted)
    (hi : i < (S.slots d).length) (ht : e.sector ∈ S.live) (hne : d ≠ e.sector) :
    Tries (Stores total) faults (do
      ofAnswer (check e (← always (Inode.node (n := n) e.sector)))
      if e.isDir then refuseUnlessEmpty e.sector
      let _ ← Inode.writeAt d (i * entrySize) e.tombstone.toBytes
      always (Inode.markRemoved e.sector)) (S.opened e.sector)
      (fun _ S' => S.MayGo check e ∧ ∃ bytes, Cleared nd (S.bytes d) i e bytes ∧
        S' = ((S.opened e.sector).setBytes d bytes).setNode e.sector
          (some { S.seen e.sector with removed := true }))
      (fun why S' => S' = S.opened e.sector ∧ S.MustStay check e why) := by
  have hnt := S.node_opened e.sector
  have hnd : (S.opened e.sector).node d = some nd := (Shelf.node_opened_of_ne hne).trans hn
  refine Tries.bind (Tries.always ((Inode.node_stores hnt).mono ?_))
  rintro nt S₁ ⟨rfl, hbare, rfl⟩
  refine Tries.bind (Tries.ofAnswer (fun _ hok => ?_) fun why herror => ⟨rfl, .inl herror⟩)
  -- what is left to do once it is known that the inode may go
  have hwrite : (e.isDir = true → ∀ m, findSlot (S.slots e.sector) m = none) →
      Tries (Stores total) faults (do
        let _ ← Inode.writeAt (n := n) d (i * entrySize) e.tombstone.toBytes
        always (Inode.markRemoved e.sector)) (S.opened e.sector)
        (fun _ S' => S.MayGo check e ∧ ∃ bytes, Cleared nd (S.bytes d) i e bytes ∧
          S' = ((S.opened e.sector).setBytes d bytes).setNode e.sector
            (some { S.seen e.sector with removed := true }))
        (fun _ _ => False) := by
    intro hempty
    refine Tries.andThen (writeTombstone_tries (S := S.opened e.sector) hd hnd hwhole hi) ?_
      fun _ _ => id
    rintro k S₁ ⟨bytes, hcleared, rfl⟩
    refine Tries.always ((Inode.updateNode_stores (S := (S.opened e.sector).setBytes d bytes) ht
      hnt fun hbare => hbare).mono ?_)
    rintro - S₁ rfl
    exact ⟨⟨hok, hempty⟩, bytes, hcleared, rfl⟩
  cases hdir : e.isDir with
  | false =>
    rw [hdir] at hwrite
    exact (hwrite fun htrue => absurd htrue Bool.false_ne_true).mono (fun _ _ h => h)
      fun _ _ => False.elim
  | true =>
    rw [hdir] at hwrite
    refine Tries.andThen (refuseUnlessEmpty_tries (S := S.opened e.sector) ht (hc.opened _)) ?_ ?_
    · rintro - S₁ ⟨hempty, rfl⟩
      exact (hwrite fun _ => hempty).mono (fun _ _ h => h) fun _ _ => False.elim
    · rintro why S₁ ⟨rfl, hfull, rfl⟩
      exact ⟨rfl, .inr ⟨hok, hdir, rfl, hfull⟩⟩

/-- Taking out the entry of an inode that is not the directory itself. -/
theorem removeEntry_tries {check : Entry → Node → Except Refusal Unit} (hd : d ∈ S.live)
    (hn : S.node d = some nd) (hwhole : entrySize ∣ (S.bytes d).length) (hc : S.Counted)
    (hi : i < (S.slots d).length) (ht : e.sector ∈ S.live) (hne : d ≠ e.sector) :
    Tries (Stores total) faults (removeEntry (n := n) d e (i * entrySize) check) S
      (fun _ S' => S.MayGo check e ∧ ∃ bytes, Cleared nd (S.bytes d) i e bytes ∧
        S' = (S.setBytes d bytes).removed e.sector)
      (fun why S' => S' = S ∧ S.MustStay check e why) := by
  refine Tries.bind (Tries.always ((Inode.open_stores ht).mono ?_))
  rintro - S₁ rfl
  refine Tries.thenAlways ((clearSlot_tries hd hn hwhole hc hi ht hne).mono ?_ ?_)
  · rintro - S₁ ⟨hgo, bytes, hcleared, rfl⟩
    refine (Inode.close_stores (S := ((S.opened e.sector).setBytes d bytes).setNode _ _) ht
      (Function.update_self ..)).mono ?_
    rintro - S₁ rfl
    exact ⟨hgo, bytes, hcleared, Shelf.closed_removed (S := S.setBytes d bytes) hc⟩
  · rintro why S₁ ⟨rfl, hwhy⟩
    refine (Inode.close_stores (S := S.opened e.sector) ht (S.node_opened e.sector)).mono ?_
    rintro - S' rfl
    exact ⟨Shelf.closed_opened hc, hwhy⟩

/-- Taking a name out clears its slot and marks its inode as removed, the latter also while writing
is denied and the name stays; refused, it changes nothing. -/
theorem removeIf_slot_tries {check : Entry → Node → Except Refusal Unit} (hd : d ∈ S.live)
    (hn : S.node d = some nd) (hwhole : entrySize ∣ (S.bytes d).length) (hc : S.Counted)
    (htarget : ∀ t b, findSlot (S.slots d) name = some (t, b) → t ∈ S.live ∧ d ≠ t) :
    Tries (Stores total) faults (removeIf (n := n) d name check) S
      (fun _ S' => ∃ i e, FoundAt (S.slots d) name i e ∧ S.MayGo check e ∧
        ∃ bytes, Cleared nd (S.bytes d) i e bytes ∧ S' = (S.setBytes d bytes).removed e.sector)
      (fun why S' => S' = S ∧ (why = .notFound ∧ findSlot (S.slots d) name = none ∨
        ∃ i e, FoundAt (S.slots d) name i e ∧ S.MustStay check e why)) := by
  unfold removeIf
  refine Tries.bind (Tries.always ((lookup_does hd hn).mono ?_))
  rintro (- | ⟨e, offset⟩) S' ⟨rfl, hr⟩
  · exact Tries.refuse ⟨rfl, .inl ⟨rfl, hr⟩⟩
  obtain ⟨i, rfl, hfound⟩ := hr
  obtain ⟨ht, hne⟩ := htarget _ _ hfound.find
  refine (removeEntry_tries hd hn hwhole hc (List.getElem?_eq_some_iff.mp hfound.slot).1 ht
    hne).mono ?_ ?_
  · rintro - S₁ ⟨hgo, bytes, hcleared, rfl⟩
    exact ⟨i, e, hfound, hgo, bytes, hcleared, rfl⟩
  · rintro why S₁ ⟨rfl, hwhy⟩
    exact ⟨rfl, .inr ⟨i, e, hfound, hwhy⟩⟩

/-- Taking a name out marks its inode as removed, also while writing is denied and the name stays;
refused, it changes nothing. -/
theorem removeIf_effect {check : Entry → Node → Except Refusal Unit} (hd : d ∈ S.live)
    (hn : S.node d = some nd) (hwhole : entrySize ∣ (S.bytes d).length)
    (hes : Orderly (S.slots d)) (hc : S.Counted)
    (htarget : ∀ t b, findSlot (S.slots d) name = some (t, b) → t ∈ S.live ∧ d ≠ t) :
    Tries (Stores total) faults (removeIf (n := n) d name check) S
      (fun _ S' => ∃ e, findSlot (S.slots d) name = some (e.sector, e.isDir) ∧ S.MayGo check e ∧
        ∃ bytes, TakenOut nd (S.bytes d) bytes name ∧ S' = (S.setBytes d bytes).removed e.sector)
      (fun why S' => S' = S ∧ (why = .notFound ∧ findSlot (S.slots d) name = none ∨
        ∃ e, findSlot (S.slots d) name = some (e.sector, e.isDir) ∧ S.MustStay check e why)) := by
  refine (removeIf_slot_tries hd hn hwhole hc htarget).mono ?_ ?_
  · rintro - S' ⟨i, e, hfound, hgo, bytes, hcleared, rfl⟩
    exact ⟨e, hfound.find, hgo, bytes, hfound.named ▸ hcleared.takenOut hes hfound.slot hfound.used,
      rfl⟩
  · rintro why S' ⟨rfl, hnone | ⟨i, e, hfound, hwhy⟩⟩
    · exact ⟨rfl, .inl hnone⟩
    · exact ⟨rfl, .inr ⟨e, hfound.find, hwhy⟩⟩

/-- Taking a name out marks its inode as removed; refused, it changes nothing. -/
theorem removeIf_tries {check : Entry → Node → Except Refusal Unit} (hd : d ∈ S.live)
    (hn : S.node d = some nd) (hallowed : nd.denials = 0)
    (hwhole : entrySize ∣ (S.bytes d).length) (hes : Orderly (S.slots d)) (hc : S.Counted)
    (htarget : ∀ t b, findSlot (S.slots d) name = some (t, b) → t ∈ S.live ∧ d ≠ t) :
    Tries (Stores total) faults (removeIf (n := n) d name check) S
      (fun _ S' => ∃ e, findSlot (S.slots d) name = some (e.sector, e.isDir) ∧ S.MayGo check e ∧
        ∃ bytes, Relisted (S.bytes d) bytes name none ∧ S' = (S.setBytes d bytes).removed e.sector)
      (fun why S' => S' = S ∧ (why = .notFound ∧ findSlot (S.slots d) name = none ∨
        ∃ e, findSlot (S.slots d) name = some (e.sector, e.isDir) ∧ S.MustStay check e why)) := by
  refine (removeIf_effect hd hn hwhole hes hc htarget).mono ?_ fun _ _ => id
  rintro - S' ⟨e, hfind, hgo, bytes, hout, rfl⟩
  exact ⟨e, hfind, hgo, bytes, hout.relisted hallowed, rfl⟩

end Directory
end TieredVolume
