import TieredVolume.Proofs.Namespace.Directory

/-!
Reading the names of a directory. Each step hands out the name of the next slot in use and goes on
behind it, so that all steps together hand out the names of the slots in use, in slot order.
-/
namespace TieredVolume

variable {total : Nat} {S : Shelf} {d : Sector} {nd : Node} {es : List Entry} {e : Entry}
  {i count : Nat} {names : List String} {faults : Fault → Prop} {n : Nat}

/-- The names in use from slot `i` on. -/
def namesAfter (es : List Entry) (i : Nat) : List String :=
  ((es.drop i).filter (·.isInUse)).map (·.name)

theorem namesAfter_of_end (h : es[i]? = none) : namesAfter es i = [] := by
  rw [namesAfter, List.drop_eq_nil_of_le (List.getElem?_eq_none_iff.mp h)]
  rfl

theorem namesAfter_of_used (h : es[i]? = some e) (hu : e.isInUse = true) :
    namesAfter es i = e.name :: namesAfter es (i + 1) := by
  obtain ⟨hlt, rfl⟩ := List.getElem?_eq_some_iff.mp h
  rw [namesAfter, List.drop_eq_getElem_cons hlt, List.filter_cons_of_pos hu, List.map_cons,
    namesAfter]

theorem namesAfter_of_unused (h : es[i]? = some e) (hu : ¬ e.isInUse = true) :
    namesAfter es i = namesAfter es (i + 1) := by
  obtain ⟨hlt, rfl⟩ := List.getElem?_eq_some_iff.mp h
  rw [namesAfter, List.drop_eq_getElem_cons hlt, List.filter_cons_of_neg hu, namesAfter]

/-- A name is handed out if it stands for an inode. -/
theorem mem_namesAfter_zero {name : String} :
    name ∈ namesAfter es 0 ↔ findSlot es name ≠ none := by
  rw [namesAfter, List.drop_zero, findSlot, ne_eq, Option.map_eq_none_iff, List.find?_eq_none]
  simp only [List.mem_map, List.mem_filter, Bool.and_eq_true, beq_iff_eq, not_forall, not_not]
  constructor
  · rintro ⟨e, ⟨he, hu⟩, hname⟩
    exact ⟨e, he, hu, hname⟩
  · rintro ⟨e, he, hu, hname⟩
    exact ⟨e, ⟨he, hu⟩, hname⟩

/-- No name of a directory is handed out twice. -/
theorem Orderly.nodup_namesAfter (h : Orderly es) : (namesAfter es 0).Nodup := by
  rw [namesAfter, List.drop_zero, List.Nodup, List.pairwise_map, List.pairwise_filter,
    List.pairwise_iff_getElem]
  intro i j hi hj hij hu hu' hname
  exact Nat.ne_of_lt hij (h.distinct i j es[i] es[j] (List.getElem?_eq_getElem hi)
    (List.getElem?_eq_getElem hj) hu hu' hname)

/-- What lies between is passed over if nothing in it is in use. -/
theorem namesAfter_skip {j : Nat} (hij : i ≤ j)
    (hunused : ∀ (k : Nat) e, i ≤ k → k < j → es[k]? = some e → e.isInUse = false) :
    namesAfter es i = namesAfter es j := by
  induction j, hij using Nat.le_induction with
  | base => rfl
  | succ j hij ih =>
    rw [ih fun k e hk hkj => hunused k e hk (Nat.lt_succ_of_lt hkj)]
    cases he : es[j]? with
    | none =>
      have hend : es[j + 1]? = none :=
        List.getElem?_eq_none ((List.getElem?_eq_none_iff.mp he).trans (Nat.le_succ j))
      rw [namesAfter_of_end he, namesAfter_of_end hend]
    | some e =>
      refine namesAfter_of_unused he ?_
      rw [hunused j e hij (Nat.lt_succ_self j) he]
      nofun

/-- What a step from slot `i` on comes to: the first slot in use, or the end of the slots. -/
def NextSlot (es : List Entry) (i : Nat) : Option String × Nat → Prop
  | (some name, offset) => ∃ j e, offset = (j + 1) * entrySize ∧ i ≤ j ∧ es[j]? = some e ∧
      e.isInUse = true ∧ e.name = name ∧
      ∀ (k : Nat) e', i ≤ k → k < j → es[k]? = some e' → e'.isInUse = false
  | (none, offset) => offset = max i es.length * entrySize ∧
      ∀ (k : Nat) e, i ≤ k → es[k]? = some e → e.isInUse = false

/-- A slot in use is not passed over. -/
theorem NextSlot.eq_of_used {r : Option String × Nat} (h : NextSlot es i r) (he : es[i]? = some e)
    (hu : e.isInUse = true) : r = (some e.name, (i + 1) * entrySize) := by
  match r, h with
  | (none, offset), ⟨_, hunused⟩ =>
    rw [hunused i e (Nat.le_refl i) he] at hu
    cases hu
  | (some name, offset), ⟨j, e', hoffset, hij, he', hu', hname, hunused⟩ =>
    have hji : j = i := by
      by_contra hne
      rw [hunused i e (Nat.le_refl i) (by omega) he] at hu
      cases hu
    subst hji
    rw [he] at he'
    rw [Option.some.inj he', hname, hoffset]

/-- What a step from slot `i` on hands out: the first name there is, and where to go on. -/
def NextName (es : List Entry) (i : Nat) : Option String × Nat → Prop
  | (some name, offset) => ∃ j, offset = j * entrySize ∧ i < j ∧
      namesAfter es i = name :: namesAfter es j
  | (none, _) => namesAfter es i = []

theorem NextSlot.nextName {r : Option String × Nat} (h : NextSlot es i r) : NextName es i r := by
  match r, h with
  | (none, offset), ⟨_, hunused⟩ =>
    refine (namesAfter_skip (Nat.le_max_left i es.length) fun k e hk _ => hunused k e hk).trans ?_
    exact namesAfter_of_end (List.getElem?_eq_none (Nat.le_max_right ..))
  | (some name, offset), ⟨j, e, hoffset, hij, he, hu, hname, hunused⟩ =>
    refine ⟨j + 1, hoffset, Nat.lt_succ_of_le hij, ?_⟩
    rw [namesAfter_skip hij hunused, namesAfter_of_used he hu, hname]

namespace Directory

section

variable (hd : d ∈ S.live) (hn : S.node d = some nd)

include hd hn

theorem nextFrom_does (hslots : (S.slots d).length ≤ i + count) :
    Does (Stores total) faults (nextFrom (n := n) d count (i * entrySize)) S fun r S' =>
      NextSlot (S.slots d) i r ∧ S' = S := by
  induction count generalizing i with
  | zero =>
    refine Does.pure ⟨⟨congrArg (· * entrySize) (Nat.max_eq_left hslots).symm,
      fun k e hk he => ?_⟩, rfl⟩
    have hlt := (List.getElem?_eq_some_iff.mp he).1
    omega
  | succ count ih =>
    refine Does.andThen (entryAt_does hd hn) ?_
    rintro r S' ⟨rfl, rfl⟩
    have hnext : i * entrySize + entrySize = (i + 1) * entrySize := (Nat.succ_mul _ _).symm
    cases he : (S'.slots d)[i]? with
    | none =>
      have hend := List.getElem?_eq_none_iff.mp he
      refine Does.pure ⟨⟨by rw [Nat.max_eq_left hend], fun k e hk he => ?_⟩, rfl⟩
      have hlt := (List.getElem?_eq_some_iff.mp he).1
      omega
    | some e =>
      by_cases hu : e.isInUse = true
      · simp only [if_pos hu]
        exact Does.pure ⟨⟨i, e, hnext, Nat.le_refl i, he, hu, rfl, fun k e' hk hki => by omega⟩,
          rfl⟩
      · simp only [if_neg hu, hnext]
        have hpast := unlike_or_past he (Bool.eq_false_iff.mpr hu)
        refine (ih (by omega)).mono ?_
        rintro ⟨- | name, offset⟩ S'' ⟨hr, rfl⟩
        · obtain ⟨hoffset, hunused⟩ := hr
          have hlt := (List.getElem?_eq_some_iff.mp he).1
          refine ⟨⟨by rw [hoffset, Nat.max_eq_right hlt, Nat.max_eq_right (Nat.le_of_lt hlt)],
            fun k e' hk he' => ?_⟩, rfl⟩
          exact (hpast k e' hk he').elim id fun hk => hunused k e' hk he'
        · obtain ⟨j, e', hoffset, hij, he', hu', hname, hunused⟩ := hr
          refine ⟨⟨j, e', hoffset, Nat.le_of_succ_le hij, he', hu', hname,
            fun k e'' hk hkj he'' => ?_⟩, rfl⟩
          exact (hpast k e'' hk he'').elim id fun hk => hunused k e'' hk hkj he''

theorem nextSlot_does : Does (Stores total) faults (next (n := n) d (i * entrySize)) S fun r S' =>
    NextSlot (S.slots d) i r ∧ S' = S := fun v hv =>
  nextFrom_does hd hn ((hv.length_slots_le hd).trans (Nat.le_add_left ..)) v hv

theorem nextName_does : Does (Stores total) faults (next (n := n) d (i * entrySize)) S fun r S' =>
    NextName (S.slots d) i r ∧ S' = S :=
  (nextSlot_does hd hn).mono fun _ _ h => ⟨h.1.nextName, h.2⟩

theorem namesFrom_does (hslots : (S.slots d).length ≤ i + count) :
    Does (Stores total) faults (namesFrom (n := n) d count (i * entrySize) names) S fun r S' =>
      r = (namesAfter (S.slots d) i).reverse ++ names ∧ S' = S := by
  induction count generalizing i names with
  | zero =>
    have hend : namesAfter (S.slots d) i = [] := namesAfter_of_end (List.getElem?_eq_none hslots)
    rw [hend]
    exact Does.pure ⟨rfl, rfl⟩
  | succ count ih =>
    refine Does.andThen (nextName_does hd hn) ?_
    rintro ⟨- | name, offset⟩ S' ⟨hr, rfl⟩
    · rw [show namesAfter (S'.slots d) i = [] from hr]
      exact Does.pure ⟨rfl, rfl⟩
    · obtain ⟨j, rfl, hij, hnames⟩ := hr
      refine (ih (by omega)).mono ?_
      rintro r S'' ⟨rfl, rfl⟩
      rw [hnames, List.reverse_cons, List.append_assoc]
      exact ⟨rfl, rfl⟩

/-- The names of a directory are those of its slots in use, in slot order. -/
theorem names_does : Does (Stores total) faults (Directory.names (n := n) d) S fun r S' =>
    r = namesAfter (S.slots d) 0 ∧ S' = S := by
  intro v hv
  have hall : Does (Stores total) faults (namesFrom (n := n) d maxSlots (0 * entrySize) []) S _ :=
    namesFrom_does hd hn (by rw [Nat.zero_add]; exact hv.length_slots_le hd)
  rw [Nat.zero_mul] at hall
  refine (Does.andThen hall ?_) v hv
  rintro r S' ⟨rfl, rfl⟩
  rw [List.append_nil]
  exact Does.pure ⟨List.reverse_reverse _, rfl⟩

end

end Directory
end TieredVolume
