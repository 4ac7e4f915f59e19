import TieredVolume.Proofs.Alike.Lifetime
import TieredVolume.Proofs.Namespace.Directory

/-!
The operations on directories, twice over.
-/
namespace TieredVolume

variable {total : Nat} {w : View} {S : Shelf} {d s : Sector} {nd : Node} {p : Entry → Bool} {e : Entry}
  {offset slots i : Nat} {name : String} {target : Sector} {isDir : Bool}

namespace Inode

open Volume Attempt

theorem updateNode_alike {g : Node → Node} (hw : Keeps total w S) (hn : S.node s = some nd)
    (hg : nd.loaded = none → (g nd).loaded = none) :
    Alike (fun n => updateNode (n := n) s g) w := by
  have hset : ∀ {n : Nat}, Does Shows never (updateNode (n := n) s g) w
      fun _ w' => w' = w.setNode s (some (g nd)) := fun {n} => by
    refine Does.andThen (node_does_of_unloaded (by rw [hw.node, hn]) (hw.unloaded s)) ?_
    rintro nd' w' ⟨rfl, hbare, rfl⟩
    exact setNode_does (hw.unloaded s) (hg hbare)
  exact Alike.of_move hset

end Inode

namespace Directory

open Volume Attempt

/-! ### Searching -/

section Search

variable (hd : d ∈ S.live) (hn : S.node d = some nd)

include hd hn

theorem entryAt_alike (hw : Keeps total w S) : Alike (fun n => entryAt (n := n) d offset) w :=
  (Inode.readAt_alike hd hn hw).map

theorem findFrom_alike (hw : Keeps total w S) :
    Alike (fun n => findFrom (n := n) d p slots offset) w := by
  induction slots generalizing offset w with
  | zero => exact InStep.pure rfl
  | succ slots ih =>
    refine Alike.andThen (entryAt_alike hd hn hw) ((entryAt_quiet hd hn).lower hw) ?_
    rintro r w' ⟨_, hw', rfl⟩
    match r with
    | none => exact InStep.pure rfl
    | some e => exact InStep.ite (fun _ => InStep.pure rfl) fun _ => ih hw'

theorem lookup_alike (hw : Keeps total w S) : Alike (fun n => lookup (n := n) d name) w :=
  findFrom_alike hd hn hw

theorem isEmpty_alike (hw : Keeps total w S) : Alike (fun n => isEmpty (n := n) d) w :=
  (findFrom_alike hd hn hw).map

theorem nextFrom_alike (hw : Keeps total w S) :
    Alike (fun n => nextFrom (n := n) d slots offset) w := by
  induction slots generalizing offset w with
  | zero => exact InStep.pure rfl
  | succ slots ih =>
    refine Alike.andThen (entryAt_alike hd hn hw) ((entryAt_quiet hd hn).lower hw) ?_
    rintro r w' ⟨_, hw', rfl⟩
    match r with
    | none => exact InStep.pure rfl
    | some e => exact InStep.ite (fun _ => InStep.pure rfl) fun _ => ih hw'

theorem freeOffset_alike (hw : Keeps total w S) : Alike (fun n => freeOffset (n := n) d) w := by
  refine Alike.andThen (findFrom_alike hd hn hw) ((findEntry_does hd hn).lower hw) ?_
  rintro (- | ⟨e, offset⟩) w' ⟨_, hw', -, rfl⟩
  · exact Inode.length_alike hd hn hw'
  · exact InStep.pure rfl

/-! ### Adding and taking out -/

theorem add_alike (hw : Keeps total w S) (hwhole : entrySize ∣ (S.bytes d).length) :
    Alike (fun n => (add (n := n) d name target isDir).run) w := by
  unfold add
  cases hname : isValidName name with
  | false => exact InStep.refuse_bind rfl
  | true =>
    refine InStep.always_bind (Alike.andThen (lookup_alike hd hn hw) ((lookup_does hd hn).lower hw) ?_)
    rintro (- | ⟨e, offset⟩) w₁ ⟨_, hw₁, rfl, -⟩
    · refine InStep.always_bind (Alike.andThen (freeOffset_alike hd hn hw₁)
        ((freeOffset_does hd hn hwhole).lower hw₁) ?_)
      rintro offset w₂ ⟨_, hw₂, rfl, -⟩
      refine InStep.always_bind (InStep.ofExcept fun entry _ => ?_)
      refine InStep.bind (Inode.writeAt_alike hd hn hw₂) ?_ fun _ _ _ hmet => hmet
      rintro written w₃ _ rfl
      by_cases hwritten : written ≠ entrySize
      · simp only [if_pos hwritten]
        exact InStep.pure rfl
      · simp only [if_neg hwritten]
        exact InStep.pure rfl
    · exact InStep.refuse_bind rfl

end Search

theorem refuseUnlessEmpty_alike (hw : Keeps total w S) (hd : d ∈ S.live) :
    Alike (fun n => (refuseUnlessEmpty (n := n) d).run) w := by
  have hn := S.node_opened d
  refine InStep.always_bind (Alike.andThen Inode.open_alike ((Inode.open_stores hd).lower hw) ?_)
  rintro - w₁ ⟨_, hw₁, rfl⟩
  refine InStep.always_bind (Alike.andThen (isEmpty_alike (S := S.opened d) hd hn hw₁)
    ((isEmpty_does (S := S.opened d) hd hn).lower hw₁) ?_)
  rintro empty w₂ ⟨_, hw₂, -, rfl⟩
  refine InStep.always_bind (InStep.andThen (Inode.close_alike (S := S.opened d) hw₂ hd hn) ?_)
  rintro - w₃ _ rfl
  cases empty with
  | true => exact InStep.pure rfl
  | false => exact InStep.pure rfl

section Remove

variable {check : Entry → Node → Except Refusal Unit} (hd : d ∈ S.live) (hn : S.node d = some nd)
  (hallowed : nd.denials = 0) (hwhole : entrySize ∣ (S.bytes d).length) (hc : S.Counted)

include hd hn hallowed hwhole hc

theorem removeEntry_alike (hw : Keeps total w S) (hi : i < (S.slots d).length)
    (ht : e.sector ∈ S.live) (hne : d ≠ e.sector) :
    Alike (fun n => (removeEntry (n := n) d e (i * entrySize) check).run) w := by
  have hnt := S.node_opened e.sector
  have hnd : (S.opened e.sector).node d = some nd := (Shelf.node_opened_of_ne hne).trans hn
  have hclear : ∀ w', Keeps total w' (S.opened e.sector) → Alike (fun n => (do
      let _ ← Inode.writeAt (n := n) d (i * entrySize) e.tombstone.toBytes
      always (Inode.markRemoved e.sector)).run) w' := fun w' hw' => by
    refine Alike.bind (Inode.writeAt_alike (S := S.opened e.sector) hd hnd hw') ((writeSlot_tries
      (S := S.opened e.sector) hd hnd hallowed hwhole (Nat.le_of_lt hi) (.inl hi)).lower hw') ?_
    rintro k w₂ ⟨_, hw₂, -, bytes, -, rfl⟩
    exact InStep.always (Inode.updateNode_alike hw₂ hnt fun hbare => hbare)
  refine InStep.always_bind (Alike.andThen Inode.open_alike ((Inode.open_stores ht).lower hw) ?_)
  rintro - w₁ ⟨_, hw₁, rfl⟩
  refine Alike.thenAlways ?_ ((clearSlot_tries hd hn hwhole hc hi ht hne).lower hw₁) ?_ ?_
  · refine InStep.always_bind (Alike.known (Inode.node_does (by rw [hw₁.node]; exact hnt)) ?_)
    refine InStep.ofAnswer_bind (fun _ _ => ?_) fun _ _ => rfl
    cases e.isDir with
    | false => exact hclear w₁ hw₁
    | true =>
      refine Alike.bind (refuseUnlessEmpty_alike (S := S.opened e.sector) hw₁ ht)
        ((refuseUnlessEmpty_tries (S := S.opened e.sector) ht (hc.opened _)).lower hw₁) ?_
      rintro - w₂ ⟨_, hw₂, -, rfl⟩
      exact hclear w₂ hw₂
  · rintro - w₂ ⟨_, hw₂, -, bytes, -, rfl⟩
    exact Inode.close_alike hw₂ ht (Function.update_self ..)
  · rintro why w₂ ⟨_, hw₂, rfl, -⟩
    exact Inode.close_alike (S := S.opened e.sector) hw₂ ht hnt

theorem removeIf_alike (hw : Keeps total w S)
    (htarget : ∀ t b, findSlot (S.slots d) name = some (t, b) → t ∈ S.live ∧ d ≠ t) :
    Alike (fun n => (removeIf (n := n) d name check).run) w := by
  refine InStep.always_bind (Alike.andThen (lookup_alike hd hn hw) ((lookup_does hd hn).lower hw) ?_)
  rintro (- | ⟨e, offset⟩) w' ⟨_, hw', rfl, hfound⟩
  · exact InStep.pure rfl
  · obtain ⟨i, rfl, hfound⟩ := hfound
    obtain ⟨ht, hne⟩ := htarget _ _ hfound.find
    exact removeEntry_alike hd hn hallowed hwhole hc hw'
      (List.getElem?_eq_some_iff.mp hfound.slot).1 ht hne

end Remove

end Directory
end TieredVolume
