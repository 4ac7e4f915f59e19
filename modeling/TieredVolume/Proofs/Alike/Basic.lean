import TieredVolume.Proofs.Space.Allocation

/-!
Two runs of one program on two volumes, with caches of any size over any devices. They are in step
if they end in the same fault, or give the same answer and leave volumes that can be compared again.
A program for which it is enough that both volumes look the same from above the cache, and which
leaves them so, runs alike: its answer does not depend on what is cached or on what is in sectors
that nobody may look at.
-/
namespace TieredVolume

variable {α β : Type} {w w' w₂ : View} {p : α → View → View → Prop}

/-- Two runs end in the same fault, or with the same answer and views for which `post` holds. -/
inductive Agree {m n : Nat} (post : α → View → View → Prop) :
    EStateM.Result Fault (Volume m) α → EStateM.Result Fault (Volume n) α → Prop where
  | ok {a : α} {v : Volume m} {u : Volume n} {w w₂ : View} :
    v.Shows w → u.Shows w₂ → post a w w₂ → Agree post (.ok a v) (.ok a u)
  | error {e : Fault} {v : Volume m} {u : Volume n} : Agree post (.error e v) (.error e u)

/-- Volumes with these two views run in step. -/
def InStep (x : (n : Nat) → VolumeM n α) (w w₂ : View) (post : α → View → View → Prop) : Prop :=
  ∀ (m n : Nat) (v : Volume m) (u : Volume n), v.Shows w → u.Shows w₂ → Agree post (x m v) (x n u)

/-- Afterwards the volumes have one view. -/
abbrev Met (_ : α) (w w₂ : View) : Prop := w = w₂

/-- Volumes with this view run in step, and have one view again afterwards. -/
abbrev Alike (x : (n : Nat) → VolumeM n α) (w : View) : Prop := InStep x w w Met

/-- If one of two volumes with the same view shows another one too, so does the other. -/
theorem Volume.Shows.swap {m n : Nat} {v : Volume m} {u : Volume n} (h : v.Shows w) (h' : v.Shows w')
    (hu : u.Shows w) : u.Shows w' := by
  refine hu.congr (h'.total.symm.trans h.total) (h'.used.symm.trans h.used)
    (h'.node.symm.trans h.node) (h'.loaded.symm.trans h.loaded) fun s hs => ?_
  have hs' : w'.Stored s := by
    rwa [View.Stored, ← h'.used, ← h'.total, h.used, h.total]
  rw [← h'.block s hs', h.block s hs]

/-- Two volumes that look the same from above their caches. -/
def Volume.LooksLike {m n : Nat} (v : Volume m) (u : Volume n) : Prop := ∃ w, v.Shows w ∧ u.Shows w

theorem Volume.LooksLike.shows {m n : Nat} {v : Volume m} {u : Volume n} (h : v.LooksLike u)
    (hv : v.Shows w) : u.Shows w := by
  obtain ⟨w', hv', hu'⟩ := h
  exact hv'.swap hv hu'

/-- Runs that go in step and meet again. -/
theorem Agree.met {m n : Nat} {r : EStateM.Result Fault (Volume m) α}
    {r' : EStateM.Result Fault (Volume n) α} (h : Agree Met r r') :
    (∃ e v u, r = .error e v ∧ r' = .error e u) ∨
      ∃ a v u, r = .ok a v ∧ r' = .ok a u ∧ v.LooksLike u := by
  cases h with
  | ok hv hu hmet => exact .inr ⟨_, _, _, rfl, rfl, _, hv, hmet ▸ hu⟩
  | error => exact .inl ⟨_, _, _, rfl, rfl⟩

namespace InStep

variable {x : (n : Nat) → VolumeM n α} {f : (n : Nat) → α → VolumeM n β} {q : β → View → View → Prop}

theorem mono {p' : α → View → View → Prop} (h : InStep x w w₂ p)
    (hp : ∀ a w' w₂', p a w' w₂' → p' a w' w₂') : InStep x w w₂ p' := fun m n v u hv hu => by
  have hagree := h m n v u hv hu
  generalize x m v = r at hagree ⊢
  generalize x n u = r₂ at hagree ⊢
  cases hagree with
  | ok hv' hu' hpost => exact .ok hv' hu' (hp _ _ _ hpost)
  | error => exact .error

theorem andThen (h : InStep x w w₂ p)
    (hf : ∀ a w' w₂', p a w' w₂' → InStep (fun n => f n a) w' w₂' q) :
    InStep (fun n => x n >>= f n) w w₂ q := fun m n v u hv hu => by
  have hagree := h m n v u hv hu
  simp only [Bind.bind, EStateM.bind]
  generalize x m v = r at hagree ⊢
  generalize x n u = r₂ at hagree ⊢
  cases hagree with
  | ok hv' hu' hpost => exact hf _ _ _ hpost _ _ _ _ hv' hu'
  | error => exact .error

theorem pure {a : α} (h : p a w w₂) : InStep (fun _ => Pure.pure a) w w₂ p := fun _ _ _ _ hv hu =>
  .ok hv hu h

theorem throw {e : Fault} : InStep (fun _ => throw e) w w₂ p := fun _ _ _ _ _ _ => .error

/-- Two runs whose outcome is known. -/
theorem of_does {q q₂ : α → View → Prop} (hx : ∀ {n}, Does Volume.Shows never (x n) w q)
    (hy : ∀ {n}, Does Volume.Shows never (x n) w₂ q₂)
    (h : ∀ a b w' w₂', q a w' → q₂ b w₂' → b = a ∧ p a w' w₂') : InStep x w w₂ p := by
  intro m n v u hv hu
  obtain ⟨a, v', hrun, w', hv', hq⟩ := (hx v hv).ok_of_never
  obtain ⟨b, u', hrun', w₂', hu', hq₂⟩ := (hy u hu).ok_of_never
  obtain ⟨rfl, hpost⟩ := h a b w' w₂' hq hq₂
  rw [hrun, hrun']
  exact .ok hv' hu' hpost

/-- Two runs that are known to leave one view. -/
theorem moved {x : (n : Nat) → VolumeM n Unit} {f : (n : Nat) → Unit → VolumeM n β} {w₂' : View}
    (hx : ∀ {n}, Does Volume.Shows never (x n) w fun _ w'' => w'' = w')
    (hy : ∀ {n}, Does Volume.Shows never (x n) w₂ fun _ w'' => w'' = w₂') (hmet : w₂' = w')
    (hf : InStep (fun n => f n ()) w' w' q) : InStep (fun n => x n >>= f n) w w₂ q := by
  refine andThen (p := fun _ w₁ w₁₂ => w₁ = w' ∧ w₁₂ = w') (of_does hx hy ?_) ?_
  · rintro - - w₁ w₁₂ rfl rfl
    exact ⟨rfl, rfl, hmet⟩
  · rintro - w₁ w₁₂ ⟨rfl, rfl⟩
    exact hf

/-- What is known of one run holds after both if they meet. -/
theorem also {q : α → View → Prop} (h : InStep x w w₂ Met)
    (hx : ∀ {n}, Does Volume.Shows anyFault (x n) w q) :
    InStep x w w₂ fun a w' w₂' => w' = w₂' ∧ q a w' := fun m n v u hv hu => by
  have hagree := h m n v u hv hu
  generalize hrun : x m v = r at hagree ⊢
  generalize x n u = r₂ at hagree ⊢
  cases hagree with
  | ok hv' hu' heq =>
    obtain ⟨w'', hw'', hq⟩ := (hx v hv).of_ok hrun
    exact .ok hw'' (hv'.swap hw'' (heq ▸ hu')) ⟨rfl, hq⟩
  | error => exact .error

theorem map {g : α → β} (h : InStep x w w₂ Met) : InStep (fun n => x n >>= fun a => Pure.pure (g a)) w w₂ Met :=
  h.andThen fun _ _ _ hmet => pure hmet

/-- A check that both runs make. -/
theorem ofExcept {y : Except Fault α} (hf : ∀ a, y = .ok a → InStep (fun n => f n a) w w₂ q) :
    InStep (fun n => MonadExcept.ofExcept y >>= f n) w w₂ q := by
  cases y with
  | ok a => exact hf a rfl
  | error e => exact andThen throw fun _ _ _ => False.elim

theorem ite {c : Prop} [Decidable c] {y : (n : Nat) → VolumeM n α} (hx : c → InStep x w w₂ p)
    (hy : ¬ c → InStep y w w₂ p) : InStep (fun n => if c then x n else y n) w w₂ p := by
  by_cases hc : c
  · simp only [if_pos hc]
    exact hx hc
  · simp only [if_neg hc]
    exact hy hc

end InStep

/-! ### Programs that run alike -/

namespace Alike

variable {x : (n : Nat) → VolumeM n α} {f : (n : Nat) → α → VolumeM n β} {q : β → View → View → Prop}

/-- Runs `x`, which runs alike, by what is known of it, then goes on. -/
theorem andThen {p : α → View → Prop} (h : Alike x w)
    (hx : ∀ {n}, Does Volume.Shows anyFault (x n) w p)
    (hf : ∀ a w', p a w' → InStep (fun n => f n a) w' w' q) :
    InStep (fun n => x n >>= f n) w w q := by
  refine (h.also hx).andThen ?_
  rintro a w' _ ⟨rfl, hpost⟩
  exact hf a w' hpost

/-- Runs `x`, of which it is known what it answers and what it leaves, then goes on. -/
theorem known {a : α} (hx : ∀ {n}, Does Volume.Shows never (x n) w fun b w'' => b = a ∧ w'' = w')
    (hf : InStep (fun n => f n a) w' w' q) : InStep (fun n => x n >>= f n) w w q := by
  refine InStep.andThen (p := fun b w₁ w₂ => b = a ∧ w₁ = w' ∧ w₂ = w') (InStep.of_does hx hx ?_) ?_
  · rintro b c w₁ w₂ ⟨rfl, rfl⟩ ⟨rfl, rfl⟩
    exact ⟨rfl, rfl, rfl, rfl⟩
  · rintro b w₁ w₂ ⟨rfl, rfl, rfl⟩
    exact hf

theorem moved {x : (n : Nat) → VolumeM n Unit} {f : (n : Nat) → Unit → VolumeM n β}
    (hx : ∀ {n}, Does Volume.Shows never (x n) w fun _ w'' => w'' = w')
    (hf : InStep (fun n => f n ()) w' w' q) : InStep (fun n => x n >>= f n) w w q :=
  InStep.moved hx hx rfl hf

/-- What is known to give one answer and to leave one view runs alike. -/
theorem of_does {a : α} (hx : ∀ {n}, Does Volume.Shows never (x n) w fun b w'' => b = a ∧ w'' = w') :
    Alike x w := InStep.of_does hx hx fun _ _ _ _ ⟨ha, hw⟩ ⟨hb, hw₂⟩ => ⟨hb.trans ha.symm, hw.trans hw₂.symm⟩

theorem of_move {x : (n : Nat) → VolumeM n Unit}
    (hx : ∀ {n}, Does Volume.Shows never (x n) w fun _ w'' => w'' = w') : Alike x w :=
  of_does (a := ()) (hx.mono fun _ _ h => ⟨rfl, h⟩)

end Alike

/-! ### Attempts -/

section Attempts

open Attempt

variable {x : (n : Nat) → Attempt n α} {f : (n : Nat) → α → Attempt n β}

theorem run_always_bind {n : Nat} (x : VolumeM n α) (f : α → Attempt n β) :
    (always x >>= f).run = x >>= fun a => (f a).run := by
  funext v
  simp only [always, Bind.bind, EStateM.bind]
  cases x v <;> rfl

namespace InStep

variable {p : Except Refusal α → View → View → Prop} {q : Except Refusal β → View → View → Prop}

/-- Runs `x` by what is known of both runs, then goes on unless it was refused. -/
theorem bind (h : InStep (fun n => (x n).run) w w₂ p)
    (hok : ∀ a w' w₂', p (.ok a) w' w₂' → InStep (fun n => (f n a).run) w' w₂' q)
    (hrefused : ∀ why w' w₂', p (.error why) w' w₂' → q (.error why) w' w₂') :
    InStep (fun n => (x n >>= f n).run) w w₂ q := by
  simp only [run_bind]
  refine h.andThen ?_
  rintro (why | a) w' w₂' hpost
  · exact pure (hrefused why w' w₂' hpost)
  · exact hok a w' w₂' hpost

theorem refuse_bind {why : Refusal} (h : q (.error why) w w₂) :
    InStep (fun n => (refuse why >>= f n).run) w w₂ q := fun _ _ _ _ hv hu => .ok hv hu h

theorem ofAnswer_bind {answer : Except Refusal α}
    (hok : ∀ a, answer = .ok a → InStep (fun n => (f n a).run) w w₂ q)
    (hrefused : ∀ why, answer = .error why → q (.error why) w w₂) :
    InStep (fun n => (ofAnswer answer >>= f n).run) w w₂ q := by
  cases answer with
  | ok a => exact hok a rfl
  | error why => exact refuse_bind (hrefused why rfl)

theorem attempt_map {g : α → β} (h : InStep (fun n => (x n).run) w w₂ Met) :
    InStep (fun n => (x n >>= fun a => Pure.pure (g a)).run) w w₂ Met :=
  h.bind (fun _ _ _ hmet => pure hmet) fun _ _ _ hmet => hmet

theorem always_bind {x : (n : Nat) → VolumeM n α}
    (h : InStep (fun n => x n >>= fun a => (f n a).run) w w₂ q) :
    InStep (fun n => (always (x n) >>= f n).run) w w₂ q := by
  simpa only [run_always_bind] using h

theorem always {x : (n : Nat) → VolumeM n α} (h : InStep x w w₂ fun a => p (.ok a)) :
    InStep (fun n => (Attempt.always (x n)).run) w w₂ p := h.andThen fun _ _ _ hpost => pure hpost

/-- And `cleanup` after it, if it was refused. -/
theorem onRefusal {q : Except Refusal α → View → View → Prop} {cleanup : (n : Nat) → VolumeM n Unit}
    (h : InStep (fun n => (x n).run) w w₂ p)
    (hok : ∀ a w' w₂', p (.ok a) w' w₂' → q (.ok a) w' w₂')
    (hrefused : ∀ why w' w₂', p (.error why) w' w₂' →
      InStep cleanup w' w₂' fun _ w' w₂' => q (.error why) w' w₂') :
    InStep (fun n => (Attempt.onRefusal (x n) (cleanup n)).run) w w₂ q := by
  refine h.andThen ?_
  rintro (why | a) w' w₂' hpost
  · exact (hrefused why w' w₂' hpost).andThen fun _ _ _ hq => pure hq
  · exact pure (hok a w' w₂' hpost)

end InStep

namespace Alike

variable {ok : α → View → Prop} {refused : Refusal → View → Prop} {cleanup : (n : Nat) → VolumeM n Unit}

theorem of_tries {a : α}
    (hx : ∀ {n}, Tries Volume.Shows never (x n) w (fun b w'' => b = a ∧ w'' = w') fun _ _ => False) :
    Alike (fun n => (x n).run) w := by
  have hdone : ∀ {n}, Does Volume.Shows never (x n).run w fun r w'' => r = .ok a ∧ w'' = w' :=
    fun {_} => by
      refine Does.mono hx ?_
      rintro (why | b) w'' hpost
      · exact hpost.elim
      · exact ⟨congrArg _ hpost.1, hpost.2⟩
  exact of_does hdone

theorem bind (h : Alike (fun n => (x n).run) w)
    (hx : ∀ {n}, Tries Volume.Shows anyFault (x n) w ok refused)
    (hok : ∀ a w', ok a w' → Alike (fun n => (f n a).run) w') :
    Alike (fun n => (x n >>= f n).run) w := by
  refine InStep.bind (h.also hx) ?_ fun _ _ _ hpost => hpost.1
  rintro a w' _ ⟨rfl, hpost⟩
  exact hok a w' hpost

theorem thenAlways (h : Alike (fun n => (x n).run) w)
    (hx : ∀ {n}, Tries Volume.Shows anyFault (x n) w ok refused)
    (hok : ∀ a w', ok a w' → Alike cleanup w') (hrefused : ∀ why w', refused why w' → Alike cleanup w') :
    Alike (fun n => (Attempt.thenAlways (x n) (cleanup n)).run) w := by
  refine Alike.andThen h hx ?_
  rintro (why | a) w' hpost
  · exact InStep.andThen (hrefused why w' hpost) fun _ _ _ hmet => InStep.pure hmet
  · exact InStep.andThen (hok a w' hpost) fun _ _ _ hmet => InStep.pure hmet

theorem onRefusal (h : Alike (fun n => (x n).run) w)
    (hx : ∀ {n}, Tries Volume.Shows anyFault (x n) w ok refused)
    (hrefused : ∀ why w', refused why w' → Alike cleanup w') :
    Alike (fun n => (Attempt.onRefusal (x n) (cleanup n)).run) w := by
  refine InStep.onRefusal (h.also hx) (fun _ _ _ hpost => hpost.1) ?_
  rintro why w' _ ⟨rfl, hpost⟩
  exact hrefused why w' hpost

end Alike

end Attempts

end TieredVolume
