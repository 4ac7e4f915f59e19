import TieredVolume.Fault

/-!
What an operation does, said by what holds after it. `Yields faults x s post` means that `x`, run
from `s`, either answers so that `post` holds of the answer and the state it leaves, or ends in one
of the given faults. With no faults at all it says that `x` answers.
-/
namespace TieredVolume

variable {σ α β : Type} {faults : Fault → Prop}

@[irreducible] def Yields (faults : Fault → Prop) (x : EStateM Fault σ α) (s : σ)
    (post : α → σ → Prop) : Prop :=
  match x s with
  | .ok a s' => post a s'
  | .error e _ => faults e

/-- No fault is allowed. -/
abbrev never : Fault → Prop := fun _ => False

/-- Whatever fault it is. -/
abbrev anyFault : Fault → Prop := fun _ => True

namespace Yields

variable {x : EStateM Fault σ α} {s : σ} {post post' : α → σ → Prop}

theorem ok_of_never (h : Yields never x s post) : ∃ a s', x s = .ok a s' ∧ post a s' := by
  unfold Yields at h
  split at h
  · exact ⟨_, _, by assumption, h⟩
  · exact h.elim

theorem of_ok {a : α} {s' : σ} (h : Yields faults x s post) (hx : x s = .ok a s') : post a s' := by
  simpa only [Yields, hx] using h

theorem of_error {e : Fault} {s' : σ} (h : Yields faults x s post) (hx : x s = .error e s') :
    faults e := by
  simpa only [Yields, hx] using h

theorem intro_ok {a : α} {t : σ} (hx : x s = .ok a t) (h : post a t) :
    Yields faults x s post := by
  simpa only [Yields, hx] using h

theorem mono (h : Yields faults x s post) (hp : ∀ a s', post a s' → post' a s') :
    Yields faults x s post' := by
  unfold Yields at h ⊢
  split at h
  · exact hp _ _ h
  · exact h

theorem mono_faults {faults' : Fault → Prop} (h : Yields faults x s post)
    (hf : ∀ e, faults e → faults' e) : Yields faults' x s post := by
  unfold Yields at h ⊢
  split at h
  · exact h
  · exact hf _ h

/-- Nothing is said of the state that is left. -/
theorem anything (x : EStateM Fault σ α) (s : σ) : Yields anyFault x s fun _ _ => True := by
  unfold Yields
  split
  · trivial
  · trivial

theorem of_never (h : Yields never x s post) : Yields faults x s post :=
  h.mono_faults fun _ he => he.elim

/-- What is known of an operation in two ways. -/
theorem and {faults' : Fault → Prop} (h : Yields faults x s post)
    (h' : Yields faults' x s post') :
    Yields faults x s fun a s' => post a s' ∧ post' a s' := by
  unfold Yields at h h' ⊢
  cases hx : x s with
  | ok a s' =>
    rw [hx] at h h'
    exact ⟨h, h'⟩
  | error e s' =>
    rw [hx] at h
    exact h

theorem bind {f : α → EStateM Fault σ β} {q : β → σ → Prop}
    (h : Yields faults x s fun a s' => Yields faults (f a) s' q) :
    Yields faults (x >>= f) s q := by
  unfold Yields at h ⊢
  simp only [Bind.bind, EStateM.bind]
  cases hx : x s with
  | ok a s' => simpa only [hx] using h
  | error e s' => simpa only [hx] using h

/-- Runs `x` by what is known of it, then goes on. -/
theorem andThen {f : α → EStateM Fault σ β} {q : β → σ → Prop} (h : Yields faults x s post)
    (hf : ∀ a s', post a s' → Yields faults (f a) s' q) : Yields faults (x >>= f) s q :=
  bind (h.mono hf)

theorem pure {a : α} (h : post a s) : Yields faults (pure a) s post := intro_ok rfl h

theorem throw {e : Fault} (h : faults e) :
    Yields faults (throw e : EStateM Fault σ α) s post := by
  unfold Yields
  exact h

theorem get {post : σ → σ → Prop} (h : post s s) : Yields faults get s post := intro_ok rfl h

theorem modify {f : σ → σ} {post : PUnit → σ → Prop} (h : post ⟨⟩ (f s)) :
    Yields faults (modify f) s post := intro_ok rfl h

theorem modifyGet {f : σ → α × σ} (h : post (f s).1 (f s).2) :
    Yields faults (modifyGet f) s post := intro_ok rfl h

theorem ofExcept {y : Except Fault α} {a : α} (hy : y = .ok a) (h : post a s) :
    Yields faults (ofExcept y) s post := by
  subst hy
  exact intro_ok rfl h

theorem ofExcept_error {y : Except Fault α} {e : Fault} (hy : y = .error e) (h : faults e) :
    Yields faults (MonadExcept.ofExcept y) s post := by
  subst hy
  exact throw h

end Yields

end TieredVolume
