import TieredVolume.Volume
import TieredVolume.Proofs.Outcome

/-!
What an operation does, told on an abstract state instead of the one it runs on. A relation says
which abstract states stand for which real ones; an operation does something to an abstract state if
it does so from every real state that the abstract one stands for.
-/
namespace TieredVolume

variable {σ τ υ α β : Type} {R : σ → τ → Prop} {faults : Fault → Prop}

def Does (R : σ → τ → Prop) (faults : Fault → Prop) (x : EStateM Fault σ α) (t : τ)
    (post : α → τ → Prop) : Prop :=
  ∀ s, R s t → Yields faults x s fun a s' => ∃ t', R s' t' ∧ post a t'

namespace Does

variable {x : EStateM Fault σ α} {t : τ} {post post' : α → τ → Prop}

theorem mono (h : Does R faults x t post) (hp : ∀ a t', post a t' → post' a t') :
    Does R faults x t post' := fun s hs =>
  (h s hs).mono fun a _ ⟨t', hr, hpost⟩ => ⟨t', hr, hp a t' hpost⟩

theorem bind {f : α → EStateM Fault σ β} {q : β → τ → Prop}
    (h : Does R faults x t fun a t' => Does R faults (f a) t' q) :
    Does R faults (x >>= f) t q := fun s hs =>
  (h s hs).andThen fun _ s' ⟨_, hr, hf⟩ => hf s' hr

/-- What is known of a run that answered. -/
theorem of_ok {a : α} {s s' : σ} (h : Does R anyFault x t post) (hs : R s t) (hx : x s = .ok a s') :
    ∃ t', R s' t' ∧ post a t' :=
  (h s hs).of_ok hx

/-- Runs `x` by what is known of it, then goes on. -/
theorem andThen {f : α → EStateM Fault σ β} {p : α → τ → Prop} {q : β → τ → Prop}
    (h : Does R faults x t p) (hf : ∀ a t', p a t' → Does R faults (f a) t' q) :
    Does R faults (x >>= f) t q :=
  bind (h.mono hf)

theorem pure {a : α} (h : post a t) : Does R faults (pure a) t post := fun _ hs =>
  Yields.pure ⟨t, hs, h⟩

theorem throw {e : Fault} (h : faults e) :
    Does R faults (throw e : EStateM Fault σ α) t post := fun _ _ => Yields.throw h

theorem ofExcept {y : Except Fault α} {a : α} (hy : y = .ok a) (h : post a t) :
    Does R faults (ofExcept y) t post := fun _ hs => Yields.ofExcept hy ⟨t, hs, h⟩

theorem ofExcept_error {y : Except Fault α} {e : Fault} (hy : y = .error e) (h : faults e) :
    Does R faults (MonadExcept.ofExcept y) t post := fun _ _ => Yields.ofExcept_error hy h

end Does

/-- The states that stand for a state one level up. -/
def Over (R : σ → τ → Prop) (S : τ → υ → Prop) (s : σ) (u : υ) : Prop := ∃ t, R s t ∧ S t u

/-- What is done a level below can be told a level up. -/
theorem Does.lift {S : τ → υ → Prop} {x : EStateM Fault σ α} {u : υ} {post : α → υ → Prop}
    (h : ∀ t, S t u → Does R faults x t fun a t' => ∃ u', S t' u' ∧ post a u') :
    Does (Over R S) faults x u post := by
  rintro s ⟨t, hr, hs⟩
  refine (h t hs s hr).mono ?_
  rintro a s' ⟨t', hr', u', hs', hpost⟩
  exact ⟨u', ⟨t', hr', hs'⟩, hpost⟩

/-- And what is told a level up is done a level below. -/
theorem Does.lower {S : τ → υ → Prop} {x : EStateM Fault σ α} {t : τ} {u : υ}
    {post : α → υ → Prop} (h : Does (Over R S) faults x u post) (ht : S t u) :
    Does R faults x t fun a t' => ∃ u', S t' u' ∧ post a u' := by
  intro s hs
  refine (h s ⟨t, hs, ht⟩).mono ?_
  rintro a s' ⟨u', ⟨t', hr, ht'⟩, hpost⟩
  exact ⟨t', hr, u', ht', hpost⟩

section Attempt

variable {n : Nat} {R : Volume n → τ → Prop} {t : τ}

/-- The same for an attempt, which either succeeds or is refused. -/
def Tries (R : Volume n → τ → Prop) (faults : Fault → Prop) (x : Attempt n α) (t : τ)
    (ok : α → τ → Prop) (refused : Refusal → τ → Prop) : Prop :=
  Does R faults x.run t fun
    | .ok a, t' => ok a t'
    | .error r, t' => refused r t'

namespace Tries

variable {x : Attempt n α} {ok ok' : α → τ → Prop} {refused refused' : Refusal → τ → Prop}

theorem mono (h : Tries R faults x t ok refused) (hok : ∀ a t', ok a t' → ok' a t')
    (hrefused : ∀ r t', refused r t' → refused' r t') : Tries R faults x t ok' refused' := by
  refine Does.mono h ?_
  rintro (r | a) t' hpost
  · exact hrefused r t' hpost
  · exact hok a t' hpost

theorem pure {a : α} (h : ok a t) : Tries R faults (pure a) t ok refused :=
  Does.pure (R := R) (a := Except.ok a) h

theorem bind {f : α → Attempt n β} {ok : β → τ → Prop}
    (h : Tries R faults x t (fun a t' => Tries R faults (f a) t' ok refused) refused) :
    Tries R faults (x >>= f) t ok refused := by
  unfold Tries
  rw [Attempt.run_bind]
  refine Does.andThen h ?_
  rintro (r | a) t' hpost
  · exact Does.pure (R := R) (a := Except.error r) hpost
  · exact hpost

/-- Runs `x` by what is known of it, then goes on unless it was refused. -/
theorem andThen {f : α → Attempt n β} {p : α → τ → Prop} {q : β → τ → Prop}
    {r : Refusal → τ → Prop} (h : Tries R faults x t p r)
    (hf : ∀ a t', p a t' → Tries R faults (f a) t' q refused)
    (hrefused : ∀ why t', r why t' → refused why t') : Tries R faults (x >>= f) t q refused :=
  bind (h.mono hf hrefused)

theorem always {x : VolumeM n α} (h : Does R faults x t ok) :
    Tries R faults (Attempt.always x) t ok refused :=
  Does.andThen h fun a _ hpost => Does.pure (a := Except.ok a) hpost

theorem refuse {r : Refusal} (h : refused r t) :
    Tries R faults (Attempt.refuse r : Attempt n α) t ok refused :=
  Does.pure (R := R) (a := Except.error r) h

theorem ofAnswer {answer : Except Refusal α} (hok : ∀ a, answer = .ok a → ok a t)
    (hrefused : ∀ r, answer = .error r → refused r t) :
    Tries R faults (Attempt.ofAnswer answer) t ok refused := by
  cases answer with
  | ok a => exact Does.pure (R := R) (a := Except.ok a) (hok a rfl)
  | error r => exact Does.pure (R := R) (a := Except.error r) (hrefused r rfl)

theorem thenAlways {cleanup : VolumeM n Unit}
    (h : Tries R faults x t (fun a t' => Does R faults cleanup t' fun _ => ok a)
      (fun r t' => Does R faults cleanup t' fun _ => refused r)) :
    Tries R faults (Attempt.thenAlways x cleanup) t ok refused := by
  refine Does.andThen h ?_
  rintro (r | a) t' hpost
  · exact Does.andThen hpost fun _ _ hr => Does.pure (a := Except.error r) hr
  · exact Does.andThen hpost fun _ _ ha => Does.pure (a := Except.ok a) ha

theorem onRefusal {cleanup : VolumeM n Unit}
    (h : Tries R faults x t ok (fun r t' => Does R faults cleanup t' fun _ => refused r)) :
    Tries R faults (Attempt.onRefusal x cleanup) t ok refused := by
  refine Does.andThen h ?_
  rintro (r | a) t' hpost
  · exact Does.andThen hpost fun _ _ hr => Does.pure (a := Except.error r) hr
  · exact Does.pure (R := R) (a := Except.ok a) hpost

theorem lift {R : Volume n → σ → Prop} {S : σ → τ → Prop} {u : τ}
    (h : ∀ s, S s u → Tries R faults x s (fun a s' => ∃ u', S s' u' ∧ ok a u')
      (fun r s' => ∃ u', S s' u' ∧ refused r u')) :
    Tries (Over R S) faults x u ok refused := by
  refine Does.lift fun s hs => Does.mono (h s hs) ?_
  rintro (r | a) s' hpost
  · exact hpost
  · exact hpost

theorem lower {R : Volume n → σ → Prop} {S : σ → τ → Prop} {s : σ} {u : τ}
    (h : Tries (Over R S) faults x u ok refused) (hs : S s u) :
    Tries R faults x s (fun a s' => ∃ u', S s' u' ∧ ok a u')
      (fun r s' => ∃ u', S s' u' ∧ refused r u') := by
  refine Does.mono (Does.lower h hs) ?_
  rintro (r | a) s' hpost
  · exact hpost
  · exact hpost

end Tries

end Attempt

end TieredVolume
