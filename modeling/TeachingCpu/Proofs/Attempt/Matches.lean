import TeachingCpu.Proofs.Attempt

/-!
# Actions on related states

Two actions match under a relation of states if they yield the same, or fail with the same error,
whenever they start in related states, and leave related states behind. `sameResult_bind` is the
rule for composed actions; it tells the second parts what the first ones did.
-/

namespace TeachingCpu.Attempt

variable {σ τ α β : Type}

/-- Results with the same value or the same error and with related states. -/
inductive SameResult (R : σ → σ → Prop) :
    EStateM.Result Error σ α → EStateM.Result Error σ α → Prop where
  | ok (a : α) {s s' : σ} (h : R s s') : SameResult R (.ok a s) (.ok a s')
  | error (e : Error) {s s' : σ} (h : R s s') : SameResult R (.error e s) (.error e s')

/-- Actions that have the same result on related states, and leave them related. -/
def Matches (R : σ → σ → Prop) (act act' : Attempt σ α) : Prop :=
  ∀ ⦃s s'⦄, R s s' → SameResult R (act s) (act' s')

variable {R : σ → σ → Prop}

theorem SameResult.exists_ok {a : α} {s : σ} {r : EStateM.Result Error σ α}
    (h : SameResult R (.ok a s) r) : ∃ s', r = .ok a s' ∧ R s s' := by
  cases h with
  | ok _ hR => exact ⟨_, rfl, hR⟩

theorem SameResult.exists_error {e : Error} {s : σ} {r : EStateM.Result Error σ α}
    (h : SameResult R (.error e s) r) : ∃ s', r = .error e s' ∧ R s s' := by
  cases h with
  | error _ hR => exact ⟨_, rfl, hR⟩

theorem outcome_eq_of_sameResult {act act' : Attempt σ α} {s s' : σ}
    (h : SameResult R (act s) (act' s')) : act.outcome s = act'.outcome s' := by
  unfold outcome
  cases hact : act s with
  | ok a t =>
    rw [hact] at h
    obtain ⟨t', hact', -⟩ := h.exists_ok
    rw [hact']
  | error e t =>
    rw [hact] at h
    obtain ⟨t', hact', -⟩ := h.exists_error
    rw [hact']

theorem finalState_of_sameResult {act act' : Attempt σ α} {s s' : σ}
    (h : SameResult R (act s) (act' s')) : R (act.finalState s) (act'.finalState s') := by
  cases hact : act s with
  | ok a t =>
    rw [hact] at h
    obtain ⟨t', hact', hR⟩ := h.exists_ok
    rwa [finalState_of_ok hact, finalState_of_ok hact']
  | error e t =>
    rw [hact] at h
    obtain ⟨t', hact', hR⟩ := h.exists_error
    rwa [finalState_of_error hact, finalState_of_error hact']

/-- Composed actions have the same result if the first parts do, and the second parts in the states
that the first ones leave. -/
theorem sameResult_bind {x x' : Attempt σ α} {k k' : α → Attempt σ β} {s s' : σ}
    (hx : SameResult R (x s) (x' s'))
    (hk : ∀ a t t', x s = .ok a t → R t t' → SameResult R (k a t) (k' a t')) :
    SameResult R ((x >>= k) s) ((x' >>= k') s') := by
  cases hact : x s with
  | ok a t =>
    rw [hact] at hx
    obtain ⟨t', hact', hR⟩ := hx.exists_ok
    rw [bind_of_ok hact, bind_of_ok hact']
    exact hk a t t' hact hR
  | error e t =>
    rw [hact] at hx
    obtain ⟨t', hact', hR⟩ := hx.exists_error
    rw [bind_of_error hact, bind_of_error hact']
    exact .error e hR

theorem matches_pure (a : α) : Matches R (pure a : Attempt σ α) (pure a) := fun _ _ h => .ok a h

theorem matches_fail (cause : Cause) :
    Matches R (fail cause : Attempt σ α) (fail cause) := fun _ _ h => .error _ h

theorem matches_modify {f f' : σ → σ} (h : ∀ s s', R s s' → R (f s) (f' s')) :
    Matches R (modify f : Attempt σ PUnit) (modify f') := fun s s' hR => .ok _ (h s s' hR)

theorem matches_bind {x x' : Attempt σ α} {k k' : α → Attempt σ β} (hx : Matches R x x')
    (hk : ∀ a, Matches R (k a) (k' a)) : Matches R (x >>= k) (x' >>= k') :=
  fun _ _ hR => sameResult_bind (hx hR) fun a _ _ _ hR' => hk a hR'

/-- Behind a look at the states. -/
theorem matches_get_bind {k k' : σ → Attempt σ β}
    (hk : ∀ s s', R s s' → SameResult R (k s s) (k' s' s')) :
    Matches R (get >>= k) (get >>= k') := fun s s' hR => hk s s' hR

/-- An action that does the same on equal states. -/
theorem matches_refl (act : Attempt σ α) : Matches Eq act act := by
  rintro s _ rfl
  cases act s with
  | ok a t => exact .ok a rfl
  | error e t => exact .error e rfl

/-- Actions that have the same result on parts of the states. -/
theorem sameResult_onPart {S : τ → τ → Prop} {get : σ → τ} {put : τ → σ → σ}
    {act act' : Attempt τ α} {s s' : σ} (hput : ∀ t t', S t t' → R (put t s) (put t' s'))
    (h : SameResult S (act (get s)) (act' (get s'))) :
    SameResult R (onPart get put act s) (onPart get put act' s') := by
  cases hact : act (get s) with
  | ok a t =>
    rw [hact] at h
    obtain ⟨t', hact', hS⟩ := h.exists_ok
    rw [onPart_of_ok hact, onPart_of_ok hact']
    exact .ok a (hput t t' hS)
  | error e t =>
    rw [hact] at h
    obtain ⟨t', hact', hS⟩ := h.exists_error
    rw [onPart_of_error hact, onPart_of_error hact']
    exact .error e (hput t t' hS)

theorem matches_onPart {S : τ → τ → Prop} {get : σ → τ} {put : τ → σ → σ} {act act' : Attempt τ α}
    (hget : ∀ s s', R s s' → S (get s) (get s'))
    (hput : ∀ s s' t t', R s s' → S t t' → R (put t s) (put t' s')) (h : Matches S act act') :
    Matches R (onPart get put act) (onPart get put act') := fun s s' hR =>
  sameResult_onPart (fun t t' => hput s s' t t' hR) (h (hget s s' hR))

end TeachingCpu.Attempt
