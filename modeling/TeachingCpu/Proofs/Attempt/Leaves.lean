import TeachingCpu.Proofs.Attempt

/-!
# The states that actions leave

`Leaves R E act` relates the state that an action starts from to the one that it leaves: by `R`
where it succeeds, by `E` where it fails. The rules compose what is known of the parts of an
action. An action that only reads has the equality for both (`Reads`).
-/

namespace TeachingCpu.Attempt

variable {σ τ α β : Type}

/-- What an action does to the state: `R` where it succeeds, `E` where it fails. -/
structure Leaves (R E : σ → σ → Prop) (act : Attempt σ α) : Prop where
  ok : ∀ {s t : σ} {a : α}, act s = .ok a t → R s t
  error : ∀ {s t : σ} {e : Error}, act s = .error e t → E s t

/-- An action that does not change the state. -/
abbrev Reads (act : Attempt σ α) : Prop := Leaves Eq Eq act

variable {R R₁ R₂ E E₁ E₂ : σ → σ → Prop}

theorem Leaves.imp {act : Attempt σ α} (h : Leaves R₁ E₁ act) (hR : ∀ s t, R₁ s t → R s t)
    (hE : ∀ s t, E₁ s t → E s t) : Leaves R E act :=
  ⟨fun hact => hR _ _ (h.ok hact), fun hact => hE _ _ (h.error hact)⟩

/-- What holds of both ends of an action holds of the state that is left. -/
theorem Leaves.finalState {act : Attempt σ α} (h : Leaves R R act) (s : σ) :
    R s (act.finalState s) := by
  unfold Attempt.finalState
  cases hact : act s with
  | ok a t => exact h.ok hact
  | error e t => exact h.error hact

theorem leaves_pure [Std.Refl R] (a : α) : Leaves R E (pure a : Attempt σ α) := by
  constructor
  · intro s t b h
    cases h
    exact refl_of R s
  · intro s t e h
    cases h

theorem leaves_fail [Std.Refl E] (cause : Cause) : Leaves R E (fail cause : Attempt σ α) := by
  constructor
  · intro s t a h
    cases h
  · intro s t e h
    cases h
    exact refl_of E s

theorem leaves_modify {f : σ → σ} (h : ∀ s, R s (f s)) :
    Leaves R E (modify f : Attempt σ PUnit) := by
  constructor
  · intro s t a hact
    cases hact
    exact h s
  · intro s t e hact
    cases hact

theorem reads_get : Reads (get : Attempt σ σ) := by
  constructor
  · intro s t a h
    cases h
    rfl
  · intro s t e h
    cases h

theorem reads_ofExcept (r : Except Error α) : Reads (ofExcept r : Attempt σ α) := by
  cases r with
  | ok a => exact leaves_pure a
  | error e =>
    constructor
    · intro s t a h
      cases h
    · intro s t e' h
      cases h
      rfl

/-- The rule for composed actions. A failure comes from the first part, or from the second after
the first succeeded. -/
theorem leaves_bind {x : Attempt σ α} {f : α → Attempt σ β} (hx : Leaves R₁ E₁ x)
    (hf : ∀ a, Leaves R₂ E₂ (f a)) (hR : ∀ s t u, R₁ s t → R₂ t u → R s u)
    (hE : ∀ s t, E₁ s t → E s t) (hE' : ∀ s t u, R₁ s t → E₂ t u → E s u) :
    Leaves R E (x >>= f) := by
  constructor
  · intro s u b h
    obtain ⟨a, t, ht, hu⟩ := bind_eq_ok.mp h
    exact hR s t u (hx.ok ht) ((hf a).ok hu)
  · intro s u e h
    cases hact : x s with
    | ok a t =>
      rw [bind_of_ok hact] at h
      exact hE' s t u (hx.ok hact) ((hf a).error h)
    | error e' t =>
      rw [bind_of_error hact] at h
      cases h
      exact hE s u (hx.error hact)

/-- Behind an action that only reads. -/
theorem Reads.bind [Std.Refl E] {x : Attempt σ α} {f : α → Attempt σ β} (hx : Reads x)
    (hf : ∀ a, Leaves R E (f a)) : Leaves R E (x >>= f) := by
  refine leaves_bind hx hf ?_ ?_ ?_
  · rintro s t u rfl h
    exact h
  · rintro s t rfl
    exact refl_of E s
  · rintro s t u rfl h
    exact h

/-- Actions of one kind, one behind the other. -/
theorem leaves_seq [IsTrans σ R] {x : Attempt σ α} {f : α → Attempt σ β} (hx : Leaves R R x)
    (hf : ∀ a, Leaves R R (f a)) : Leaves R R (x >>= f) :=
  leaves_bind hx hf (fun _ _ _ => trans_of R) (fun _ _ h => h) (fun _ _ _ => trans_of R)

/-- Behind an action that may fail, one that cannot. -/
theorem leaves_bind_unfailing [IsTrans σ R] {x : Attempt σ α} {f : α → Attempt σ β}
    (hx : Leaves R E x) (hf : ∀ a, Leaves R (fun _ _ => False) (f a)) : Leaves R E (x >>= f) :=
  leaves_bind hx hf (fun _ _ _ => trans_of R) (fun _ _ h => h) (fun _ _ _ _ h => h.elim)

/-- An action on a part of the state. -/
theorem leaves_onPart {get : σ → τ} {put : τ → σ → σ} {act : Attempt τ α}
    {R' E' : τ → τ → Prop} (h : Leaves R' E' act)
    (hR : ∀ s t, R' (get s) t → R s (put t s)) (hE : ∀ s t, E' (get s) t → E s (put t s)) :
    Leaves R E (onPart get put act) := by
  constructor
  · intro s u a hact
    obtain ⟨t, ht, rfl⟩ := onPart_eq_ok.mp hact
    exact hR s t (h.ok ht)
  · intro s u e hact
    obtain ⟨t, ht, rfl⟩ := onPart_eq_error.mp hact
    exact hE s t (h.error ht)

end TeachingCpu.Attempt
