import TeachingCpu.Error.Basic
import TeachingCpu.Proofs.Data

/-!
# Running actions

What an action of `Attempt` does is read off one step at a time: the equations here run the
primitive actions, and `bind_eq_ok` takes a composed action that succeeded apart into the parts
that succeeded.
-/

namespace TeachingCpu

namespace Attempt

variable {σ τ α β : Type}

@[simp] theorem pure_apply (a : α) (s : σ) : (pure a : Attempt σ α) s = .ok a s := rfl

@[simp] theorem get_apply (s : σ) : (get : Attempt σ σ) s = .ok s s := rfl

@[simp] theorem set_apply (s t : σ) : (set t : Attempt σ PUnit) s = .ok ⟨⟩ t := rfl

@[simp] theorem modify_apply (f : σ → σ) (s : σ) :
    (modify f : Attempt σ PUnit) s = .ok ⟨⟩ (f s) := rfl

@[simp] theorem throw_apply (e : Error) (s : σ) : (throw e : Attempt σ α) s = .error e s := rfl

@[simp] theorem fail_apply (cause : Cause) (s : σ) :
    (fail cause : Attempt σ α) s = .error (.of cause) s := rfl

@[simp] theorem ofExcept_ok (a : α) (s : σ) : (ofExcept (.ok a) : Attempt σ α) s = .ok a s := rfl

@[simp] theorem ofExcept_error (e : Error) (s : σ) :
    (ofExcept (.error e) : Attempt σ α) s = .error e s := rfl

/-- An action behind one that succeeds. -/
theorem bind_of_ok {x : Attempt σ α} {f : α → Attempt σ β} {s t : σ} {a : α}
    (h : x s = .ok a t) : (x >>= f) s = f a t := by
  change EStateM.bind x f s = f a t
  unfold EStateM.bind
  rw [h]

/-- An action behind one that fails does not run. -/
theorem bind_of_error {x : Attempt σ α} {f : α → Attempt σ β} {s t : σ} {e : Error}
    (h : x s = .error e t) : (x >>= f) s = .error e t := by
  change EStateM.bind x f s = .error e t
  unfold EStateM.bind
  rw [h]

@[simp] theorem pure_bind_apply (a : α) (f : α → Attempt σ β) (s : σ) :
    ((pure a : Attempt σ α) >>= f) s = f a s := rfl

@[simp] theorem get_bind_apply (f : σ → Attempt σ β) (s : σ) :
    ((get : Attempt σ σ) >>= f) s = f s s := rfl

@[simp] theorem set_bind_apply (t : σ) (f : PUnit → Attempt σ β) (s : σ) :
    ((set t : Attempt σ PUnit) >>= f) s = f ⟨⟩ t := rfl

@[simp] theorem modify_bind_apply (g : σ → σ) (f : PUnit → Attempt σ β) (s : σ) :
    ((modify g : Attempt σ PUnit) >>= f) s = f ⟨⟩ (g s) := rfl

@[simp] theorem throw_bind_apply (e : Error) (f : α → Attempt σ β) (s : σ) :
    ((throw e : Attempt σ α) >>= f) s = .error e s := rfl

@[simp] theorem fail_bind_apply (cause : Cause) (f : α → Attempt σ β) (s : σ) :
    ((fail cause : Attempt σ α) >>= f) s = .error (.of cause) s := rfl

@[simp] theorem ofExcept_ok_bind_apply (a : α) (f : α → Attempt σ β) (s : σ) :
    (ofExcept (.ok a) >>= f) s = f a s := rfl

@[simp] theorem ofExcept_error_bind_apply (e : Error) (f : α → Attempt σ β) (s : σ) :
    (ofExcept (.error e) >>= f) s = .error e s := rfl

/-- A composed action succeeds exactly if both parts do, the second in the state that the first
leaves. -/
theorem bind_eq_ok {x : Attempt σ α} {f : α → Attempt σ β} {s u : σ} {b : β} :
    (x >>= f) s = .ok b u ↔ ∃ a t, x s = .ok a t ∧ f a t = .ok b u := by
  constructor
  · intro h
    cases hx : x s with
    | ok a t =>
      rw [bind_of_ok hx] at h
      exact ⟨a, t, rfl, h⟩
    | error e t =>
      rw [bind_of_error hx] at h
      cases h
  · intro hparts
    rcases hparts with ⟨a, t, hx, hf⟩
    rw [bind_of_ok hx, hf]

/-- A composed action fails where its first part does, or its second behind it. -/
theorem bind_eq_error {x : Attempt σ α} {f : α → Attempt σ β} {s u : σ} {e : Error} :
    (x >>= f) s = .error e u ↔ x s = .error e u ∨ ∃ a t, x s = .ok a t ∧ f a t = .error e u := by
  cases hx : x s with
  | ok a t => simp [bind_of_ok hx]
  | error e' t => simp [bind_of_error hx]

theorem ofExcept_eq_ok {r : Except Error α} {s t : σ} {a : α} :
    (ofExcept r : Attempt σ α) s = .ok a t ↔ r = .ok a ∧ s = t := by
  cases r with
  | ok b => simp
  | error e => simp

/-- Changing errors does not touch a success. -/
theorem mapError_eq_ok {f : Error → Error} {act : Attempt σ α} {s t : σ} {a : α} :
    mapError f act s = .ok a t ↔ act s = .ok a t := by
  unfold mapError
  cases act s <;> simp

theorem onPart_eq_ok {get : σ → τ} {put : τ → σ → σ} {act : Attempt τ α} {s u : σ} {a : α} :
    onPart get put act s = .ok a u ↔ ∃ t, act (get s) = .ok a t ∧ u = put t s := by
  unfold onPart
  cases act (get s) with
  | ok b t => simp [eq_comm]
  | error e t => simp

theorem onPart_eq_error {get : σ → τ} {put : τ → σ → σ} {act : Attempt τ α} {s u : σ}
    {e : Error} :
    onPart get put act s = .error e u ↔ ∃ t, act (get s) = .error e t ∧ u = put t s := by
  unfold onPart
  cases act (get s) <;> simp [eq_comm]

theorem onPart_of_error {get : σ → τ} {put : τ → σ → σ} {act : Attempt τ α} {s : σ} {t : τ}
    {e : Error} (h : act (get s) = .error e t) :
    onPart get put act s = .error e (put t s) := by
  unfold onPart
  rw [h]

theorem onPart_of_ok {get : σ → τ} {put : τ → σ → σ} {act : Attempt τ α} {s : σ} {t : τ} {a : α}
    (h : act (get s) = .ok a t) : onPart get put act s = .ok a (put t s) := by
  unfold onPart
  rw [h]

/-- Actions that do the same on a part of the state. -/
theorem onPart_congr {get : σ → τ} {put : τ → σ → σ} {act act' : Attempt τ α} {s : σ}
    (h : act (get s) = act' (get s)) : onPart get put act s = onPart get put act' s := by
  unfold onPart
  rw [h]

theorem finalState_of_ok {act : Attempt σ α} {s t : σ} {a : α} (h : act s = .ok a t) :
    act.finalState s = t := by
  unfold finalState
  rw [h]

theorem finalState_of_error {act : Attempt σ α} {s t : σ} {e : Error} (h : act s = .error e t) :
    act.finalState s = t := by
  unfold finalState
  rw [h]

/-- An action that does nothing where it fails. -/
theorem finalState_of_ite {act : Attempt σ α} {s t : σ} {a : α} {e : Error} {p : Prop}
    [Decidable p] (h : act s = if p then .ok a t else .error e s) :
    act.finalState s = if p then t else s := by
  split at h
  · next hp =>
    rw [if_pos hp]
    exact finalState_of_ok h
  · next hp =>
    rw [if_neg hp]
    exact finalState_of_error h

/-- An action whose outcome is a value. -/
theorem eq_ok_of_outcome {act : Attempt σ α} {s : σ} {a : α} (h : act.outcome s = .ok a) :
    act s = .ok a (act.finalState s) := by
  unfold outcome at h
  unfold finalState
  cases hact : act s with
  | ok b t =>
    rw [hact] at h
    cases h
    rfl
  | error e t =>
    rw [hact] at h
    cases h

/-- An action whose outcome is an error. -/
theorem eq_error_of_outcome {act : Attempt σ α} {s : σ} {e : Error}
    (h : act.outcome s = .error e) : act s = .error e (act.finalState s) := by
  unfold outcome at h
  unfold finalState
  cases hact : act s with
  | ok a t =>
    rw [hact] at h
    cases h
  | error e' t =>
    rw [hact] at h
    cases h
    rfl

/-! ## What an action leaves alone -/

/-- An action does not change what `view` shows of the state, whether it succeeds or fails. -/
def Keeps {γ : Type} (view : σ → γ) (act : Attempt σ α) : Prop :=
  ∀ s, view (act.finalState s) = view s

section Keeps

variable {γ : Type} {view : σ → γ}

theorem Keeps.of_ok {act : Attempt σ α} (h : Keeps view act) {s t : σ} {a : α}
    (hact : act s = .ok a t) : view t = view s := by
  have := h s
  simpa [finalState, hact] using this

theorem Keeps.of_error {act : Attempt σ α} (h : Keeps view act) {s t : σ} {e : Error}
    (hact : act s = .error e t) : view t = view s := by
  have := h s
  simpa [finalState, hact] using this

theorem Keeps.map {δ : Type} {act : Attempt σ α} (h : Keeps view act) (f : γ → δ) :
    Keeps (fun s => f (view s)) act := by
  intro s
  exact congrArg f (h s)

theorem keeps_pure (a : α) : Keeps view (pure a : Attempt σ α) := fun _ => rfl

theorem keeps_get : Keeps view (get : Attempt σ σ) := fun _ => rfl

theorem keeps_fail (cause : Cause) : Keeps view (fail cause : Attempt σ α) := fun _ => rfl

theorem keeps_modify {f : σ → σ} (h : ∀ s, view (f s) = view s) :
    Keeps view (modify f : Attempt σ PUnit) := h

/-- What follows an action does not show where it keeps the view. -/
theorem view_finalState_bind {x : Attempt σ α} {f : α → Attempt σ β}
    (hf : ∀ a, Keeps view (f a)) (s : σ) :
    view ((x >>= f).finalState s) = view (x.finalState s) := by
  cases h : x s with
  | ok a t =>
    have hfinal : (x >>= f).finalState s = (f a).finalState t := by
      simp only [finalState, bind_of_ok h]
    rw [hfinal, hf a t]
    simp only [finalState, h]
  | error e t => simp only [finalState, bind_of_error h, h]

theorem keeps_bind {x : Attempt σ α} {f : α → Attempt σ β} (hx : Keeps view x)
    (hf : ∀ a, Keeps view (f a)) : Keeps view (x >>= f) :=
  fun s => (view_finalState_bind hf s).trans (hx s)

theorem keeps_onPart {get : σ → τ} {put : τ → σ → σ} (h : ∀ s t, view (put t s) = view s)
    (act : Attempt τ α) : Keeps view (onPart get put act) := by
  intro s
  cases hact : act (get s) with
  | ok a t =>
    simp only [finalState, onPart_of_ok hact]
    exact h s t
  | error e t =>
    simp only [finalState, onPart_of_error hact]
    exact h s t

end Keeps

end Attempt

end TeachingCpu
