import TeachingCpu.Proofs.Attempt

/-!
# The failures of actions

`Fails P act` says that every failure of an action is an error with the property `P`, and
`Rejects P r` says the same of a result. The rules compose what is known of the parts of an action.
`Raises` and `Refuses` are about the causes of errors alone.
-/

namespace TeachingCpu

section

variable {ε ε' α β : Type} {P : ε → Prop} {Q : ε' → Prop}

/-- The error of a result, if it is one, has some property. -/
def Rejects (P : ε → Prop) (r : Except ε α) : Prop := ∀ e, r = .error e → P e

theorem rejects_ok (a : α) : Rejects P (.ok a : Except ε α) := by
  intro e h
  cases h

theorem rejects_error {e : ε} (h : P e) : Rejects P (.error e : Except ε α) := by
  intro e' he
  cases he
  exact h

theorem rejects_bind {x : Except ε α} {f : α → Except ε β} (hx : Rejects P x)
    (hf : ∀ a, Rejects P (f a)) : Rejects P (x >>= f) := by
  intro e h
  cases x with
  | ok a => exact hf a e h
  | error e' =>
    cases h
    exact hx e rfl

theorem rejects_map {x : Except ε α} (hx : Rejects P x) (f : α → β) :
    Rejects P (x.map f) := by
  cases x with
  | ok a => exact rejects_ok _
  | error e => exact rejects_error (hx e rfl)

theorem rejects_mapError {x : Except ε' α} {f : ε' → ε} (hx : Rejects Q x)
    (hf : ∀ e, Q e → P (f e)) : Rejects P (x.mapError f) := by
  cases x with
  | ok a => exact rejects_ok a
  | error e => exact rejects_error (hf e (hx e rfl))

theorem rejects_mapM {f : α → Except ε β} {as : List α} (h : ∀ a ∈ as, Rejects P (f a)) :
    Rejects P (as.mapM f) := by
  induction as with
  | nil => exact rejects_ok []
  | cons a as ih =>
    obtain ⟨hfirst, hrest⟩ := List.forall_mem_cons.mp h
    rw [List.mapM_cons]
    exact rejects_bind hfirst fun _ => rejects_bind (ih hrest) fun _ => rejects_ok _

end

variable {σ τ α β : Type} {P Q : Error → Prop}

namespace Attempt

/-- Every failure of an action is an error with some property. -/
def Fails (P : Error → Prop) (act : Attempt σ α) : Prop := ∀ s e t, act s = .error e t → P e

theorem fails_pure (a : α) : Fails P (pure a : Attempt σ α) := by
  intro s e t h
  cases h

theorem fails_get : Fails P (get : Attempt σ σ) := by
  intro s e t h
  cases h

theorem fails_set (s : σ) : Fails P (set s : Attempt σ PUnit) := by
  intro s' e t h
  cases h

theorem fails_modify (f : σ → σ) : Fails P (modify f : Attempt σ PUnit) := by
  intro s e t h
  cases h

theorem fails_throw {e : Error} (h : P e) : Fails P (throw e : Attempt σ α) := by
  intro s e' t hact
  cases hact
  exact h

theorem fails_ofExcept {r : Except Error α} (h : Rejects P r) :
    Fails P (ofExcept r : Attempt σ α) := by
  cases r with
  | ok a => exact fails_pure a
  | error e => exact fails_throw (h e rfl)

/-- A composed action fails where one of its parts does. -/
theorem fails_bind {x : Attempt σ α} {f : α → Attempt σ β} (hx : Fails P x)
    (hf : ∀ a, Fails P (f a)) : Fails P (x >>= f) := by
  intro s e u h
  cases hact : x s with
  | ok a t =>
    rw [bind_of_ok hact] at h
    exact hf a t e u h
  | error e' t =>
    rw [bind_of_error hact] at h
    cases h
    exact hx s e u hact

theorem fails_onPart {get : σ → τ} {put : τ → σ → σ} {act : Attempt τ α} (h : Fails P act) :
    Fails P (onPart get put act) := by
  intro s e u hact
  obtain ⟨t, ht, -⟩ := onPart_eq_error.mp hact
  exact h (get s) e t ht

theorem fails_mapError {f : Error → Error} {act : Attempt σ α} (h : Fails Q act)
    (hf : ∀ e, Q e → P (f e)) : Fails P (mapError f act) := by
  intro s e t hact
  unfold mapError at hact
  cases hresult : act s with
  | ok a t' =>
    rw [hresult] at hact
    cases hact
  | error e' t' =>
    rw [hresult] at hact
    cases hact
    exact hf e' (h s e' t hresult)

theorem fails_forM {f : α → Attempt σ PUnit} {as : List α} (h : ∀ a ∈ as, Fails P (f a)) :
    Fails P (as.forM f) := by
  induction as with
  | nil => exact fails_pure _
  | cons a as ih =>
    obtain ⟨hfirst, hrest⟩ := List.forall_mem_cons.mp h
    exact fails_bind hfirst fun _ => ih hrest

theorem fails_mapM {f : α → Attempt σ β} {as : List α} (h : ∀ a ∈ as, Fails P (f a)) :
    Fails P (as.mapM f) := by
  induction as with
  | nil => exact fails_pure _
  | cons a as ih =>
    obtain ⟨hfirst, hrest⟩ := List.forall_mem_cons.mp h
    rw [List.mapM_cons]
    exact fails_bind hfirst fun _ => fails_bind (ih hrest) fun _ => fails_pure _

end Attempt

/-! ## Causes -/

variable {C : Cause → Prop}

/-- The error of a result, if it is one, has a cause with some property. -/
def Refuses (P : Cause → Prop) (r : Except Error α) : Prop :=
  ∀ e, r = .error e → P e.cause

theorem refuses_ok (a : α) : Refuses C (.ok a : Except Error α) := rejects_ok a

theorem refuses_of {cause : Cause} (h : C cause) :
    Refuses C (.error (.of cause) : Except Error α) :=
  rejects_error (P := fun e : Error => C e.cause) h

theorem refuses_bind {x : Except Error α} {f : α → Except Error β} (hx : Refuses C x)
    (hf : ∀ a, Refuses C (f a)) : Refuses C (x >>= f) := rejects_bind hx hf

/-- A result that is no success. -/
theorem Refuses.exists_error {r : Except Error α} (h : Refuses C r) (hnot : ∀ a, r ≠ .ok a) :
    ∃ e, r = .error e ∧ C e.cause := by
  cases hr : r with
  | ok a => exact absurd hr (hnot a)
  | error e => exact ⟨e, rfl, h e hr⟩

namespace Attempt

/-- Every failure of an action has a cause with some property. -/
def Raises (P : Cause → Prop) (act : Attempt σ α) : Prop :=
  ∀ s e t, act s = .error e t → P e.cause

theorem raises_pure (a : α) : Raises C (pure a : Attempt σ α) := fails_pure a

theorem raises_get : Raises C (get : Attempt σ σ) := fails_get

theorem raises_set (s : σ) : Raises C (set s : Attempt σ PUnit) := fails_set s

theorem raises_modify (f : σ → σ) : Raises C (modify f : Attempt σ PUnit) := fails_modify f

theorem raises_fail {cause : Cause} (h : C cause) : Raises C (fail cause : Attempt σ α) :=
  fails_throw (P := fun e => C e.cause) h

theorem raises_throw {e : Error} (h : C e.cause) : Raises C (throw e : Attempt σ α) :=
  fails_throw (P := fun e => C e.cause) h

theorem raises_ofExcept {r : Except Error α} (h : Refuses C r) :
    Raises C (ofExcept r : Attempt σ α) := fails_ofExcept h

theorem raises_bind {x : Attempt σ α} {f : α → Attempt σ β} (hx : Raises C x)
    (hf : ∀ a, Raises C (f a)) : Raises C (x >>= f) := fails_bind hx hf

theorem raises_onPart {get : σ → τ} {put : τ → σ → σ} {act : Attempt τ α} (h : Raises C act) :
    Raises C (onPart get put act) := fails_onPart h

end Attempt

end TeachingCpu
