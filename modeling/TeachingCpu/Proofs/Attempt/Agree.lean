import TeachingCpu.Proofs.Attempt.Matches

/-!
# Actions that agree but for places

Two actions agree under a relation of states if they match when the places of their errors are left
out (`Agree`): both yield the same, or both fail for the same cause. There is one rule for each way
of composing, and a rule each for lists that are gone through in step (`agree_forM`, `agree_mapM`).
-/

namespace TeachingCpu

/-- An error without its place. -/
def Error.unplaced (e : Error) : Error := .of e.cause

theorem Error.unplaced_congr {e e' : Error} (h : e.cause = e'.cause) : e.unplaced = e'.unplaced :=
  congrArg Error.of h

/-- What a result tells when places are left out: a view of its value, or the cause of its error. -/
def told {α β : Type} (view : α → β) : Except Error α → Except Cause β
  | .ok a => .ok (view a)
  | .error e => .error e.cause

/-- Results that tell the same both have values of the same view, or both fail for one cause. -/
theorem told_eq_cases {α α' β : Type} {view : α → β} {view' : α' → β} {r : Except Error α}
    {r' : Except Error α'} (h : told view r = told view' r') :
    (∃ a a', r = .ok a ∧ r' = .ok a' ∧ view a = view' a') ∨
      ∃ e e', r = .error e ∧ r' = .error e' ∧ e.cause = e'.cause := by
  cases r with
  | ok a =>
    cases r' with
    | ok a' => exact .inl ⟨a, a', rfl, rfl, Except.ok.inj h⟩
    | error e' => cases h
  | error e =>
    cases r' with
    | ok a' => cases h
    | error e' => exact .inr ⟨e, e', rfl, rfl, Except.error.inj h⟩

theorem eq_ok_of_told {α : Type} {r r' : Except Error α} {a : α} (h : told id r = told id r')
    (hr : r = .ok a) : r' = .ok a := by
  rcases told_eq_cases h with ⟨b, _, hb, hb', rfl⟩ | ⟨e, e', he, -, -⟩
  · cases hb.symm.trans hr
    exact hb'
  · cases he.symm.trans hr

namespace Attempt

variable {σ α β γ : Type}

/-- Actions that do the same on related states, up to the places of errors. -/
def Agree (R : σ → σ → Prop) (act act' : Attempt σ α) : Prop :=
  Matches R (mapError Error.unplaced act) (mapError Error.unplaced act')

theorem mapError_bind (f : Error → Error) (x : Attempt σ α) (k : α → Attempt σ β) :
    mapError f (x >>= k) = mapError f x >>= fun a => mapError f (k a) := by
  funext s
  cases h : x s with
  | ok a t =>
    have hx : mapError f x s = .ok a t := by rw [mapError, h]
    rw [mapError, bind_of_ok h, bind_of_ok hx]
    rfl
  | error e t =>
    have hx : mapError f x s = .error (f e) t := by rw [mapError, h]
    rw [mapError, bind_of_error h, bind_of_error hx]

variable {R : σ → σ → Prop}

theorem agree_pure (a : α) : Agree R (pure a : Attempt σ α) (pure a) := fun _ _ h => .ok a h

theorem agree_throw {e e' : Error} (h : e.cause = e'.cause) :
    Agree R (throw e : Attempt σ α) (throw e') := by
  intro s s' hR
  change SameResult R (.error e.unplaced s) (.error e'.unplaced s')
  rw [Error.unplaced_congr h]
  exact .error _ hR

theorem agree_set {t t' : σ} (h : R t t') : Agree R (set t : Attempt σ PUnit) (set t') :=
  fun _ _ _ => .ok _ h

theorem agree_modify {f f' : σ → σ} (h : ∀ s s', R s s' → R (f s) (f' s')) :
    Agree R (modify f : Attempt σ PUnit) (modify f') := fun s s' hR => .ok _ (h s s' hR)

theorem agree_ofExcept {r r' : Except Error α} (h : told id r = told id r') :
    Agree R (ofExcept r) (ofExcept r') := by
  rcases told_eq_cases h with ⟨a, _, rfl, rfl, rfl⟩ | ⟨e, e', rfl, rfl, hcause⟩
  · exact agree_pure a
  · exact agree_throw hcause

theorem agree_bind {x x' : Attempt σ α} {k k' : α → Attempt σ β} (hx : Agree R x x')
    (hk : ∀ a, Agree R (k a) (k' a)) : Agree R (x >>= k) (x' >>= k') := by
  unfold Agree
  rw [mapError_bind, mapError_bind]
  exact matches_bind hx hk

/-- Behind a look at the states. -/
theorem agree_get_bind {k k' : σ → Attempt σ β} (hk : ∀ s s', R s s' → Agree R (k s) (k' s')) :
    Agree R (get >>= k) (get >>= k') := fun s s' hR => hk s s' hR hR

/-- An action agrees with itself on equal states. -/
theorem agree_refl (act : Attempt σ α) : Agree Eq act act := matches_refl _

/-- A place that is added to errors makes no difference. -/
theorem agree_mapError {f f' : Error → Error} {act act' : Attempt σ α}
    (hf : ∀ e, (f e).cause = e.cause) (hf' : ∀ e, (f' e).cause = e.cause) (h : Agree R act act') :
    Agree R (mapError f act) (mapError f' act') := by
  have hunplaced : ∀ {f : Error → Error} {act : Attempt σ α}, (∀ e, (f e).cause = e.cause) →
      mapError Error.unplaced (mapError f act) = mapError Error.unplaced act := by
    intro f act hf
    funext s
    unfold mapError
    cases act s with
    | ok a t => rfl
    | error e t => exact congrArg (EStateM.Result.error · t) (Error.unplaced_congr (hf e))
  unfold Agree
  rw [hunplaced hf, hunplaced hf']
  exact h

theorem agree_ite {p : Prop} [Decidable p] {x x' y y' : Attempt σ α} (hx : p → Agree R x x')
    (hy : ¬ p → Agree R y y') : Agree R (if p then x else y) (if p then x' else y') := by
  by_cases h : p
  · rw [if_pos h, if_pos h]
    exact hx h
  · rw [if_neg h, if_neg h]
    exact hy h

/-- An action that comes first where a condition holds. -/
theorem agree_when {p : Prop} [Decidable p] {x x' : Attempt σ PUnit} {k k' : PUnit → Attempt σ β}
    (hx : Agree R x x') (hk : Agree R (k ⟨⟩) (k' ⟨⟩)) :
    Agree R (if p then x >>= k else k ⟨⟩) (if p then x' >>= k' else k' ⟨⟩) :=
  agree_ite (fun _ => agree_bind hx fun _ => hk) fun _ => hk

variable {P : β → γ → Prop} {bs : List β} {cs : List γ}

theorem agree_forM {f : β → Attempt σ PUnit} {g : γ → Attempt σ PUnit}
    (hstep : ∀ b c, P b c → Agree R (f b) (g c)) (h : List.Forall₂ P bs cs) :
    Agree R (bs.forM f) (cs.forM g) := by
  induction h with
  | nil => exact agree_pure _
  | cons hhead _ ih => exact agree_bind (hstep _ _ hhead) fun _ => ih

theorem agree_mapM {f : β → Attempt σ α} {g : γ → Attempt σ α}
    (hstep : ∀ b c, P b c → Agree R (f b) (g c)) (h : List.Forall₂ P bs cs) :
    Agree R (bs.mapM f) (cs.mapM g) := by
  induction h with
  | nil => exact agree_pure _
  | cons hhead _ ih =>
    rw [List.mapM_cons, List.mapM_cons]
    exact agree_bind (hstep _ _ hhead) fun _ => agree_bind ih fun _ => agree_pure _

/-- Actions that agree both yield a value and leave related states, or both fail for one cause. -/
theorem Agree.cases {act act' : Attempt σ α} {s s' : σ} (h : Agree R act act') (hR : R s s') :
    (∃ a t t', act s = .ok a t ∧ act' s' = .ok a t' ∧ R t t') ∨
      ∃ e e' t t', act s = .error e t ∧ act' s' = .error e' t' ∧ e.cause = e'.cause := by
  have hresult := h hR
  unfold mapError at hresult
  cases hact : act s with
  | ok a t =>
    cases hact' : act' s' with
    | ok a' t' =>
      rw [hact, hact'] at hresult
      cases hresult with
      | ok _ hR' => exact .inl ⟨a, t, t', rfl, rfl, hR'⟩
    | error e' t' =>
      rw [hact, hact'] at hresult
      cases hresult
  | error e t =>
    cases hact' : act' s' with
    | ok a' t' =>
      rw [hact, hact'] at hresult
      cases hresult
    | error e' t' =>
      rw [hact, hact'] at hresult
      obtain ⟨_, heq, -⟩ := hresult.exists_error
      obtain ⟨hunplaced, -⟩ := EStateM.Result.error.inj heq
      exact .inr ⟨e, e', t, t', rfl, rfl, (congrArg Error.cause hunplaced).symm⟩

end Attempt

end TeachingCpu
