import TeachingCpu.Proofs.Attempt.Leaves

/-!
# Strict actions

A strict action states what an ordinary one takes for granted: that a condition holds (`demand`),
that there is an element at an index (`index`), that a number fits into sixteen bits or into a byte
(`narrow`, `narrowByte`), that a difference is not below zero (`minus`). Where this is not so it
breaks off: there is nothing, not even an error. `Follows` says that a strict action does not break
off in a state and does there what an ordinary one does. The rules compose it along an action.
-/

namespace TeachingCpu

variable {σ τ α β : Type}

/-- A result, or nothing where what it takes for granted does not hold. -/
abbrev Strict (α : Type) : Type := ExceptT Error Option α

namespace Strict

/-- An ordinary result takes nothing for granted. -/
instance : MonadLift (Except Error) Strict := ⟨fun r => some r⟩

/-- Breaks off unless a condition holds. -/
def demand (p : Prop) [Decidable p] : Strict Unit := if p then some (.ok ()) else none

/-- Breaks off unless there is an element. -/
def index (a? : Option α) : Strict α := a?.map .ok

/-- The difference of two numbers, which is not below zero. -/
def minus (a b : Nat) : Strict Nat := do
  demand (b ≤ a)
  return a - b

/-- The word for a number, which loses nothing. -/
def narrow (n : Nat) : Strict UInt16 := do
  demand (n ≤ 65535)
  return n.toUInt16

/-- The byte for a word, which loses nothing. -/
def narrowByte (value : UInt16) : Strict UInt8 := do
  demand (value.toNat ≤ 255)
  return value.toUInt8

theorem demand_of {p : Prop} [Decidable p] (h : p) : demand p = some (.ok ()) := if_pos h

theorem demand_eq_none_iff {p : Prop} [Decidable p] : demand p = none ↔ ¬ p := by
  unfold demand
  split
  · next h => exact iff_of_false (fun heq => by cases heq) (not_not.mpr h)
  · next h => exact iff_of_true rfl h

theorem index_of {a? : Option α} {a : α} (h : a? = some a) : index a? = some (.ok a) := by
  subst h
  rfl

/-- A part that does not break off is run, and an error of it ends the whole. -/
theorem bind_of {x : Strict α} {r : Except Error α} {f : α → Strict β} {g : α → Except Error β}
    (hx : x = some r) (hf : ∀ a, r = .ok a → f a = some (g a)) :
    (x >>= f) = some (r >>= g) := by
  subst hx
  cases r with
  | ok a => exact hf a rfl
  | error e => rfl

/-- Behind a part that has a value. -/
theorem bind_of_ok {x : Strict α} {a : α} {f : α → Strict β} (hx : x = some (.ok a)) :
    (x >>= f) = f a := by
  subst hx
  rfl

/-- Nothing follows where a part breaks off. -/
theorem bind_of_none {x : Strict α} {f : α → Strict β} (hx : x = none) : (x >>= f) = none := by
  subst hx
  rfl

theorem minus_of {a b : Nat} (h : b ≤ a) : minus a b = some (.ok (a - b)) :=
  bind_of_ok (demand_of h)

theorem narrow_of {n : Nat} (h : n ≤ 65535) : narrow n = some (.ok n.toUInt16) :=
  bind_of_ok (demand_of h)

theorem narrowByte_of {value : UInt16} (h : value.toNat ≤ 255) :
    narrowByte value = some (.ok value.toUInt8) :=
  bind_of_ok (demand_of h)

theorem narrow_of_gt {n : Nat} (h : 65535 < n) : narrow n = none :=
  bind_of_none (demand_eq_none_iff.mpr (Nat.not_le.mpr h))

theorem narrowByte_of_gt {value : UInt16} (h : 255 < value.toNat) : narrowByte value = none :=
  bind_of_none (demand_eq_none_iff.mpr (Nat.not_le.mpr h))

end Strict

/-- An action that may break off. -/
def StrictAttempt (σ α : Type) : Type := σ → Option (EStateM.Result Error σ α)

namespace StrictAttempt

/-- An action, and another one behind it unless it fails or breaks off. -/
protected def bind (x : StrictAttempt σ α) (f : α → StrictAttempt σ β) : StrictAttempt σ β :=
  fun s =>
    match x s with
    | some (.ok a t) => f a t
    | some (.error e t) => some (.error e t)
    | none => none

instance : Monad (StrictAttempt σ) where
  pure a := fun s => some (.ok a s)
  bind := StrictAttempt.bind

/-- An ordinary action takes nothing for granted. -/
instance : MonadLift (Attempt σ) (StrictAttempt σ) := ⟨fun act s => some (act s)⟩

/-- A strict result does not touch the state. -/
instance : MonadLift Strict (StrictAttempt σ) := ⟨fun r s => r.run.map (Attempt.ofExcept · s)⟩

/-- Fails without touching the state. -/
def fail (cause : Cause) : StrictAttempt σ α := liftM (Attempt.fail cause : Attempt σ α)

/-- Runs a strict action on a part of the state. -/
def onPart (get : σ → τ) (put : τ → σ → σ) (x : StrictAttempt τ α) : StrictAttempt σ α := fun s =>
  match x (get s) with
  | some (.ok a t) => some (.ok a (put t s))
  | some (.error e t) => some (.error e (put t s))
  | none => none

/-- In a state, a strict action does not break off, and it does what an ordinary one does. -/
def Follows (x : StrictAttempt σ α) (act : Attempt σ α) (s : σ) : Prop := x s = some (act s)

variable {s : σ}

theorem follows_lift (act : Attempt σ α) : Follows (liftM act) act s := rfl

theorem follows_fail (cause : Cause) : Follows (fail cause : StrictAttempt σ α)
    (Attempt.fail cause) s := rfl

/-- A strict result that is an ordinary one. -/
theorem follows_ofExcept {r : Strict α} {r' : Except Error α} (h : r = some r') :
    Follows (liftM r) (Attempt.ofExcept r') s := by
  subst h
  rfl

/-- The rule for composed actions. The second part is run in the state that the first leaves. -/
theorem Follows.bind {x : StrictAttempt σ α} {act : Attempt σ α} {f : α → StrictAttempt σ β}
    {g : α → Attempt σ β} (hx : Follows x act s)
    (hf : ∀ a t, act s = .ok a t → Follows (f a) (g a) t) :
    Follows (x >>= f) (act >>= g) s := by
  change StrictAttempt.bind x f s = some ((act >>= g) s)
  unfold StrictAttempt.bind
  rw [show x s = some (act s) from hx]
  cases hact : act s with
  | ok a t =>
    rw [Attempt.bind_of_ok hact]
    exact hf a t hact
  | error e t => rw [Attempt.bind_of_error hact]

/-- Behind an action that only reads. -/
theorem Follows.bind_reads {x : StrictAttempt σ α} {act : Attempt σ α} {f : α → StrictAttempt σ β}
    {g : α → Attempt σ β} (hact : Attempt.Reads act) (hx : Follows x act s)
    (hf : ∀ a, act s = .ok a s → Follows (f a) (g a) s) :
    Follows (x >>= f) (act >>= g) s := by
  refine hx.bind fun a t h => ?_
  obtain rfl := hact.ok h
  exact hf a h

/-- Behind the state. -/
theorem follows_get_bind {f : σ → StrictAttempt σ β} {g : σ → Attempt σ β}
    (hf : Follows (f s) (g s) s) : Follows (get >>= f) (get >>= g) s := hf

/-- Behind a change of the state. -/
theorem follows_modify_bind {h : σ → σ} {f : PUnit → StrictAttempt σ β} {g : PUnit → Attempt σ β}
    (hf : Follows (f ⟨⟩) (g ⟨⟩) (h s)) : Follows (modify h >>= f) (modify h >>= g) s := hf

/-- Behind a strict result that has a value. The ordinary action has no such part. -/
theorem follows_bind_of_ok {r : Strict α} {a : α} {f : α → StrictAttempt σ β}
    {act : Attempt σ β} (hr : r = some (.ok a)) (hf : Follows (f a) act s) :
    Follows ((liftM r : StrictAttempt σ α) >>= f) act s := by
  subst hr
  exact hf

theorem follows_ite {p : Prop} [Decidable p] {x y : StrictAttempt σ α} {act act' : Attempt σ α}
    (hx : p → Follows x act s) (hy : ¬ p → Follows y act' s) :
    Follows (if p then x else y) (if p then act else act') s := by
  split
  · next h => exact hx h
  · next h => exact hy h

/-- An action on a part of the state. -/
theorem follows_onPart {get : σ → τ} {put : τ → σ → σ} {x : StrictAttempt τ α} {act : Attempt τ α}
    (h : Follows x act (get s)) : Follows (onPart get put x) (Attempt.onPart get put act) s := by
  unfold Follows onPart Attempt.onPart
  rw [show x (get s) = some (act (get s)) from h]
  cases act (get s) <;> rfl

end StrictAttempt

end TeachingCpu
