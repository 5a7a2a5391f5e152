import TeachingCpu.Proofs.Machine.History

/-!
# Budgets

A run with a budget can be cut anywhere: what is left of the budget goes on where the first part
ended (`continueFor_add`). A run without a budget is one whose budget is large enough
(`run_eq_some_iff`). Whatever drives a machine, it passes through the machines that it leaves after
one instruction, after two, and so on (`after`).
-/

namespace TeachingCpu

open Attempt

/-- Whether a call lets the program run. -/
def Call.runs : Call → Bool
  | .stepInstruction | .run | .runFor _ => true
  | _ => false

namespace Machine

variable {m m' : Machine}

theorem reply_snd {α : Type} (answer : α → Answer) (act : Attempt Machine α) (m : Machine) :
    (reply answer (act m)).2 = act.finalState m := by
  unfold finalState
  cases act m <;> rfl

/-- The program stopped, by itself or by a failure. -/
def Stopped : Ending → Prop
  | .ok status _ => status = .halted
  | .error _ _ => True

/-! ## Budgets in two parts -/

theorem runFor_of_runnable (h : m.status.isRunnable = true) (n : Nat) :
    runFor n m = continueFor n m :=
  (ensureRunnable_bind (continueFor n) m).trans (if_pos h)

theorem continueFor_succ_of_running (h : RunsOn m m') (n : Nat) :
    continueFor (n + 1) m = continueFor n m' := bind_of_ok h

theorem continueFor_succ_of_halted (h : stepInstruction m = .ok .halted m') (n : Nat) :
    continueFor (n + 1) m = .ok .halted m' := bind_of_ok h

theorem continueFor_succ_of_error {e : Error} (h : stepInstruction m = .error e m') (n : Nat) :
    continueFor (n + 1) m = .error e m' := bind_of_error h

/-- What an instruction ends in. -/
theorem stepInstruction_cases (m : Machine) :
    (∃ m', RunsOn m m') ∨ (∃ m', stepInstruction m = .ok .halted m') ∨
      ∃ e m', stepInstruction m = .error e m' := by
  cases hstep : stepInstruction m with
  | error e m' => exact .inr (.inr ⟨e, m', rfl⟩)
  | ok status m' =>
    obtain ⟨-, rfl | rfl⟩ := status_of_stepInstruction hstep
    · exact .inl ⟨m', hstep⟩
    · exact .inr (.inl ⟨m', rfl⟩)

/-- A budget in two parts: the second is for a program that can go on behind the first. -/
theorem continueFor_add (h : m.status.isRunnable = true) (n k : Nat) :
    continueFor (n + k) m =
      (continueFor n >>= fun status =>
        if status.isRunnable then continueFor k else pure status) m := by
  induction n generalizing m with
  | zero =>
    have hnone : continueFor 0 m = .ok m.status m := rfl
    rw [bind_of_ok hnone, Nat.zero_add, h]
    rfl
  | succ n ih =>
    rw [Nat.add_right_comm]
    rcases stepInstruction_cases m with ⟨m', hstep⟩ | ⟨m', hstep⟩ | ⟨e, m', hstep⟩
    · have hfirst := continueFor_succ_of_running hstep n
      rw [continueFor_succ_of_running hstep, ih hstep.isRunnable]
      cases hrest : continueFor n m' with
      | ok status m₁ => rw [bind_of_ok hrest, bind_of_ok (hfirst.trans hrest)]
      | error e m₁ => rw [bind_of_error hrest, bind_of_error (hfirst.trans hrest)]
    · rw [continueFor_succ_of_halted hstep, bind_of_ok (continueFor_succ_of_halted hstep n)]
      rfl
    · rw [continueFor_succ_of_error hstep, bind_of_error (continueFor_succ_of_error hstep n)]

/-- What is yielded is the status of the machine that is left. -/
theorem status_of_continueFor (h : m.status.isRunnable = true) {n : Nat} {status : Status}
    (hn : continueFor n m = .ok status m') : m'.status = status := by
  have hends := endsIn_continueFor n h
  rw [hn] at hends
  cases hends with
  | running => rfl
  | halted _ _ hstep => exact (status_of_stepInstruction hstep).1

/-- More budget does not change how a program stopped. -/
theorem continueFor_of_stopped (h : m.status.isRunnable = true) {n k : Nat} (hnk : n ≤ k)
    (hstopped : Stopped (continueFor n m)) : continueFor k m = continueFor n m := by
  obtain ⟨d, rfl⟩ := Nat.exists_eq_add_of_le hnk
  rw [continueFor_add h]
  cases hn : continueFor n m with
  | error e m' => exact bind_of_error hn
  | ok status m' =>
    rw [hn] at hstopped
    cases hstopped
    exact bind_of_ok hn

/-! ## Runs without a budget -/

theorem run_of_running (h : RunsOn m m') : run m = run m' := by
  rw [run, show stepInstruction m = .ok .running m' from h]

theorem run_of_halted (h : stepInstruction m = .ok .halted m') : run m = some (.ok .halted m') := by
  rw [run, h]

theorem run_of_error {e : Error} (h : stepInstruction m = .error e m') :
    run m = some (.error e m') := by
  rw [run, h]

/-- A run that ends does so within some budget. -/
theorem exists_budget_of_run {ending : Ending} (h : run m = some ending)
    (hrunnable : m.status.isRunnable = true) :
    ∃ k, continueFor k m = ending ∧ Stopped ending := by
  revert hrunnable
  refine run.partial_correctness (fun m ending => m.status.isRunnable = true →
    ∃ k, continueFor k m = ending ∧ Stopped ending) ?_ m ending h
  intro run ih m ending h hrunnable
  rcases stepInstruction_cases m with ⟨m', hstep⟩ | ⟨m', hstep⟩ | ⟨e, m', hstep⟩
  · rw [show stepInstruction m = .ok .running m' from hstep] at h
    obtain ⟨k, hk, hstopped⟩ := ih m' ending h hstep.isRunnable
    exact ⟨k + 1, (continueFor_succ_of_running hstep k).trans hk, hstopped⟩
  · rw [hstep] at h
    cases h
    exact ⟨1, continueFor_succ_of_halted hstep 0, rfl⟩
  · rw [hstep] at h
    cases h
    exact ⟨1, continueFor_succ_of_error hstep 0, trivial⟩

/-- A program that stops within some budget stops without one. -/
theorem run_of_stopped {k : Nat} (hrunnable : m.status.isRunnable = true)
    (hstopped : Stopped (continueFor k m)) : run m = some (continueFor k m) := by
  induction k generalizing m with
  | zero =>
    have hhalted : m.status = .halted := hstopped
    rw [hhalted] at hrunnable
    cases hrunnable
  | succ k ih =>
    rcases stepInstruction_cases m with ⟨m', hstep⟩ | ⟨m', hstep⟩ | ⟨e, m', hstep⟩
    · rw [continueFor_succ_of_running hstep] at hstopped ⊢
      rw [run_of_running hstep, ih hstep.isRunnable hstopped]
    · rw [continueFor_succ_of_halted hstep, run_of_halted hstep]
    · rw [continueFor_succ_of_error hstep, run_of_error hstep]

/-- Runs with and without a budget agree on a machine that can go on. Two budgets one behind the
other do what their sum does; a budget within which the program stops does what every larger one
does; and a run without a budget ends exactly as one does whose budget suffices. -/
theorem budgets_agree (h : m.status.isRunnable = true) :
    (∀ n k status m', runFor n m = .ok status m' → status.isRunnable = true →
        runFor k m' = runFor (n + k) m) ∧
      (∀ n k, Stopped (runFor n m) → n ≤ k → runFor k m = runFor n m) ∧
      ∀ ending, run m = some ending ↔ Stopped ending ∧ ∃ k, runFor k m = ending := by
  refine ⟨?_, ?_, ?_⟩
  · intro n k status m' hn hstatus
    rw [runFor_of_runnable h] at hn
    have hrunnable : m'.status.isRunnable = true := status_of_continueFor h hn ▸ hstatus
    rw [runFor_of_runnable hrunnable, runFor_of_runnable h, continueFor_add h, bind_of_ok hn,
      if_pos hstatus]
  · intro n k hstopped hnk
    rw [runFor_of_runnable h] at hstopped ⊢
    rw [runFor_of_runnable h]
    exact continueFor_of_stopped h hnk hstopped
  · intro ending
    constructor
    · intro hrun
      obtain ⟨k, hk, hstopped⟩ := exists_budget_of_run hrun h
      exact ⟨hstopped, k, (runFor_of_runnable h k).trans hk⟩
    · rintro ⟨hstopped, k, rfl⟩
      rw [runFor_of_runnable h] at hstopped ⊢
      exact run_of_stopped h hstopped

/-- The program that writes `al` and stops, given one instruction after the other, both at once,
more than it needs, and no budget. -/
theorem budgets_agree_writesAndHalts :
    ∃ m m', load writesAndHalts smallest = .ok () m ∧ m.status.isRunnable = true ∧
      runFor 1 m = .ok .running m' ∧ runFor 1 m' = runFor (1 + 1) m ∧
        runFor 2 m = .ok .halted behindHalt ∧ runFor 1000 m = .ok .halted behindHalt ∧
          run m = some (.ok .halted behindHalt) := by
  have hload : load writesAndHalts smallest = .ok () ((load writesAndHalts).finalState smallest) :=
    eq_ok_of_outcome (by decide +kernel)
  have hrunnable : ((load writesAndHalts).finalState smallest).status.isRunnable = true := by
    decide +kernel
  have hfirst : (runFor 1).outcome ((load writesAndHalts).finalState smallest) = .ok .running := by
    decide +kernel
  have hboth : (runFor 2).outcome ((load writesAndHalts).finalState smallest) = .ok .halted := by
    decide +kernel
  have hend : (runFor 2).finalState ((load writesAndHalts).finalState smallest) = behindHalt := rfl
  generalize (load writesAndHalts).finalState smallest = m at *
  have hboth := eq_ok_of_outcome hboth
  rw [hend] at hboth
  have hstopped : Stopped (runFor 2 m) := by
    rw [hboth]
    rfl
  obtain ⟨hparts, hlarger, hrun⟩ := budgets_agree hrunnable
  have hsecond := hparts 1 1 _ _ (eq_ok_of_outcome hfirst) rfl
  have hmore := hlarger 2 1000 hstopped (by decide)
  rw [hboth] at hmore
  exact ⟨m, _, hload, hrunnable, eq_ok_of_outcome hfirst, hsecond, hboth, hmore,
    (hrun _).mpr ⟨rfl, 2, hboth⟩⟩

/-! ## The machines of a run -/

/-- The machine that `n` instructions leave, fewer if the program stops before. -/
def after (m : Machine) (n : Nat) : Machine := stepInstruction.finalState^[n] m

theorem after_succ (m : Machine) (n : Nat) :
    m.after (n + 1) = stepInstruction.finalState (m.after n) :=
  Function.iterate_succ_apply' _ n m

theorem after_succ_left (m : Machine) (n : Nat) :
    m.after (n + 1) = (stepInstruction.finalState m).after n := Function.iterate_succ_apply _ n m

theorem after_add (m : Machine) (n k : Nat) : m.after (n + k) = (m.after n).after k := by
  rw [Nat.add_comm]
  exact Function.iterate_add_apply _ k n m

/-- A machine that cannot go on stays as it is. -/
theorem after_of_not_runnable (h : m.status.isRunnable = false) (n : Nat) : m.after n = m := by
  refine Function.iterate_fixed ?_ n
  unfold finalState
  rw [stepInstruction_of_not_runnable h]

theorem not_runnable_of_halted (h : stepInstruction m = .ok .halted m') :
    m'.status.isRunnable = false := by
  rw [(status_of_stepInstruction h).1]
  rfl

theorem not_runnable_of_error (hrunnable : m.status.isRunnable = true) {e : Error}
    (h : stepInstruction m = .error e m') : m'.status.isRunnable = false := by
  obtain ⟨m₁, -, -, rfl⟩ := fault_of_stepInstruction hrunnable h
  rfl

theorem finalState_continueFor (h : m.status.isRunnable = true) (n : Nat) :
    (continueFor n).finalState m = m.after n := by
  induction n generalizing m with
  | zero => rfl
  | succ n ih =>
    rw [after_succ_left]
    rcases stepInstruction_cases m with ⟨m', hstep⟩ | ⟨m', hstep⟩ | ⟨e, m', hstep⟩
    · rw [finalState_of_ok hstep, ← ih hstep.isRunnable]
      unfold finalState
      rw [continueFor_succ_of_running hstep]
    · rw [finalState_of_ok hstep, after_of_not_runnable (not_runnable_of_halted hstep)]
      exact finalState_of_ok (continueFor_succ_of_halted hstep n)
    · rw [finalState_of_error hstep, after_of_not_runnable (not_runnable_of_error h hstep)]
      exact finalState_of_error (continueFor_succ_of_error hstep n)

/-- A budget leads to the machine behind as many instructions. -/
theorem finalState_runFor (m : Machine) (n : Nat) : (runFor n).finalState m = m.after n := by
  cases h : m.status.isRunnable with
  | true =>
    rw [← finalState_continueFor h]
    unfold finalState
    rw [runFor_of_runnable h]
  | false =>
    rw [after_of_not_runnable h]
    refine finalState_of_error (e := .of (.notRunnable m.status)) ?_
    refine (ensureRunnable_bind (continueFor n) m).trans ?_
    rw [h]
    rfl

/-- A run without a budget leads to one of the machines behind some instructions. -/
theorem exists_after_of_run {ending : Ending} (h : run m = some ending) :
    ∃ n, (reply .status ending).2 = m.after n := by
  cases hrunnable : m.status.isRunnable with
  | false =>
    rw [run_of_not_runnable hrunnable] at h
    cases h
    exact ⟨0, rfl⟩
  | true =>
    obtain ⟨n, rfl, -⟩ := exists_budget_of_run h hrunnable
    refine ⟨n, ?_⟩
    rw [← finalState_continueFor hrunnable, reply_snd]

/-- Whatever lets the program run leads to one of the machines behind some instructions. -/
theorem exists_after_of_serve {call : Call} {reply : Reply} (hcall : call.runs = true)
    (h : m.serve call = some (reply, m')) : ∃ n, m' = m.after n := by
  cases call with
  | stepInstruction =>
    refine ⟨1, ?_⟩
    have hm' := congrArg Prod.snd (Option.some.inj h)
    rw [reply_snd] at hm'
    exact hm'.symm
  | runFor budget =>
    refine ⟨budget, ?_⟩
    have hm' := congrArg Prod.snd (Option.some.inj h)
    rw [reply_snd, finalState_runFor] at hm'
    exact hm'.symm
  | run =>
    obtain ⟨ending, hrun, heq⟩ := Option.map_eq_some_iff.mp h
    obtain ⟨n, hn⟩ := exists_after_of_run hrun
    rw [heq] at hn
    exact ⟨n, hn⟩
  | _ => cases hcall

/-- The calls that let the program run, one behind the other. -/
theorem exists_after_of_serveAll {calls : List Call} {replies : List Reply}
    (hcalls : ∀ call ∈ calls, call.runs = true) (h : m.serveAll calls = some (replies, m')) :
    ∃ n, m' = m.after n := by
  induction calls generalizing m replies with
  | nil =>
    cases h
    exact ⟨0, rfl⟩
  | cons call calls ih =>
    unfold serveAll at h
    cases hserve : m.serve call with
    | none =>
      rw [hserve] at h
      cases h
    | some served =>
      obtain ⟨answer, m₁⟩ := served
      rw [hserve] at h
      obtain ⟨⟨rest, m₂⟩, hrest, heq⟩ := Option.map_eq_some_iff.mp h
      cases heq
      obtain ⟨n, rfl⟩ := exists_after_of_serve (hcalls call List.mem_cons_self) hserve
      obtain ⟨k, rfl⟩ := ih (fun call hmem => hcalls call (List.mem_cons_of_mem _ hmem)) hrest
      exact ⟨n + k, (after_add m n k).symm⟩

end Machine

end TeachingCpu
