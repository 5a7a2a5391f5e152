import TeachingCpu.Proofs.Debugger.Outcome
import TeachingCpu.Proofs.Machine.Load

/-!
# When the debugger opens

Between sessions, a run opens the debugger when it was asked to: for a debug interrupt, while the
trap flag is set, and behind the instruction that a session let pass with `step`. One thing can
go wrong. If that instruction is a debug interrupt, then its own session does not count as the
break that was asked for, and the debugger opens once more behind the next instruction, even if
the session ended with `go`. `opens_iff_asked_or_overlooked` shows that nothing else can.
-/

namespace TeachingCpu

open Debugger (Resume)

namespace Machine

/-- The machine that an ending leaves. -/
def Ending.machine : Ending → Machine
  | .ok _ m => m
  | .error _ m => m

/-- Machines that were given a program and then driven through it, by single instructions, in
bounded runs or in runs to the end. -/
inductive Driven : Machine → Prop where
  | load {image : Image} {m m' : Machine} (h : load image m = .ok () m') : Driven m'
  | step {m : Machine} (h : Driven m) : Driven (stepInstruction.finalState m)
  | runFor {m : Machine} (n : Nat) (h : Driven m) : Driven ((runFor n).finalState m)
  | run {m : Machine} {ending : Ending} (h : Driven m) (hrun : run m = some ending) :
    Driven ending.machine

end Machine

namespace Recorded

/-- Recorded machines that were given a program and then driven through it. -/
inductive Driven : Recorded → Prop where
  | load {image : Image} {m m' : Machine} (h : Machine.load image m = .ok () m') :
    Driven { machine := m' }
  | step {r : Recorded} (h : Driven r) : Driven r.afterStep

theorem machine_afterStep (r : Recorded) :
    r.afterStep.machine = Machine.stepInstruction.finalState r.machine := by
  have hplain := forgets_stepInstruction r
  unfold afterStep Attempt.finalState
  rw [← hplain]
  cases stepInstruction r with
  | ok status r' => rfl
  | error e r' => rfl

/-! ## Runs -/

/-- A bounded run is a sequence of instructions. -/
theorem exists_driven_continueFor (n : Nat) {r : Recorded} (h : Driven r) :
    ∃ r', Driven r' ∧ r'.machine = (Machine.continueFor n).finalState r.machine := by
  induction n generalizing r with
  | zero => exact ⟨r, h, rfl⟩
  | succ n ih =>
    have hmachine := machine_afterStep r
    cases hstep : Machine.stepInstruction r.machine with
    | error e m =>
      have hrun : Machine.continueFor (n + 1) r.machine = .error e m :=
        Attempt.bind_of_error hstep
      refine ⟨r.afterStep, h.step, ?_⟩
      simpa only [Attempt.finalState, hstep, hrun] using hmachine
    | ok status m =>
      simp only [Attempt.finalState, hstep] at hmachine
      have hrun : Machine.continueFor (n + 1) r.machine =
          (if status = .running then Machine.continueFor n else pure status) m :=
        Attempt.bind_of_ok hstep
      by_cases hstatus : status = .running
      · obtain ⟨r', hdriven, hr'⟩ := ih h.step
        refine ⟨r', hdriven, ?_⟩
        rw [hr', hmachine]
        unfold Attempt.finalState
        rw [hrun, if_pos hstatus]
      · refine ⟨r.afterStep, h.step, ?_⟩
        unfold Attempt.finalState
        rw [hmachine, hrun, if_neg hstatus]
        rfl

theorem exists_driven_runFor (n : Nat) {r : Recorded} (h : Driven r) :
    ∃ r', Driven r' ∧ r'.machine = (Machine.runFor n).finalState r.machine := by
  cases hrunnable : r.machine.status.isRunnable with
  | true =>
    have hrun : Machine.runFor n r.machine = Machine.continueFor n r.machine := by
      simp only [Machine.runFor, Machine.ensureRunnable, bind_assoc, Attempt.get_bind_apply,
        hrunnable]
      rfl
    obtain ⟨r', hdriven, hr'⟩ := exists_driven_continueFor n h
    refine ⟨r', hdriven, ?_⟩
    rw [hr']
    unfold Attempt.finalState
    rw [hrun]
  | false =>
    have hrun : Machine.runFor n r.machine = .error (.of (.notRunnable r.machine.status))
        r.machine := by
      simp only [Machine.runFor, Machine.ensureRunnable, bind_assoc, Attempt.get_bind_apply,
        hrunnable]
      rfl
    refine ⟨r, h, ?_⟩
    unfold Attempt.finalState
    rw [hrun]

/-- A run to the end is a sequence of instructions. -/
theorem exists_driven_run {m : Machine} {ending : Machine.Ending}
    (hrun : Machine.run m = some ending) {r : Recorded} (h : Driven r) (hr : r.machine = m) :
    ∃ r', Driven r' ∧ r'.machine = ending.machine := by
  revert r
  refine Machine.run.partial_correctness
    (fun m ending => ∀ {r : Recorded}, Driven r → r.machine = m →
      ∃ r', Driven r' ∧ r'.machine = ending.machine) ?_ m ending hrun
  intro run ih m ending hrun r h hr
  subst hr
  have hmachine := machine_afterStep r
  cases hstep : Machine.stepInstruction r.machine with
  | error e m =>
    rw [hstep] at hrun
    cases hrun
    simp only [Attempt.finalState, hstep] at hmachine
    exact ⟨r.afterStep, h.step, hmachine⟩
  | ok status m =>
    rw [hstep] at hrun
    simp only [Attempt.finalState, hstep] at hmachine
    cases status with
    | running => exact ih m ending hrun h.step hmachine
    | _ =>
      cases hrun
      exact ⟨r.afterStep, h.step, hmachine⟩

end Recorded

/-- However a machine was driven, its sessions can be recorded. -/
theorem Machine.Driven.exists_recorded {m : Machine} (h : m.Driven) :
    ∃ r : Recorded, r.Driven ∧ r.machine = m := by
  induction h with
  | load h => exact ⟨_, .load h, rfl⟩
  | step _ ih =>
    obtain ⟨r, hdriven, rfl⟩ := ih
    exact ⟨r.afterStep, hdriven.step, r.machine_afterStep⟩
  | runFor n _ ih =>
    obtain ⟨r, hdriven, rfl⟩ := ih
    exact Recorded.exists_driven_runFor n hdriven
  | run _ hrun ih =>
    obtain ⟨r, hdriven, hr⟩ := ih
    exact Recorded.exists_driven_run hrun hdriven hr

namespace Recorded

/-! ## Steps that are asked for -/

/-- The latest session was answered with `step`, and no instruction was executed since. -/
def StepAsked (events : List RunEvent) : Prop :=
  ∃ opening earlier, events = .session opening (some .step) :: earlier

/-- A session was answered with `step`, and since then there were only debug interrupts, one at
least, whose sessions were answered with `go`. -/
inductive StepOverlooked : List RunEvent → Prop where
  | first {events : List RunEvent} (h : StepAsked events) :
    StepOverlooked (.session .interrupt (some .go) :: .instruction :: events)
  | again {events : List RunEvent} (h : StepOverlooked events) :
    StepOverlooked (.session .interrupt (some .go) :: .instruction :: events)

theorem StepOverlooked.not_stepAsked {events : List RunEvent} (h : StepOverlooked events) :
    ¬ StepAsked events := by
  intro hparts
  rcases hparts with ⟨opening, earlier, hevents⟩
  cases h with
  | first => cases hevents
  | again => cases hevents

theorem stepAsked_session {opening : Opening} {answer : Option Resume} {events : List RunEvent} :
    StepAsked (.session opening answer :: events) ↔ answer = some .step := by
  constructor
  · intro h
    rcases h with ⟨opening', earlier, hevents⟩
    cases hevents
    rfl
  · intro heq
    subst heq
    exact ⟨opening, events, rfl⟩

theorem not_stepOverlooked_check {answer : Option Resume} {events : List RunEvent} :
    ¬ StepOverlooked (.session .check answer :: events) := by
  intro h
  cases h

theorem stepOverlooked_interrupt {answer : Option Resume} {events : List RunEvent} :
    StepOverlooked (.session .interrupt answer :: .instruction :: events) ↔
      answer = some .go ∧ (StepAsked events ∨ StepOverlooked events) := by
  constructor
  · intro h
    cases h with
    | first h => exact ⟨rfl, .inl h⟩
    | again h => exact ⟨rfl, .inr h⟩
  · intro hparts
    rcases hparts with ⟨rfl, h | h⟩
    · exact .first h
    · exact .again h

theorem not_owed_instruction {events : List RunEvent} :
    ¬ (StepAsked (.instruction :: events) ∨ StepOverlooked (.instruction :: events)) := by
  intro hcase
  rcases hcase with ⟨opening, earlier, hevents⟩ | h
  · cases hevents
  · cases h

/-- A machine that can go on has a pending break exactly if a step was asked for or
overlooked. -/
def PendingAsOwed (r : Recorded) : Prop :=
  r.machine.status.isRunnable →
    (r.machine.breakPending ↔ StepAsked r.events ∨ StepOverlooked r.events)

theorem pendingAsOwed_of_outcome {r r' : Recorded} (hr : r.machine.status.isRunnable)
    (howed : PendingAsOwed r) (h : Outcome r r') : PendingAsOwed r' := by
  intro hr'
  cases h with
  | stopped _ _ hstatus =>
    rw [hstatus] at hr'
    cases hr'
  | silent m _ _ _ _ hevents hpending =>
    rw [hevents, hpending]
    exact iff_of_false Bool.false_ne_true not_owed_instruction
  | interrupt answer _ hevents hpending hstatus =>
    rw [hevents, hpending, stepAsked_session, stepOverlooked_interrupt, ← howed hr]
    rcases hstatus hr' with hstep | hgo
    · simp [hstep]
    · simp [hgo]
  | check answer m _ _ _ _ hevents hpending =>
    rw [hevents, hpending, stepAsked_session]
    simp [not_stepOverlooked_check]

theorem pendingAsOwed_of_load {image : Image} {m m' : Machine}
    (h : Machine.load image m = .ok () m') : PendingAsOwed { machine := m' } := by
  have hpending : m'.breakPending = false := by
    obtain ⟨-, m₁, m₂, hwrite, hstack, hbreak, -⟩ := Machine.exists_of_load h
    have hwritten := (Machine.keeps_onCpu _).of_ok hwrite
    have hset := (Machine.keeps_onCpu _).of_ok hstack
    rw [hbreak]
    exact (congrArg Prod.fst hset).trans (congrArg Prod.fst hwritten)
  intro _
  rw [hpending]
  apply iff_of_false Bool.false_ne_true
  intro hcase
  rcases hcase with ⟨opening, earlier, hevents⟩ | hevents
  · cases hevents
  · cases hevents

/-- The pending break is right along every run. -/
theorem Driven.pendingAsOwed {r : Recorded} (h : Driven r) : PendingAsOwed r := by
  induction h with
  | load h => exact pendingAsOwed_of_load h
  | @step r _ ih =>
    cases hr : r.machine.status.isRunnable with
    | true => exact pendingAsOwed_of_outcome hr ih (outcome_afterStep hr)
    | false =>
      rw [afterStep_of_not_runnable hr]
      exact ih

/-! ## The sessions of a run -/

/-- The next instruction opens a debugger session. -/
def Opens (r : Recorded) : Prop :=
  ∃ opening answer, r.afterStep.events = .session opening answer :: .instruction :: r.events

/-- The next instruction should open a debugger session: it is a debug interrupt, or it completes
with the machine running, and the trap flag is set behind it or the latest session asked for a
break behind it. -/
def Asked (r : Recorded) : Prop :=
  r.machine.NextIsDebugInterrupt ∨
    ∃ m, r.machine.NextCompletes m ∧ m.status = .running ∧
      (m.cpu.flags.trap ∨ StepAsked r.events)

/-- Nothing asks for a session at the next instruction, but a step that debug interrupts went by is
still pending behind it. -/
def Overlooked (r : Recorded) : Prop :=
  StepOverlooked r.events ∧ ¬ r.machine.NextIsDebugInterrupt ∧
    ∃ m, r.machine.NextCompletes m ∧ m.status = .running ∧ m.cpu.flags.trap = false

theorem Overlooked.not_asked {r : Recorded} (h : Overlooked r) : ¬ Asked r := by
  obtain ⟨howed, hinterrupt, m, hcompletes, -, htrap⟩ := h
  intro hcase
  rcases hcase with hdebug | ⟨m', hcompletes', -, htrap' | hasked⟩
  · exact hinterrupt hdebug
  · rw [hcompletes'.unique hcompletes, htrap] at htrap'
    cases htrap'
  · exact howed.not_stepAsked hasked

/-- Only the outcomes with a session have one. -/
theorem opens_iff_of_outcome {r : Recorded} (howed : r.machine.breakPending ↔
      StepAsked r.events ∨ StepOverlooked r.events) (h : Outcome r r.afterStep) :
    Opens r ↔ Asked r ∨ Overlooked r := by
  cases h with
  | stopped hevents _ _ hinterrupt hcompletes =>
    apply iff_of_false
    · intro hparts
      rcases hparts with ⟨opening, answer, hopens⟩
      rw [hevents] at hopens
      cases hopens
    · intro hcase
      rcases hcase with (hdebug | ⟨m, hm, hrunning, -⟩) | ⟨-, -, m, hm, hrunning, -⟩
      · exact hinterrupt hdebug
      · exact hcompletes m hm hrunning
      · exact hcompletes m hm hrunning
  | silent m hm _ htrap hpending hevents _ hinterrupt =>
    rw [hpending] at howed
    have hnothing := mt howed.mpr Bool.false_ne_true
    rw [not_or] at hnothing
    apply iff_of_false
    · intro hparts
      rcases hparts with ⟨opening, answer, hopens⟩
      rw [hevents] at hopens
      cases hopens
    · intro hcase
      rcases hcase with (hdebug | ⟨m', hm', -, htrap' | hasked⟩) | ⟨hlost, -⟩
      · exact hinterrupt hdebug
      · rw [hm'.unique hm, htrap] at htrap'
        cases htrap'
      · exact hnothing.1 hasked
      · exact hnothing.2 hlost
  | interrupt answer hinterrupt hevents =>
    exact iff_of_true ⟨_, _, hevents⟩ (.inl (.inl hinterrupt))
  | check answer m hm hrunning hwanted hinterrupt hevents =>
    refine iff_of_true ⟨_, _, hevents⟩ ?_
    cases htrap : m.cpu.flags.trap with
    | true => exact .inl (.inr ⟨m, hm, hrunning, .inl htrap⟩)
    | false =>
      rw [htrap, Bool.false_eq_true, or_false, howed] at hwanted
      rcases hwanted with hasked | hlost
      · exact .inl (.inr ⟨m, hm, hrunning, .inr hasked⟩)
      · exact .inr ⟨hlost, hinterrupt, m, hm, hrunning, htrap⟩

/-- The debugger opens at most once for an instruction, and it opens when it was asked to, save
for one thing: it also opens for a step that was overlooked. Every machine that is driven through
a program has a record of its sessions, and this holds for every such record. -/
theorem opens_iff_asked_or_overlooked {m : Machine} (hm : m.Driven) :
    (∃ r : Recorded, r.Driven ∧ r.machine = m) ∧
      ∀ r : Recorded, r.Driven → r.machine = m → m.status.isRunnable →
        (r.afterStep.events = .instruction :: r.events ∨ Opens r) ∧
          (Opens r ↔ Asked r ∨ Overlooked r) ∧ ((Opens r ↔ Asked r) ↔ ¬ Overlooked r) := by
  refine ⟨hm.exists_recorded, ?_⟩
  intro r h heq hr
  subst heq
  have houtcome := outcome_afterStep hr
  have hopens := opens_iff_of_outcome (h.pendingAsOwed hr) houtcome
  refine ⟨?_, hopens, ?_⟩
  · cases houtcome with
    | stopped hevents => exact .inl hevents
    | silent _ _ _ _ _ hevents => exact .inl hevents
    | interrupt _ _ hevents => exact .inr ⟨_, _, hevents⟩
    | check _ _ _ _ _ _ hevents => exact .inr ⟨_, _, hevents⟩
  · constructor
    · intro hasked hlost
      exact hlost.not_asked (hasked.mp (hopens.mpr (.inr hlost)))
    · intro hlost
      rw [hopens]
      exact or_iff_left hlost

/-! ## A step that is overlooked -/

/-- A program with two debug interrupts: `mov %al $3`, `int`, `int`, `nop`, `halt`. -/
def twoInterrupts : Image where
  rom := [0x02, 0x01, 0x00, 0x04, 0x03, 0x1e, 0x1e, 0x00, 0x01]
  memory := []
  width := .bits16
  entry := 0

/-- A machine whose user answers `step` and then `go`. -/
def stepThenGo : Machine where
  config := { memorySize := 16 }
  bench :=
    { cpu := Cpu.powerOn ⟨16, 8, 12⟩ false
      console := { pending := ["step", "go"] }
      storage := .table {} }

/-- That machine behind its second interrupt. -/
def behindInterrupts : Recorded :=
  { machine := (Machine.load twoInterrupts).finalState stepThenGo : Recorded }.afterStep.afterStep
    |>.afterStep

theorem load_twoInterrupts : Machine.load twoInterrupts stepThenGo =
    .ok () ((Machine.load twoInterrupts).finalState stepThenGo) := rfl

theorem driven_behindInterrupts : Driven behindInterrupts :=
  .step (.step (.step (.load load_twoInterrupts)))

theorem isRunnable_behindInterrupts : behindInterrupts.machine.status.isRunnable = true := by
  decide +kernel

theorem stepOverlooked_behindInterrupts : StepOverlooked behindInterrupts.events := by
  have hevents : behindInterrupts.events = [.session .interrupt (some .go), .instruction,
      .session .interrupt (some .step), .instruction, .instruction] := by
    decide +kernel
  rw [hevents]
  exact .first ⟨_, _, rfl⟩

/-- The next instruction is `nop`. -/
theorem overlooked_behindInterrupts : Overlooked behindInterrupts := by
  have hopcode : (Machine.fetchNext.outcome behindInterrupts.machine.starting).toOption.map
      Instruction.opcode = some .nop := by
    decide +kernel
  have hrunning : ((Machine.fetchNext >>= Machine.perform).finalState
      behindInterrupts.machine.starting).status = .running := by
    decide +kernel
  have htrap : ((Machine.fetchNext >>= Machine.perform).finalState
      behindInterrupts.machine.starting).cpu.flags.trap = false := by
    decide +kernel
  unfold Attempt.outcome at hopcode
  cases hfetch : Machine.fetchNext behindInterrupts.machine.starting with
  | error e m =>
    rw [hfetch] at hopcode
    cases hopcode
  | ok i m =>
    rw [hfetch] at hopcode
    have hnop : i.opcode = .nop := Option.some.inj hopcode
    have hperform : Machine.perform i m = .ok () m := by
      unfold Machine.perform
      rw [hnop]
      rfl
    have hboth : (Machine.fetchNext >>= Machine.perform) behindInterrupts.machine.starting =
        .ok () m := (Attempt.bind_of_ok hfetch).trans hperform
    unfold Attempt.finalState at hrunning htrap
    rw [hboth] at hrunning htrap
    refine ⟨stepOverlooked_behindInterrupts, ?_, m, ⟨i, m, hfetch, hperform⟩, hrunning, htrap⟩
    intro h
    rcases h with ⟨i', m', hfetch', hint, -⟩
    rw [hfetch] at hfetch'
    cases hfetch'
    rw [hnop] at hint
    cases hint

theorem opens_behindInterrupts_iff :
    (∃ r : Recorded, r.Driven ∧ r.machine = behindInterrupts.machine) ∧
      behindInterrupts.Driven ∧ behindInterrupts.machine.status.isRunnable = true ∧
        (Opens behindInterrupts ↔ Asked behindInterrupts ∨ Overlooked behindInterrupts) := by
  have hmachine : behindInterrupts.machine.Driven := by
    unfold behindInterrupts
    rw [machine_afterStep, machine_afterStep, machine_afterStep]
    exact .step (.step (.step (.load load_twoInterrupts)))
  obtain ⟨hrecord, hopens⟩ := opens_iff_asked_or_overlooked hmachine
  exact ⟨hrecord, driven_behindInterrupts, isRunnable_behindInterrupts,
    (hopens behindInterrupts driven_behindInterrupts rfl isRunnable_behindInterrupts).2.1⟩

/-- The debugger opens behind an instruction for which nothing asked it to, right after a session
that ended with `go`. -/
theorem opens_unasked_behindInterrupts :
    behindInterrupts.Driven ∧ behindInterrupts.machine.status.isRunnable = true ∧
      behindInterrupts.events = [.session .interrupt (some .go), .instruction,
        .session .interrupt (some .step), .instruction, .instruction] ∧
      Opens behindInterrupts ∧ ¬ Asked behindInterrupts := by
  refine ⟨driven_behindInterrupts, isRunnable_behindInterrupts, ?_, ?_, ?_⟩
  · decide +kernel
  · refine ⟨.check, some .go, ?_⟩
    decide +kernel
  · exact overlooked_behindInterrupts.not_asked

end Recorded

end TeachingCpu
