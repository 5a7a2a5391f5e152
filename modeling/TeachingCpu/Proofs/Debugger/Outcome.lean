import TeachingCpu.Proofs.Debugger.Bookkeeping

/-!
# What an instruction means to the debugger

An instruction opens the debugger if it is a debug interrupt, or behind it if a break is pending
or the trap flag is set. `outcome_afterStep` says what becomes of the record and of the pending
break in each case.
-/

namespace TeachingCpu

open Debugger (Resume)

namespace Recorded

open Machine (bookkeeping)

/-- What is left of a machine when an instruction is over, a failure being its fault. -/
def settle : EStateM.Result Error Recorded Unit → Recorded
  | .ok _ r => r
  | .error e r => { r with machine := r.machine.fault e }

/-- What executing an instruction leaves. -/
def afterStep (r : Recorded) : Recorded := stepInstruction.finalState r

theorem afterStep_eq {r : Recorded} (h : r.machine.status.isRunnable) :
    r.afterStep = settle (executeNext { r with machine := r.machine.starting }) := by
  have hrunnable : onMachine Machine.ensureRunnable r = .ok () r := by
    apply onMachine_of_ok
    simp only [Machine.ensureRunnable, Attempt.get_bind_apply, h]
    rfl
  have hstart : onMachine (modify fun m => { m with status := .running }) r =
      .ok () { r with machine := r.machine.starting } := rfl
  unfold afterStep stepInstruction Attempt.finalState
  rw [Attempt.bind_of_ok hrunnable, Attempt.bind_of_ok hstart]
  cases hexec : executeNext { r with machine := r.machine.starting } with
  | ok _ r' =>
    have hfault : orFault executeNext { r with machine := r.machine.starting } = .ok () r' := by
      unfold orFault
      rw [hexec]
    rw [Attempt.bind_of_ok hfault]
    rfl
  | error e r' =>
    have hfault : orFault executeNext { r with machine := r.machine.starting } =
        .error e { r' with machine := r'.machine.fault e } := by
      unfold orFault
      rw [hexec]
    rw [Attempt.bind_of_error hfault]
    rfl

theorem afterStep_of_not_runnable {r : Recorded} (h : r.machine.status.isRunnable = false) :
    r.afterStep = r := by
  have hrefused : onMachine Machine.ensureRunnable r =
      .error (.of (.notRunnable r.machine.status)) r := by
    apply onMachine_of_error
    simp only [Machine.ensureRunnable, Attempt.get_bind_apply, h]
    rfl
  unfold afterStep stepInstruction Attempt.finalState
  rw [Attempt.bind_of_error hrefused]

/-! ## The sessions of one instruction -/

/-- A session writes its answer into the record and its effect into the bookkeeping. -/
theorem settle_openDebugger (opening : Opening) (r : Recorded) :
    (settle (openDebugger opening r)).events =
        .session opening r.machine.debuggerAnswer? :: r.events ∧
      (settle (openDebugger opening r)).machine.breakPending =
        (decide (r.machine.debuggerAnswer? = some .step) || r.machine.breakPending) ∧
      ((settle (openDebugger opening r)).machine.status.isRunnable →
        r.machine.debuggerAnswer? = some .step ∨ r.machine.debuggerAnswer? = some .go) := by
  let noted : Recorded :=
    { r with events := .session opening r.machine.debuggerAnswer? :: r.events }
  have hopen : openDebugger opening r = onMachine Machine.openDebugger noted := rfl
  cases hanswer : r.machine.debuggerAnswer? with
  | none =>
    obtain ⟨e, m', hsession, hpending⟩ := Machine.openDebugger_of_no_answer hanswer
    rw [hopen, onMachine_of_error (r := noted) hsession]
    refine ⟨?_, ?_, fun h => absurd h Bool.false_ne_true⟩
    · exact congrArg (fun answer => RunEvent.session opening answer :: r.events) hanswer
    · exact hpending
  | some resume =>
    obtain ⟨m', hsession, -, -, hpending, hstatus⟩ := Machine.openDebugger_of_answer hanswer
    rw [hopen, onMachine_of_ok (r := noted) hsession]
    refine ⟨?_, ?_, fun h => ?_⟩
    · exact congrArg (fun answer => RunEvent.session opening answer :: r.events) hanswer
    · simp only [Option.some.injEq]
      exact hpending
    · cases resume with
      | step => exact .inl rfl
      | go => exact .inr rfl
      | quit =>
        rw [show (settle (.ok () { noted with machine := m' })).machine.status = .halted
          from hstatus] at h
        cases h

/-- A recorded machine whose next instruction was fetched. -/
def fetched (r : Recorded) (m : Machine) : Recorded :=
  { machine := m, events := .instruction :: r.events }

/-- The recorded machine at the start of its next instruction. -/
def starting (r : Recorded) : Recorded := { r with machine := r.machine.starting }

theorem executeNext_of_fetch {r : Recorded} {i : Instruction} {m : Machine}
    (h : Machine.fetchNext r.machine = .ok i m) :
    executeNext r = (perform i >>= fun _ => breakIfWanted) (r.fetched m) := by
  have hfetch : onMachine Machine.fetchNext (r.fetched r.machine) = .ok i (r.fetched m) :=
    onMachine_of_ok (r := r.fetched r.machine) h
  exact Attempt.bind_of_ok hfetch

theorem executeNext_of_fetch_error {r : Recorded} {e : Error} {m : Machine}
    (h : Machine.fetchNext r.machine = .error e m) :
    executeNext r = .error e (r.fetched m) := by
  have hfetch : onMachine Machine.fetchNext (r.fetched r.machine) = .error e (r.fetched m) :=
    onMachine_of_error (r := r.fetched r.machine) h
  change (onMachine Machine.fetchNext >>= fun i => perform i >>= fun _ => breakIfWanted)
    (r.fetched r.machine) = _
  exact Attempt.bind_of_error hfetch

theorem perform_of_not_int {i : Instruction} (hi : i.opcode ≠ .int) :
    perform i = onMachine (Machine.perform i) := by
  unfold perform
  split
  · next heffect => exact absurd (Machine.effect_eq_interrupt_iff.mp heffect) hi
  · rfl

/-- A debug interrupt opens the debugger on the machine that has fetched it. -/
theorem perform_of_debug {r : Recorded} {i : Instruction}
    (h : Machine.IsDebugInterrupt i r.machine) :
    ∃ bench : Bench, bench.cpu = r.machine.cpu ∧
      perform i r = openDebugger .interrupt { r with machine := { r.machine with bench } } := by
  obtain ⟨hint, hal⟩ := h
  obtain ⟨bench, hdispatch, hcpu⟩ := Service.dispatch_of_al (b := r.machine.bench) hal
  refine ⟨bench, hcpu, ?_⟩
  have hserved : onMachine
      (Attempt.onPart Machine.bench (fun bench m => { m with bench }) Service.dispatch) r =
        .ok .debug { r with machine := { r.machine with bench } } :=
    onMachine_of_ok (Attempt.onPart_of_ok hdispatch)
  unfold perform
  rw [Machine.effect_eq_interrupt_iff.mpr hint]
  simp only [interrupt]
  rw [Attempt.bind_of_ok hserved]

/-- Every other instruction does what it does without the record. -/
theorem perform_of_not_debug {r : Recorded} {i : Instruction}
    (h : ¬ Machine.IsDebugInterrupt i r.machine) :
    perform i r = onMachine (Machine.perform i) r := by
  by_cases hint : i.opcode = .int
  · rw [Machine.perform_of_int hint]
    unfold perform
    rw [Machine.effect_eq_interrupt_iff.mpr hint]
    cases hdispatch : Attempt.onPart Machine.bench (fun bench m => { m with bench })
        Service.dispatch r.machine with
    | ok outcome m =>
      have hdebug := Machine.dispatch_ne_debug (fun hal => h ⟨hint, hal⟩) hdispatch
      rw [onMachine_of_ok (Machine.interrupt_of_dispatch hdispatch hdebug)]
      simp only [interrupt]
      rw [Attempt.bind_of_ok (onMachine_of_ok hdispatch)]
      cases outcome with
      | debug => exact absurd rfl hdebug
      | handled => rfl
      | invalid e => rfl
    | error e m =>
      have hplain : Machine.interrupt r.machine = .error e m := Attempt.bind_of_error hdispatch
      rw [onMachine_of_error hplain]
      exact Attempt.bind_of_error (onMachine_of_error hdispatch)
  · rw [perform_of_not_int hint]

/-- What an instruction does to the record, to the pending break, and to whether the machine can
go on. -/
inductive Outcome (r r' : Recorded) : Prop where
  /-- It fails or stops the program, without a session. -/
  | stopped (hevents : r'.events = .instruction :: r.events)
      (hpending : r'.machine.breakPending = r.machine.breakPending)
      (hstatus : r'.machine.status.isRunnable = false)
      (hinterrupt : ¬ r.machine.NextIsDebugInterrupt)
      (hcompletes : ∀ m, r.machine.NextCompletes m → m.status ≠ .running)
  /-- It completes without a session. -/
  | silent (m : Machine) (hcompletes : r.machine.NextCompletes m) (hstatus : m.status = .running)
      (htrap : m.cpu.flags.trap = false) (hpending : r.machine.breakPending = false)
      (hevents : r'.events = .instruction :: r.events)
      (hpending' : r'.machine.breakPending = false)
      (hinterrupt : ¬ r.machine.NextIsDebugInterrupt)
  /-- It is a debug interrupt. -/
  | interrupt (answer : Option Resume) (hinterrupt : r.machine.NextIsDebugInterrupt)
      (hevents : r'.events = .session .interrupt answer :: .instruction :: r.events)
      (hpending : r'.machine.breakPending =
        (decide (answer = some .step) || r.machine.breakPending))
      (hstatus : r'.machine.status.isRunnable → answer = some .step ∨ answer = some .go)
  /-- It completes, and the debugger opens behind it. -/
  | check (answer : Option Resume) (m : Machine) (hcompletes : r.machine.NextCompletes m)
      (hstatus : m.status = .running) (hwanted : r.machine.breakPending ∨ m.cpu.flags.trap)
      (hinterrupt : ¬ r.machine.NextIsDebugInterrupt)
      (hevents : r'.events = .session .check answer :: .instruction :: r.events)
      (hpending : r'.machine.breakPending = decide (answer = some .step))

/-- The debugger does not open again behind its own interrupt. -/
theorem settle_executeNext_of_debug {r : Recorded} {i : Instruction} {m : Machine}
    (hfetch : Machine.fetchNext r.machine = .ok i m) (hdebug : Machine.IsDebugInterrupt i m) :
    ∃ bench : Bench, settle (executeNext r) =
      settle (openDebugger .interrupt (r.fetched { m with bench })) := by
  obtain ⟨bench, -, hperform⟩ := perform_of_debug (r := r.fetched m) hdebug
  refine ⟨bench, ?_⟩
  rw [executeNext_of_fetch hfetch]
  cases hopen : openDebugger .interrupt (r.fetched { m with bench }) with
  | error e r' => rw [Attempt.bind_of_error (hperform.trans hopen)]
  | ok _ r' =>
    rw [Attempt.bind_of_ok (hperform.trans hopen), breakIfWanted_of_not_wanted]
    intro h
    rcases h with ⟨-, -, hdebugged⟩
    have hplain := forgets_openDebugger .interrupt (r.fetched { m with bench })
    rw [hopen] at hplain
    cases hanswer : Machine.debuggerAnswer? { m with bench } with
    | none =>
      obtain ⟨e, m', hsession, -⟩ := Machine.openDebugger_of_no_answer hanswer
      cases hplain.trans hsession
    | some resume =>
      obtain ⟨m', hsession, -, hopened, -⟩ := Machine.openDebugger_of_answer hanswer
      cases hplain.trans hsession
      rw [hopened] at hdebugged
      cases hdebugged

/-- An instruction that is no debug interrupt meets the debugger behind it, if at all. -/
theorem outcome_of_not_debug {r : Recorded} {i : Instruction} {m : Machine}
    (hfetch : Machine.fetchNext r.machine.starting = .ok i m)
    (hdebug : ¬ Machine.IsDebugInterrupt i m)
    (hkeeps : m.breakPending = r.machine.breakPending ∧ m.debugged = false ∧
      m.status = .running) : Outcome r (settle (executeNext r.starting)) := by
  obtain ⟨hpending, hdebugged, hstatus⟩ := hkeeps
  have hinterrupt : ¬ r.machine.NextIsDebugInterrupt := by
    intro h
    rcases h with ⟨i', m', hfetch', hdebug'⟩
    rw [hfetch] at hfetch'
    cases hfetch'
    exact hdebug hdebug'
  have hperform : perform i (r.starting.fetched m) = _ := perform_of_not_debug hdebug
  rw [executeNext_of_fetch (r := r.starting) hfetch]
  cases hplain : Machine.perform i m with
  | error e m' =>
    have hfailed := Machine.breakPending_of_perform_error hdebug hplain
    rw [onMachine_of_error (r := r.starting.fetched m) hplain] at hperform
    rw [Attempt.bind_of_error hperform]
    refine .stopped rfl (hfailed.trans hpending) rfl hinterrupt ?_
    intro m'' h
    rcases h with ⟨i', m₁, hfetch', hperform'⟩
    rw [hfetch] at hfetch'
    cases hfetch'
    rw [hplain] at hperform'
    cases hperform'
  | ok _ m' =>
    have hcompletes : r.machine.NextCompletes m' := ⟨i, m, hfetch, hplain⟩
    obtain ⟨hpending', hdebugged', hstatus'⟩ := Machine.bookkeeping_of_perform hdebug hplain
    rw [onMachine_of_ok (r := r.starting.fetched m) hplain] at hperform
    rw [Attempt.bind_of_ok hperform]
    by_cases hwanted : m'.status = .running ∧ (m'.breakPending ∨ m'.cpu.flags.trap) ∧
        m'.debugged = false
    · rw [breakIfWanted_of_wanted (r := { r.starting.fetched m with machine := m' }) hwanted]
      obtain ⟨hevents, hsession, -⟩ := settle_openDebugger .check
        { r.starting.fetched m with machine := { m' with breakPending := false } }
      refine .check _ m' hcompletes hwanted.1 ?_ hinterrupt hevents ?_
      · rw [← hpending, ← hpending']
        exact hwanted.2.1
      · rw [hsession]
        exact Bool.or_false _
    · rw [breakIfWanted_of_not_wanted (r := { r.starting.fetched m with machine := m' }) hwanted]
      rcases hstatus' with hsame | hhalted
      · have hrunning : m'.status = .running := hsame.trans hstatus
        have hclear : ¬ (m'.breakPending ∨ m'.cpu.flags.trap) := fun hbreak =>
          hwanted ⟨hrunning, hbreak, hdebugged'.trans hdebugged⟩
        rw [not_or, Bool.not_eq_true, Bool.not_eq_true] at hclear
        exact .silent m' hcompletes hrunning hclear.2
          ((hpending'.trans hpending).symm.trans hclear.1) rfl hclear.1 hinterrupt
      · refine .stopped rfl (hpending'.trans hpending) ?_ hinterrupt ?_
        · exact congrArg Status.isRunnable hhalted
        · intro m'' hcompletes'
          rw [hcompletes'.unique hcompletes, hhalted]
          exact Status.noConfusion

/-- An instruction of a machine that can execute has one of the outcomes. -/
theorem outcome_afterStep {r : Recorded} (h : r.machine.status.isRunnable) :
    Outcome r r.afterStep := by
  rw [afterStep_eq h]
  cases hfetch : Machine.fetchNext r.machine.starting with
  | error e m =>
    have hnone : ∀ i m', Machine.fetchNext r.machine.starting ≠ .ok i m' := by
      intro i m' hok
      rw [hfetch] at hok
      cases hok
    have hrun := executeNext_of_fetch_error (r := r.starting) hfetch
    have hpending : m.breakPending = r.machine.starting.breakPending :=
      Machine.keeps_fetchNext.of_error hfetch
    refine .stopped ?_ ?_ ?_ ?_ ?_
    · exact congrArg (fun result => (settle result).events) hrun
    · exact (congrArg (fun result => (settle result).machine.breakPending) hrun).trans hpending
    · exact congrArg (fun result => (settle result).machine.status.isRunnable) hrun
    · intro hparts
      rcases hparts with ⟨i, m', hok, -⟩
      exact hnone i m' hok
    · intro m' hparts
      rcases hparts with ⟨i, m₁, hok, -⟩
      exact absurd hok (hnone i m₁)
  | ok i m =>
    have hkeeps := Machine.bookkeeping_of_fetchNext hfetch
    simp only [bookkeeping, Prod.mk.injEq] at hkeeps
    obtain ⟨hpending, hdebugged, hstatus⟩ := hkeeps
    by_cases hdebug : Machine.IsDebugInterrupt i m
    · obtain ⟨bench, hsettle⟩ := settle_executeNext_of_debug (r := r.starting) hfetch hdebug
      have hsession := settle_openDebugger .interrupt (r.starting.fetched { m with bench })
      rw [← hsettle] at hsession
      obtain ⟨hevents, hpending', hanswer⟩ := hsession
      exact .interrupt _ ⟨i, m, hfetch, hdebug⟩ hevents
        (hpending'.trans (congrArg (fun pending => _ || pending) hpending)) hanswer
    · exact outcome_of_not_debug hfetch hdebug ⟨hpending, hdebugged, hstatus⟩

end Recorded

end TeachingCpu
