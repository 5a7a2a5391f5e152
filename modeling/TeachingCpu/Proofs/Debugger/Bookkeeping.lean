import TeachingCpu.Proofs.Debugger.Recorded

/-!
# What the machine remembers of its debugger

A machine keeps a pending break and whether it has met the debugger during its instruction. An
instruction touches neither unless it is a debug interrupt, and a session sets the pending break
if it is answered with `step`.
-/

namespace TeachingCpu

open Debugger (Resume)

/-! ## Interrupts -/

namespace Service

/-- An unknown number does not ask for the debugger. -/
theorem outcome_of_reportInvalid {cause : Cause} {b b' : Bench} {outcome : Outcome}
    (h : reportInvalid cause b = .ok outcome b') : outcome = .invalid (.of cause) := by
  obtain ⟨-, b₁, -, h⟩ := Attempt.bind_eq_ok.mp h
  obtain ⟨-, b₂, -, h⟩ := Attempt.bind_eq_ok.mp h
  cases h
  rfl

theorem outcome_of_file {b b' : Bench} {outcome : Outcome} (h : file b = .ok outcome b') :
    outcome ≠ .debug := by
  obtain ⟨code, b₁, -, h⟩ := Attempt.bind_eq_ok.mp h
  cases hop : FileOperation.ofCode? code.toUInt8.toNat with
  | none =>
    rw [hop] at h
    rw [outcome_of_reportInvalid h]
    exact Outcome.noConfusion
  | some operation =>
    rw [hop] at h
    obtain ⟨name, b₂, -, h⟩ := Attempt.bind_eq_ok.mp h
    obtain ⟨-, b₃, -, h⟩ := Attempt.bind_eq_ok.mp h
    cases operation with
    | _ =>
      dsimp only at h
      obtain ⟨-, b₄, -, h⟩ := Attempt.bind_eq_ok.mp h
      cases h
      exact Outcome.noConfusion

/-- Of the services, only the debug interrupt asks for the debugger. -/
theorem eq_debug_of_serve {i : Interrupt} {b b' : Bench} (h : serve i b = .ok .debug b') :
    i = .debug := by
  cases i with
  | debug => rfl
  | file => exact absurd rfl (outcome_of_file h)
  | _ =>
    obtain ⟨-, b₁, -, h⟩ := Attempt.bind_eq_ok.mp h
    cases h

theorem al_of_dispatch_debug {b b' : Bench} (h : dispatch b = .ok .debug b') :
    (b.cpu.reg .al).toUInt8 = 3 := by
  obtain ⟨al, b₁, hal, h⟩ := Attempt.bind_eq_ok.mp h
  cases hal
  cases hi : Interrupt.ofCode? (b.cpu.reg .al).toUInt8.toNat with
  | none =>
    rw [hi] at h
    cases outcome_of_reportInvalid h
  | some i =>
    rw [hi] at h
    obtain ⟨-, b₂, -, h⟩ := Attempt.bind_eq_ok.mp h
    have hcode := List.find?_some hi
    rw [eq_debug_of_serve h, beq_iff_eq] at hcode
    exact UInt8.toNat_inj.mp hcode.symm

theorem dispatch_of_al {b : Bench} (h : (b.cpu.reg .al).toUInt8 = 3) :
    ∃ b', dispatch b = .ok .debug b' ∧ b'.cpu = b.cpu := by
  refine ⟨{ b with console := b.console.log .debug topic fun _ =>
    "interrupt " ++ toString (b.cpu.reg .al).toUInt8.toNat ++ " (" ++
      Interrupt.debug.signal ++ ")" }, ?_, rfl⟩
  have hreg : Bench.reg .al b = .ok (b.cpu.reg .al) b := rfl
  have hdebug : Interrupt.ofCode? (b.cpu.reg .al).toUInt8.toNat = some .debug := by
    rw [h]
    rfl
  unfold dispatch
  rw [Attempt.bind_of_ok hreg]
  simp only [hdebug]
  rfl

end Service

namespace Machine

/-- What the debugger's bookkeeping consists of. -/
def bookkeeping (m : Machine) : Bool × Bool × Status := (m.breakPending, m.debugged, m.status)

theorem keeps_onCpu {α : Type} (act : Attempt Cpu α) :
    Attempt.Keeps bookkeeping (onCpu act) := by
  unfold onCpu
  refine Attempt.keeps_onPart ?_ _
  intro m bench
  rfl

theorem keeps_fetchByte (address : UInt16) : Attempt.Keeps bookkeeping (fetchByte address) := by
  apply Attempt.keeps_bind Attempt.keeps_get
  intro m
  split
  · exact Attempt.keeps_pure _
  · exact Attempt.keeps_fail _

theorem keeps_advance : Attempt.Keeps bookkeeping advance := by
  apply Attempt.keeps_bind Attempt.keeps_get
  intro m
  split
  · exact Attempt.keeps_fail _
  · apply Attempt.keeps_bind (keeps_onCpu _)
    intro _
    refine Attempt.keeps_bind (Attempt.keeps_modify fun _ => rfl) fun _ => ?_
    exact Attempt.keeps_pure _

theorem keeps_fetchOperand : Attempt.Keeps bookkeeping fetchOperand := by
  apply Attempt.keeps_bind keeps_advance
  intro pc
  apply Attempt.keeps_bind (keeps_fetchByte pc)
  intro tag
  apply Attempt.keeps_bind keeps_advance
  intro pc
  apply Attempt.keeps_bind (keeps_fetchByte pc)
  intro value
  split
  · exact Attempt.keeps_pure _
  · exact Attempt.keeps_fail _

theorem keeps_fetchOperands (n : Nat) : Attempt.Keeps bookkeeping (fetchOperands n) := by
  induction n with
  | zero => exact Attempt.keeps_pure _
  | succ n ih =>
    apply Attempt.keeps_bind keeps_fetchOperand
    intro operand
    apply Attempt.keeps_bind ih
    intro rest
    exact Attempt.keeps_pure _

theorem keeps_fetchInstruction : Attempt.Keeps bookkeeping fetchInstruction := by
  apply Attempt.keeps_bind Attempt.keeps_get
  intro m
  apply Attempt.keeps_bind (keeps_fetchByte _)
  intro code
  split
  · exact Attempt.keeps_fail _
  · apply Attempt.keeps_bind (keeps_fetchOperands _)
    intro operands
    apply Attempt.keeps_bind keeps_advance
    intro _
    exact Attempt.keeps_pure _

theorem keeps_fetchNext : Attempt.Keeps breakPending fetchNext := by
  refine Attempt.keeps_bind (Attempt.keeps_modify fun _ => rfl) fun _ => ?_
  apply Attempt.keeps_bind (keeps_fetchInstruction.map Prod.fst)
  intro i
  refine Attempt.keeps_bind (Attempt.keeps_modify fun _ => rfl) fun _ => ?_
  exact Attempt.keeps_pure _

/-- A fetched instruction has not met the debugger yet. -/
theorem bookkeeping_of_fetchNext {m m' : Machine} {i : Instruction}
    (h : fetchNext m = .ok i m') : m'.bookkeeping = (m.breakPending, false, m.status) := by
  obtain ⟨_, m₁, hbegin, hrest⟩ := Attempt.bind_eq_ok.mp h
  obtain ⟨i', m₂, hfetch, hcount⟩ := Attempt.bind_eq_ok.mp hrest
  have hkeeps := keeps_fetchInstruction.of_ok hfetch
  cases hbegin
  cases hcount
  exact hkeeps

theorem effect_eq_interrupt_iff {op : Opcode} : op.effect = .interrupt ↔ op = .int := by
  cases op <;> simp [Opcode.effect]

/-- An instruction that is no interrupt stops the program or works on the processor alone. -/
theorem perform_eq {i : Instruction} (hi : i.opcode ≠ .int) :
    perform i = halt ∨ perform i = onCpu (Cpu.perform i.opcode.effect i.operands) := by
  unfold perform
  split
  · exact .inl rfl
  · next heffect => exact absurd (effect_eq_interrupt_iff.mp heffect) hi
  · exact .inr rfl

theorem perform_of_int {i : Instruction} (hi : i.opcode = .int) : perform i = interrupt := by
  unfold perform
  rw [effect_eq_interrupt_iff.mpr hi]

/-- Whether an instruction is a debug interrupt, on a machine that has fetched it. -/
def IsDebugInterrupt (i : Instruction) (m : Machine) : Prop :=
  i.opcode = .int ∧ (m.cpu.reg .al).toUInt8 = 3

theorem keeps_onBench {α : Type} (act : Attempt Bench α) :
    Attempt.Keeps bookkeeping
      (Attempt.onPart Machine.bench (fun bench m => { m with bench }) act) := by
  refine Attempt.keeps_onPart ?_ act
  intro m bench
  rfl

/-- An interrupt of another service ends when the service does. -/
theorem interrupt_of_dispatch {m m' : Machine} {outcome : Service.Outcome}
    (h : Attempt.onPart Machine.bench (fun bench m => { m with bench }) Service.dispatch m =
      .ok outcome m') (houtcome : outcome ≠ .debug) : interrupt m = .ok () m' := by
  unfold interrupt
  rw [Attempt.bind_of_ok h]
  cases outcome with
  | debug => exact absurd rfl houtcome
  | handled => rfl
  | invalid e => rfl

theorem dispatch_ne_debug {m m' : Machine} {outcome : Service.Outcome}
    (hal : (m.cpu.reg .al).toUInt8 ≠ 3)
    (h : Attempt.onPart Machine.bench (fun bench m => { m with bench }) Service.dispatch m =
      .ok outcome m') : outcome ≠ .debug := by
  obtain ⟨b, hdispatch, -⟩ := Attempt.onPart_eq_ok.mp h
  intro houtcome
  rw [houtcome] at hdispatch
  exact hal (Service.al_of_dispatch_debug hdispatch)

/-- An instruction that is no debug interrupt leaves the bookkeeping alone, but it may stop the
program. -/
theorem bookkeeping_of_perform {i : Instruction} {m m' : Machine}
    (hi : ¬ IsDebugInterrupt i m) (h : perform i m = .ok () m') :
    m'.breakPending = m.breakPending ∧ m'.debugged = m.debugged ∧
      (m'.status = m.status ∨ m'.status = .halted) := by
  have hsame : m'.bookkeeping = m.bookkeeping →
      m'.breakPending = m.breakPending ∧ m'.debugged = m.debugged ∧
        (m'.status = m.status ∨ m'.status = .halted) := by
    intro hkeeps
    simp only [bookkeeping, Prod.mk.injEq] at hkeeps
    exact ⟨hkeeps.1, hkeeps.2.1, .inl hkeeps.2.2⟩
  by_cases hint : i.opcode = .int
  · rw [perform_of_int hint] at h
    cases hdispatch : Attempt.onPart Machine.bench (fun bench m => { m with bench })
        Service.dispatch m with
    | ok outcome m₁ =>
      have hdebug := dispatch_ne_debug (fun hal => hi ⟨hint, hal⟩) hdispatch
      rw [interrupt_of_dispatch hdispatch hdebug] at h
      cases h
      exact hsame ((keeps_onBench _).of_ok hdispatch)
    | error e m₁ =>
      unfold interrupt at h
      rw [Attempt.bind_of_error hdispatch] at h
      cases h
  · rcases perform_eq hint with hhalt | hcpu
    · rw [hhalt] at h
      cases h
      exact ⟨rfl, rfl, .inr rfl⟩
    · rw [hcpu] at h
      exact hsame ((keeps_onCpu _).of_ok h)

/-- A failure of such an instruction leaves the pending break alone. -/
theorem breakPending_of_perform_error {i : Instruction} {m m' : Machine} {e : Error}
    (hi : ¬ IsDebugInterrupt i m) (h : perform i m = .error e m') :
    m'.breakPending = m.breakPending := by
  by_cases hint : i.opcode = .int
  · rw [perform_of_int hint] at h
    cases hdispatch : Attempt.onPart Machine.bench (fun bench m => { m with bench })
        Service.dispatch m with
    | ok outcome m₁ =>
      have hdebug := dispatch_ne_debug (fun hal => hi ⟨hint, hal⟩) hdispatch
      rw [interrupt_of_dispatch hdispatch hdebug] at h
      cases h
    | error e' m₁ =>
      unfold interrupt at h
      rw [Attempt.bind_of_error hdispatch] at h
      cases h
      exact congrArg Prod.fst ((keeps_onBench _).of_error hdispatch)
  · rcases perform_eq hint with hhalt | hcpu
    · rw [hhalt] at h
      cases h
    · rw [hcpu] at h
      exact congrArg Prod.fst ((keeps_onCpu _).of_error h)

/-- A session that is answered. -/
theorem openDebugger_of_answer {m : Machine} {resume : Resume}
    (h : m.debuggerAnswer? = some resume) :
    ∃ m', openDebugger m = .ok () m' ∧ m'.cpu = m.cpu ∧ m'.debugged = true ∧
      m'.breakPending = (decide (resume = .step) || m.breakPending) ∧
      m'.status = if resume = .quit then .halted else m.status := by
  unfold debuggerAnswer? at h
  cases hsession : Debugger.session m.cpu m.bench.console with
  | error e c =>
    rw [hsession] at h
    cases h
  | ok resume' c =>
    rw [hsession] at h
    cases h
    have hpart : Attempt.onPart Machine.bench (fun bench m => { m with bench })
        (Bench.onConsole (Debugger.session { m with debugged := true }.cpu))
        { m with debugged := true } =
          .ok resume { m with debugged := true, bench := { m.bench with console := c } } :=
      Attempt.onPart_of_ok (Attempt.onPart_of_ok hsession)
    unfold openDebugger
    rw [Attempt.modify_bind_apply, Attempt.get_bind_apply, Attempt.bind_of_ok hpart]
    cases resume <;> exact ⟨_, rfl, rfl, rfl, rfl, rfl⟩

/-- A session on a console that breaks. -/
theorem openDebugger_of_no_answer {m : Machine} (h : m.debuggerAnswer? = none) :
    ∃ e m', openDebugger m = .error e m' ∧ m'.breakPending = m.breakPending := by
  unfold debuggerAnswer? at h
  cases hsession : Debugger.session m.cpu m.bench.console with
  | ok resume c =>
    rw [hsession] at h
    cases h
  | error e c =>
    have hpart : Attempt.onPart Machine.bench (fun bench m => { m with bench })
        (Bench.onConsole (Debugger.session { m with debugged := true }.cpu))
        { m with debugged := true } =
          .error e { m with debugged := true, bench := { m.bench with console := c } } :=
      Attempt.onPart_of_error (Attempt.onPart_of_error hsession)
    unfold openDebugger
    rw [Attempt.modify_bind_apply, Attempt.get_bind_apply, Attempt.bind_of_error hpart]
    exact ⟨_, _, rfl, rfl⟩

/-! ## What the next instruction does -/

/-- The machine at the start of its next instruction. -/
def starting (m : Machine) : Machine := { m with status := .running }

/-- The next instruction is `int`, and at its dispatch `al` holds the number of the debug
interrupt. -/
def NextIsDebugInterrupt (m : Machine) : Prop :=
  ∃ i m', fetchNext m.starting = .ok i m' ∧ IsDebugInterrupt i m'

/-- The next instruction takes effect without a failure and leaves a machine. -/
def NextCompletes (m m' : Machine) : Prop :=
  ∃ i m₁, fetchNext m.starting = .ok i m₁ ∧ perform i m₁ = .ok () m'

theorem NextCompletes.unique {m m₁ m₂ : Machine} (h₁ : m.NextCompletes m₁)
    (h₂ : m.NextCompletes m₂) : m₁ = m₂ := by
  obtain ⟨i, n, hfetch, hperform⟩ := h₁
  obtain ⟨i', n', hfetch', hperform'⟩ := h₂
  rw [hfetch] at hfetch'
  cases hfetch'
  rw [hperform] at hperform'
  cases hperform'
  rfl

end Machine

end TeachingCpu
