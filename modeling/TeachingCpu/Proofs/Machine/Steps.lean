import TeachingCpu.Proofs.Cpu.Stack
import TeachingCpu.Proofs.Machine.Budget
import TeachingCpu.Proofs.Machine.Counting
import TeachingCpu.Proofs.Service.Frame

/-!
# What an instruction makes of the processor

An instruction is fetched, which counts `pc` up, and takes effect or fails (`Stepped`). What is
behind it, the debugger and the record of a failure, leaves the processor alone. An instruction that
takes effect is an interrupt, which writes at most four registers (`Interrupted`), or it does what
it does on the processor alone.
-/

namespace TeachingCpu

open Attempt

/-- What an interrupt leaves of the processor. -/
structure Cpu.Interrupted (s t : Cpu) : Prop where
  reg : ∀ r ∉ [Register.dp, .dx, .dl, .dh], t.reg r = s.reg r
  layout : t.layout = s.layout
  allowPcWrite : t.allowPcWrite = s.allowPcWrite
  calls : t.calls = s.calls

theorem Cpu.interrupted_of_eq {s t : Cpu} (h : t = s) : s.Interrupted t := by
  subst h
  exact ⟨fun _ _ => rfl, rfl, rfl, rfl⟩

theorem Service.registers_footprint (b : Bench) (i : Interrupt) :
    (footprint b i).registers ⊆ [.dp, .dx, .dl, .dh] := by
  cases i with
  | file =>
    unfold footprint
    cases fileOperation? b with
    | none => exact List.nil_subset _
    | some operation =>
      cases operation with
      | read => exact fun r hr => List.mem_cons.mpr (.inl (List.mem_singleton.mp hr))
      | _ => exact List.nil_subset _
  | stringInput => exact fun r hr => List.mem_cons.mpr (.inl (List.mem_singleton.mp hr))
  | numberInput => exact List.subset_cons_self _ _
  | _ => exact List.nil_subset _

namespace Machine

variable {m m' m₁ m₂ : Machine} {i : Instruction} {e : Error}

/-! ## Interrupts -/

theorem interrupted_of_interrupt (h : interrupt m = .ok () m') :
    m.cpu.Interrupted m'.cpu := by
  obtain ⟨outcome, m₁, hact, h⟩ := bind_eq_ok.mp h
  obtain ⟨b, hdispatch, rfl⟩ := onPart_eq_ok.mp hact
  cases outcome with
  | handled =>
    cases h
    obtain ⟨service, -, hhandled⟩ := Service.handled_dispatch hdispatch
    have hconfined := hhandled.confined
    refine ⟨fun r hr => hconfined.registers r fun hmem => ?_, hconfined.layout,
      hconfined.allowPcWrite, hconfined.calls⟩
    exact hr (Service.registers_footprint _ _ hmem)
  | invalid e =>
    cases h
    exact Cpu.interrupted_of_eq (Service.reported_of_dispatch hdispatch).1.cpu
  | debug =>
    have honly := Service.consoleOnly_of_dispatch_debug hdispatch
    have hheld := leaves_openDebugger.ok h
    exact Cpu.interrupted_of_eq (hheld.cpu.trans honly.cpu)

/-- An instruction that takes effect is an interrupt or works on the processor alone. -/
theorem perform_cases (h : perform i m = .ok () m') :
    i.opcode = .int ∧ m.cpu.Interrupted m'.cpu ∨
      Cpu.perform i.opcode.effect i.operands m.cpu = .ok () m'.cpu := by
  cases heffect : i.opcode.effect with
  | halt =>
    simp only [perform, heffect] at h
    cases h
    exact .inr rfl
  | interrupt =>
    simp only [perform, heffect] at h
    exact .inl ⟨effect_eq_interrupt_iff.mp heffect, interrupted_of_interrupt h⟩
  | _ =>
    simp only [perform, heffect] at h
    obtain ⟨b, hbench, rfl⟩ := onPart_eq_ok.mp h
    obtain ⟨cpu, hcpu, rfl⟩ := onPart_eq_ok.mp hbench
    exact .inr hcpu

/-- An instruction that neither halts nor interrupts works on the processor alone. -/
theorem perform_eq_onCpu (hhalt : i.opcode.effect ≠ .halt)
    (hinterrupt : i.opcode.effect ≠ .interrupt) :
    perform i = onCpu (Cpu.perform i.opcode.effect i.operands) := by
  unfold perform
  split
  · next h => exact absurd h hhalt
  · next h => exact absurd h hinterrupt
  · rfl

/-- An instruction that fails on the processor. -/
theorem perform_of_cpu_error {cpu : Cpu}
    (h : Cpu.perform i.opcode.effect i.operands m.cpu = .error e cpu) :
    ∃ m', perform i m = .error e m' ∧ m'.cpu = cpu := by
  cases heffect : i.opcode.effect with
  | halt | interrupt =>
    rw [heffect] at h
    cases h
  | _ =>
    rw [heffect] at h
    simp only [perform, heffect]
    exact ⟨_, onPart_of_error (onPart_of_error h), rfl⟩

/-! ## The next instruction -/

/-- The instruction that is executed next, and the machine that has fetched it. There is none if
the machine cannot go on or the fetch fails. -/
def next? (m : Machine) : Option (Instruction × Machine) :=
  if m.status.isRunnable then
    match fetchNext m.starting with
    | .ok i m₁ => some (i, m₁)
    | .error _ _ => none
  else none

theorem next?_eq_some_iff :
    m.next? = some (i, m₁) ↔
      m.status.isRunnable = true ∧ fetchNext m.starting = .ok i m₁ := by
  unfold next?
  cases m.status.isRunnable with
  | false => simp
  | true => cases fetchNext m.starting <;> simp

/-- Behind the fetch `pc` is counted up, and that is all there is to see of it on the processor. -/
theorem exists_pc_of_next? (h : m.next? = some (i, m₁)) : ∃ pc, m₁.cpu = m.cpu.setPc pc :=
  (leaves_fetchNext.ok (next?_eq_some_iff.mp h).2).cpu

/-- What is fetched has as many operands as its opcode says. -/
theorem length_of_fetchOperands {n : Nat} {operands : List Operand} {m m' : Machine}
    (h : fetchOperands n m = .ok operands m') : operands.length = n := by
  induction n generalizing operands m with
  | zero =>
    cases h
    rfl
  | succ n ih =>
    obtain ⟨operand, m₁, -, h⟩ := bind_eq_ok.mp h
    obtain ⟨rest, m₂, hrest, h⟩ := bind_eq_ok.mp h
    cases h
    exact congrArg Nat.succ (ih hrest)

theorem complete_of_next? (h : m.next? = some (i, m₁)) : i.Complete := by
  obtain ⟨m₂, hfetch, -⟩ := fetchNext_eq_ok.mp (next?_eq_some_iff.mp h).2
  obtain ⟨-, m₃, hoperands, -⟩ := fetchInstruction_eq_ok.mp hfetch
  exact length_of_fetchOperands hoperands

theorem held_breakIfWanted : Leaves Held Held breakIfWanted := by
  refine reads_get.bind fun m => ?_
  split
  · refine leaves_seq (leaves_modify fun m => ?_) fun _ => leaves_openDebugger
    exact ⟨⟨rfl, .inl rfl, .refl⟩, rfl, rfl⟩
  · exact leaves_pure _

/-- What becomes of the processor over an instruction. -/
inductive Stepped (m : Machine) : Cpu → Prop where
  | stopped (h : m.status.isRunnable = false) : Stepped m m.cpu
  | unfetched {m₁ : Machine} {e : Error} (hrunnable : m.status.isRunnable = true)
    (h : fetchNext m.starting = .error e m₁) : Stepped m m₁.cpu
  | failed {i : Instruction} {m₁ m₂ : Machine} {e : Error} (hnext : m.next? = some (i, m₁))
    (h : perform i m₁ = .error e m₂) : Stepped m m₂.cpu
  | completed {i : Instruction} {m₁ m₂ : Machine} (hnext : m.next? = some (i, m₁))
    (h : perform i m₁ = .ok () m₂) : Stepped m m₂.cpu

theorem stepInstruction_of_next? (h : m.next? = some (i, m₁)) :
    stepInstruction m =
      match (do perform i; breakIfWanted) m₁ with
      | .ok _ m' => .ok m'.status m'
      | .error e m' => .error e (m'.fault e) := by
  obtain ⟨hrunnable, hfetch⟩ := next?_eq_some_iff.mp h
  exact stepInstruction_of_fetchNext hrunnable hfetch

/-- An instruction that fails to take effect. -/
theorem stepInstruction_of_perform_error (hnext : m.next? = some (i, m₁))
    (h : perform i m₁ = .error e m₂) : stepInstruction m = .error e (m₂.fault e) := by
  rw [stepInstruction_of_next? hnext, bind_of_error h]

/-- An instruction that takes effect, whatever the debugger behind it does. -/
theorem cpu_of_perform_ok (hnext : m.next? = some (i, m₁)) (h : perform i m₁ = .ok () m₂) :
    (stepInstruction.finalState m).cpu = m₂.cpu := by
  unfold finalState
  rw [stepInstruction_of_next? hnext, bind_of_ok h]
  cases hbreak : breakIfWanted m₂ with
  | ok _ m' => exact (held_breakIfWanted.ok hbreak).cpu
  | error e m' => exact (held_breakIfWanted.error hbreak).cpu

theorem stepInstruction_of_fetchNext_error (hrunnable : m.status.isRunnable = true)
    (h : fetchNext m.starting = .error e m₁) : stepInstruction m = .error e (m₁.fault e) := by
  have hrun : executeNext m.starting = .error e m₁ := by
    rw [executeNext_eq, bind_of_error h]
  rw [stepInstruction_of_runnable hrunnable, hrun]

theorem stepped_stepInstruction (m : Machine) :
    Stepped m (stepInstruction.finalState m).cpu := by
  cases hrunnable : m.status.isRunnable with
  | false =>
    rw [finalState_of_error (stepInstruction_of_not_runnable hrunnable)]
    exact .stopped hrunnable
  | true =>
    cases hfetch : fetchNext m.starting with
    | error e m₁ =>
      rw [finalState_of_error (stepInstruction_of_fetchNext_error hrunnable hfetch)]
      change Stepped m m₁.cpu
      exact .unfetched hrunnable hfetch
    | ok i m₁ =>
      have hnext := next?_eq_some_iff.mpr ⟨hrunnable, hfetch⟩
      cases hperform : perform i m₁ with
      | ok _ m₂ =>
        rw [cpu_of_perform_ok hnext hperform]
        exact .completed hnext hperform
      | error e m₂ =>
        rw [finalState_of_error (stepInstruction_of_perform_error hnext hperform)]
        change Stepped m m₂.cpu
        exact .failed hnext hperform

end Machine

end TeachingCpu
