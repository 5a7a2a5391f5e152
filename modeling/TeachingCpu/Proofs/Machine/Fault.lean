import TeachingCpu.Proofs.Machine.Calls

/-!
# What a failing instruction leaves

An instruction checks before it changes anything, so the machine that a failure stops has the
memory, the calls, the files and the registers that the instruction found
(`keeps_of_stepInstruction_error`). Only `pc` was counted up, flags of a result may be set, and a
`pop` that cannot write what it took has taken it off the stack.
-/

namespace TeachingCpu

open Attempt

namespace Cpu

theorem reg_setPc_of_ne (cpu : Cpu) {r : Register} (h : r ≠ .pc) (pc : UInt16) :
    (cpu.setPc pc).reg r = cpu.reg r :=
  Registers.get_setSlot_of_ne _ (Ne.symm h) pc

/-- A word that is taken off the stack lies in memory, so `sp` does not wrap around. -/
theorem pop_eq_ok {cpu cpu' : Cpu} {value : UInt16} (hsize : cpu.layout.size ≤ 65535)
    (h : pop cpu = .ok value cpu') :
    ∃ sp : UInt16, sp.toNat = (cpu.reg .sp).toNat + 2 ∧ cpu' = cpu.setSlot .sp sp := by
  unfold pop at h
  rw [get_bind_apply] at h
  split at h
  · cases h
  · obtain ⟨word, cpu₁, hread, h⟩ := bind_eq_ok.mp h
    cases (reads_readMemory _).ok hread
    cases h
    have hword : cpu.memory.readWord (cpu.reg .sp).toNat = .ok value :=
      (ofExcept_eq_ok.mp hread).1
    obtain ⟨_, hcheck, -⟩ := Except.bind_eq_ok_iff.mp hword
    have hlast := Memory.check_eq_ok_iff.mp hcheck
    have hlayout : cpu.memory.layout.lastAddressable.toNat = cpu.layout.size - 1 :=
      Layout.lastAddressable_eq hsize
    rw [hlayout] at hlast
    exact ⟨_, Nat.toNat_toUInt16_of_le (by omega), rfl⟩

/-- A `pop` fails with nothing changed, or behind the stack when its word cannot be written. -/
theorem popOperand_eq_error {cpu cpu' : Cpu} {target : Operand} {e : Error}
    (h : popOperand target cpu = .error e cpu') :
    pop cpu = .error e cpu ∧ cpu' = cpu ∨
      ∃ value, pop cpu = .ok value cpu' ∧ writeOperand target .word value cpu' = .error e cpu' := by
  unfold popOperand at h
  cases hpop : pop cpu with
  | error e' cpu₁ =>
    rw [bind_of_error hpop] at h
    cases h
    cases leaves_pop.error hpop
    exact .inl ⟨rfl, rfl⟩
  | ok value cpu₁ =>
    rw [bind_of_ok hpop] at h
    cases (leaves_writeOperand target .word value).error h
    exact .inr ⟨value, rfl, h⟩

end Cpu

namespace Service

/-- Until the debugger opens, its interrupt has written a log line. -/
theorem consoleOnly_of_dispatch_debug {b b' : Bench} (h : dispatch b = .ok .debug b') :
    Bench.ConsoleOnly b b' := by
  have hreg : Bench.reg .al b = .ok (b.cpu.reg .al) b := rfl
  have hdebug : Interrupt.ofCode? (b.cpu.reg .al).toUInt8.toNat = some .debug := by
    rw [al_of_dispatch_debug h]
    rfl
  unfold dispatch at h
  rw [bind_of_ok hreg] at h
  simp only [hdebug] at h
  cases h
  exact ⟨rfl, rfl⟩

end Service

namespace Instruction

/-- The instruction is a `pop` whose word comes off the stack but cannot be written. -/
def PopUnwritable (i : Instruction) (cpu : Cpu) : Prop :=
  i.opcode = .pop ∧ ∃ target value cpu₁ e cpu₂, i.operands = [target] ∧
    Cpu.pop cpu = .ok value cpu₁ ∧ Cpu.writeOperand target .word value cpu₁ = .error e cpu₂

/-- What an instruction that fails to take effect leaves of the processor. -/
inductive FailsOn (i : Instruction) (cpu : Cpu) : Cpu → Prop where
  | spared {cpu' : Cpu} (hwritable : ¬ i.PopUnwritable cpu) (h : cpu.Reflagged cpu') :
    FailsOn i cpu cpu'
  | popped {sp : UInt16} (hunwritable : i.PopUnwritable cpu)
    (hsp : sp.toNat = (cpu.reg .sp).toNat + 2) : FailsOn i cpu (cpu.setSlot .sp sp)

theorem FailsOn.of_not_pop {i : Instruction} {cpu cpu' : Cpu} (hpop : i.opcode ≠ .pop)
    (h : cpu.Reflagged cpu') : i.FailsOn cpu cpu' :=
  .spared (fun hunwritable => hpop hunwritable.1) h

theorem FailsOn.memory {i : Instruction} {cpu cpu' : Cpu} (h : i.FailsOn cpu cpu') :
    cpu'.memory = cpu.memory := by
  cases h with
  | spared _ hflags =>
    obtain ⟨flags, rfl, -⟩ := hflags
    rfl
  | popped => rfl

theorem FailsOn.pc {i : Instruction} {cpu cpu' : Cpu} (h : i.FailsOn cpu cpu') :
    cpu'.pc = cpu.pc := by
  cases h with
  | spared _ hflags =>
    obtain ⟨flags, rfl, -⟩ := hflags
    rfl
  | @popped sp _ _ => exact Registers.get_setSlot_of_ne _ (by decide) sp

end Instruction

namespace Machine

variable {m m' : Machine} {i : Instruction} {e : Error}

/-! ## Fetching -/

/-- At most `pc` was counted up, and log lines were written. -/
structure Counted (m m' : Machine) : Prop where
  cpu : ∃ pc, m'.cpu = m.cpu.setPc pc
  storage : m'.bench.storage = m.bench.storage

instance : IsPreorder Machine Counted where
  refl m := ⟨⟨m.cpu.pc, (Cpu.setPc_pc m.cpu).symm⟩, rfl⟩
  trans := by
    rintro m m₁ m₂ ⟨⟨pc, hcpu⟩, hstorage⟩ ⟨⟨pc', hcpu'⟩, hstorage'⟩
    refine ⟨⟨pc', ?_⟩, hstorage'.trans hstorage⟩
    rw [hcpu', hcpu, Cpu.setPc_setPc]

theorem Advances.counted (h : Advances m m') : Counted m m' := by
  obtain ⟨pc, observed, -, rfl⟩ := h
  exact ⟨⟨pc, rfl⟩, rfl⟩

theorem counted_of_cpu_eq (hcpu : m'.cpu = m.cpu) (hstorage : m'.bench.storage = m.bench.storage) :
    Counted m m' :=
  ⟨⟨m.cpu.pc, hcpu.trans (Cpu.setPc_pc m.cpu).symm⟩, hstorage⟩

theorem leaves_fetchNext : Leaves Counted Counted fetchNext := by
  refine leaves_seq (leaves_modify fun m => counted_of_cpu_eq rfl rfl) fun _ => ?_
  refine leaves_seq (leaves_fetchInstruction.imp ?_ ?_) fun i => ?_
  · exact fun _ _ h => h.counted
  · exact fun _ _ h => h.counted
  · exact leaves_seq (leaves_modify fun m => counted_of_cpu_eq rfl rfl) fun _ => leaves_pure _

/-! ## Taking effect -/

theorem effect_eq_pop_iff {op : Opcode} : op.effect = .pop ↔ op = .pop := by
  cases op <;> simp [Opcode.effect]

theorem failsOn_of_popOperand {cpu cpu' : Cpu} {target : Operand}
    (hsize : cpu.layout.size ≤ 65535) (hpop : i.opcode = .pop) (hoperands : i.operands = [target])
    (h : Cpu.popOperand target cpu = .error e cpu') : i.FailsOn cpu cpu' := by
  rcases Cpu.popOperand_eq_error h with ⟨hfails, rfl⟩ | ⟨value, hok, hwrite⟩
  · refine .spared ?_ (.refl _)
    rintro ⟨-, _, _, _, _, _, -, hok, -⟩
    rw [hfails] at hok
    cases hok
  · have hunwritable : i.PopUnwritable cpu :=
      ⟨hpop, target, value, cpu', e, cpu', hoperands, hok, hwrite⟩
    obtain ⟨sp, hsp, rfl⟩ := Cpu.pop_eq_ok hsize hok
    exact .popped hunwritable hsp

/-- What an effect leaves of the processor when it fails. -/
theorem failsOn_of_perform {cpu cpu' : Cpu} (hsize : cpu.layout.size ≤ 65535)
    (h : Cpu.perform i.opcode.effect i.operands cpu = .error e cpu') : i.FailsOn cpu cpu' := by
  by_cases hpop : i.opcode = .pop
  · rw [effect_eq_pop_iff.mpr hpop] at h
    rcases hoperands : i.operands with _ | ⟨target, _ | ⟨second, rest⟩⟩ <;> rw [hoperands] at h
    · cases h
    · exact failsOn_of_popOperand hsize hpop hoperands h
    · cases h
  · have heffect : i.opcode.effect ≠ .pop := fun heffect => hpop (effect_eq_pop_iff.mp heffect)
    exact .of_not_pop hpop ((Cpu.leaves_perform heffect _).error h)

/-- An interrupt that fails has used the console, no matter whether its service failed or the
debugger that it opened. -/
theorem held_of_interrupt_error (hsize : m.cpu.layout.size ≤ 65535)
    (h : interrupt m = .error e m') :
    m'.cpu = m.cpu ∧ m'.bench.storage = m.bench.storage := by
  unfold interrupt at h
  cases hdispatch : Attempt.onPart Machine.bench (fun bench m => { m with bench })
      Service.dispatch m with
  | error e' m₁ =>
    rw [bind_of_error hdispatch] at h
    cases h
    obtain ⟨bench, hfails, rfl⟩ := onPart_eq_error.mp hdispatch
    have hspared := (Service.leaves_dispatch.error hfails).consoleOnly hsize
    exact ⟨hspared.cpu, hspared.storage⟩
  | ok outcome m₁ =>
    rw [bind_of_ok hdispatch] at h
    cases outcome with
    | handled => cases h
    | invalid e' => cases h
    | debug =>
      obtain ⟨bench, hdebug, rfl⟩ := onPart_eq_ok.mp hdispatch
      have hbefore := Service.consoleOnly_of_dispatch_debug hdebug
      have hheld := leaves_openDebugger.error h
      exact ⟨hheld.cpu.trans hbefore.cpu, hheld.storage.trans hbefore.storage⟩

/-- An instruction that fails to take effect leaves the files. -/
theorem failsOn_of_perform_error (hsize : m.cpu.layout.size ≤ 65535)
    (h : perform i m = .error e m') :
    m'.bench.storage = m.bench.storage ∧ i.FailsOn m.cpu m'.cpu := by
  by_cases hint : i.opcode = .int
  · rw [perform_of_int hint] at h
    obtain ⟨hcpu, hstorage⟩ := held_of_interrupt_error hsize h
    have hpop : i.opcode ≠ .pop := by
      rw [hint]
      decide
    exact ⟨hstorage, .of_not_pop hpop (hcpu ▸ .refl _)⟩
  · rcases perform_eq hint with hhalt | hcpu
    · rw [hhalt] at h
      cases h
    · rw [hcpu] at h
      obtain ⟨bench, hbench, rfl⟩ := onPart_eq_error.mp h
      obtain ⟨cpu, hfails, rfl⟩ := onPart_eq_error.mp hbench
      exact ⟨rfl, failsOn_of_perform hsize hfails⟩

/-! ## The whole instruction -/

/-- An instruction fails while it is fetched and decoded, or while it takes effect, unless it has
taken effect and the debugger behind it fails. -/
theorem error_of_executeNext (h : executeNext m = .error e m') :
    fetchNext m = .error e m' ∨
      (∃ i m₁, fetchNext m = .ok i m₁ ∧ perform i m₁ = .error e m') ∨
      ∃ i m₁ m₂, fetchNext m = .ok i m₁ ∧ perform i m₁ = .ok () m₂ := by
  rw [executeNext_eq] at h
  cases hfetch : fetchNext m with
  | error e' m₁ =>
    rw [bind_of_error hfetch] at h
    cases h
    exact .inl rfl
  | ok i m₁ =>
    rw [bind_of_ok hfetch] at h
    cases hperform : perform i m₁ with
    | error e' m₂ =>
      rw [bind_of_error hperform] at h
      cases h
      exact .inr (.inl ⟨i, m₁, rfl, hperform⟩)
    | ok _ m₂ => exact .inr (.inr ⟨i, m₁, m₂, rfl, hperform⟩)

/-- The next instruction is a `pop` whose word comes off the stack but cannot be written. -/
def NextPopUnwritable (m : Machine) : Prop :=
  ∃ i m₁, fetchNext m.starting = .ok i m₁ ∧ i.PopUnwritable m₁.cpu

theorem nextPopUnwritable_iff {m₁ : Machine} (hfetch : fetchNext m.starting = .ok i m₁) :
    m.NextPopUnwritable ↔ i.PopUnwritable m₁.cpu := by
  constructor
  · rintro ⟨i', m₁', hfetch', hunwritable⟩
    rw [hfetch] at hfetch'
    cases hfetch'
    exact hunwritable
  · intro hunwritable
    exact ⟨i, m₁, hfetch, hunwritable⟩

theorem NextPopUnwritable.not_completes (h : m.NextPopUnwritable) (m' : Machine) :
    ¬ m.NextCompletes m' := by
  obtain ⟨i, m₁, hfetch, hpop, target, value, cpu, e, cpu', hoperands, hok, hwrite⟩ := h
  rintro ⟨i', m₁', hfetch', hperform⟩
  rw [hfetch] at hfetch'
  cases hfetch'
  have hfails : Cpu.perform i.opcode.effect i.operands m₁.cpu = .error e cpu' := by
    rw [hpop, hoperands]
    exact (bind_of_ok hok).trans hwrite
  have hcpu : perform i = onCpu (Cpu.perform i.opcode.effect i.operands) := by
    unfold perform
    rw [hpop]
    rfl
  rw [hcpu] at hperform
  obtain ⟨bench, hbench, -⟩ := onPart_eq_ok.mp hperform
  obtain ⟨cpu₁, hcpu₁, -⟩ := onPart_eq_ok.mp hbench
  rw [show m₁.bench.cpu = m₁.cpu from rfl, hfails] at hcpu₁
  cases hcpu₁

/-- Memory, calls and files are untouched, and so are all flags but those of a result. -/
structure Unharmed (m m' : Machine) : Prop where
  memory : m'.cpu.memory = m.cpu.memory
  calls : m'.cpu.calls = m.cpu.calls
  storage : m'.bench.storage = m.bench.storage
  flags : ∀ flag ∉ Cpu.resultFlags, m'.cpu.flags.get flag = m.cpu.flags.get flag

/-- A processor whose `pc` was counted up and on which a result may have set flags. -/
theorem unharmed_of_reflagged {pc : UInt16} (hcpu : (m.cpu.setPc pc).Reflagged m'.cpu)
    (hstorage : m'.bench.storage = m.bench.storage) :
    Unharmed m m' ∧ ∀ r, r ≠ .pc → m'.cpu.reg r = m.cpu.reg r := by
  obtain ⟨flags, hcpu, hflags⟩ := hcpu
  refine ⟨⟨?_, ?_, hstorage, ?_⟩, fun r hr => ?_⟩
  · rw [hcpu]
    rfl
  · rw [hcpu]
    rfl
  · rw [hcpu]
    exact hflags
  · rw [hcpu]
    exact Cpu.reg_setPc_of_ne m.cpu hr pc

/-- A processor whose `pc` was counted up and on which a word was taken off the stack. -/
theorem unharmed_of_popped {pc sp : UInt16} (hcpu : (m.cpu.setPc pc).setSlot .sp sp = m'.cpu)
    (hstorage : m'.bench.storage = m.bench.storage) :
    Unharmed m m' ∧ m'.cpu.reg .sp = sp ∧
      ∀ r, r ≠ .pc → r ≠ .sp → m'.cpu.reg r = m.cpu.reg r := by
  refine ⟨⟨?_, ?_, hstorage, ?_⟩, ?_, fun r hpc hsp => ?_⟩
  · rw [← hcpu]
    rfl
  · rw [← hcpu]
    rfl
  · rw [← hcpu]
    exact fun _ _ => rfl
  · rw [← hcpu]
    exact Registers.get_setSlot_self _ _ _
  · rw [← hcpu]
    exact (Registers.get_setSlot_of_ne _ (Ne.symm hsp) sp).trans (Cpu.reg_setPc_of_ne m.cpu hpc pc)

/-- An instruction that fails while it is fetched, decoded or executed does not corrupt the
machine. The machine has the layout of a reachable one, and any program, memory, registers,
console and files; that the instruction does not complete leaves out the debugger that opens behind
it. -/
theorem unharmed_of_stepInstruction_error {config : Config} {n m m' : Machine} {e : Error}
    (hreachable : Reachable config n) (hlayout : m.cpu.layout = n.cpu.layout)
    (hrunnable : m.status.isRunnable = true) (hstep : stepInstruction m = .error e m')
    (hraised : ∀ m₁, ¬ m.NextCompletes m₁) :
    Unharmed m m' ∧
      (¬ m.NextPopUnwritable → ∀ r, r ≠ .pc → m'.cpu.reg r = m.cpu.reg r) ∧
      (m.NextPopUnwritable → (m'.cpu.reg .sp).toNat = (m.cpu.reg .sp).toNat + 2 ∧
        ∀ r, r ≠ .pc → r ≠ .sp → m'.cpu.reg r = m.cpu.reg r) := by
  have hsize : m.cpu.layout.size ≤ 65535 := hlayout ▸ hreachable.builtFrom.size_le
  obtain ⟨m₂, hexecute, -, rfl⟩ := fault_of_stepInstruction hrunnable hstep
  rcases error_of_executeNext hexecute with hfetch | ⟨i, m₁, hfetch, hperform⟩ | hcompletes
  · obtain ⟨⟨pc, hcpu⟩, hstorage⟩ := leaves_fetchNext.error hfetch
    have hflags : (m.cpu.setPc pc).Reflagged (m₂.fault e).cpu := hcpu ▸ .refl _
    obtain ⟨hunharmed, hregs⟩ := unharmed_of_reflagged hflags hstorage
    refine ⟨hunharmed, fun _ => hregs, ?_⟩
    rintro ⟨i, m₁, hok, -⟩
    rw [hfetch] at hok
    cases hok
  · obtain ⟨⟨pc, hcpu⟩, hfetched⟩ := leaves_fetchNext.ok hfetch
    have hcpu₁ : m₁.cpu = m.cpu.setPc pc := hcpu
    have hsize₁ : m₁.cpu.layout.size ≤ 65535 := hcpu₁ ▸ hsize
    obtain ⟨hperformed, hfails⟩ := failsOn_of_perform_error hsize₁ hperform
    have hstorage : (m₂.fault e).bench.storage = m.bench.storage := hperformed.trans hfetched
    rw [nextPopUnwritable_iff hfetch]
    generalize hleft : m₂.cpu = cpu at hfails
    cases hfails with
    | spared hwritable hflags =>
      have hflags' : (m.cpu.setPc pc).Reflagged (m₂.fault e).cpu := hcpu₁ ▸ hleft ▸ hflags
      obtain ⟨hunharmed, hregs⟩ := unharmed_of_reflagged hflags' hstorage
      exact ⟨hunharmed, fun _ => hregs, fun hunwritable => absurd hunwritable hwritable⟩
    | @popped sp hunwritable hsp =>
      have hpopped : (m.cpu.setPc pc).setSlot .sp sp = (m₂.fault e).cpu := hcpu₁ ▸ hleft.symm
      obtain ⟨hunharmed, hspSame, hregs⟩ := unharmed_of_popped hpopped hstorage
      refine ⟨hunharmed, fun hwritable => absurd hunwritable hwritable, fun _ => ⟨?_, hregs⟩⟩
      rw [hspSame, hsp, hcpu₁, Cpu.reg_setPc_of_ne m.cpu (by decide)]
  · obtain ⟨i, m₁, m₃, hfetch, hperform⟩ := hcompletes
    exact absurd ⟨i, m₁, hfetch, hperform⟩ (hraised m₃)

/-- A program that pops a word into a number: `push %ax`, `pop $5`. -/
def popsIntoNumber : Image where
  rom := [0x1c, 0x01, 0x0c, 0x1d, 0x04, 0x05]
  memory := []
  width := .bits16
  entry := 0

/-- The machine that has pushed the word. -/
def behindPush : Machine := stepInstruction.finalState ((load popsIntoNumber).finalState smallest)

theorem reachable_behindPush : Reachable smallest.config behindPush := by
  have hload : serve smallest (.load popsIntoNumber) =
      some (.ok .done, (load popsIntoNumber).finalState smallest) := rfl
  have hstep : serve ((load popsIntoNumber).finalState smallest) .stepInstruction =
      some (.ok (.status .running), behindPush) := rfl
  exact .serve (.serve reachable_smallest hload) hstep

theorem nextPopUnwritable_behindPush : behindPush.NextPopUnwritable := by
  let fetched := fetchNext.finalState behindPush.starting
  have hfetch : fetchNext behindPush.starting = .ok ⟨.pop, [⟨.immediate, 5⟩]⟩ fetched := rfl
  have hpop : Cpu.pop fetched.cpu = .ok 0 (Cpu.pop.finalState fetched.cpu) := rfl
  exact ⟨_, fetched, hfetch, rfl, _, 0, _, _, _, rfl, hpop, rfl⟩

/-- The `pop` fails, and the word is off the stack. -/
theorem unharmed_behindPush :
    Reachable smallest.config behindPush ∧ behindPush.status.isRunnable = true ∧
      (∀ m, ¬ behindPush.NextCompletes m) ∧ behindPush.NextPopUnwritable ∧
      ∃ e m, stepInstruction behindPush = .error e m ∧ Unharmed behindPush m ∧
        (m.cpu.reg .sp).toNat = (behindPush.cpu.reg .sp).toNat + 2 := by
  have hfails : stepInstruction behindPush = .error (.of (.operandNotWritable ⟨.immediate, 5⟩))
      (stepInstruction.finalState behindPush) := rfl
  have hraised := nextPopUnwritable_behindPush.not_completes
  obtain ⟨hunharmed, -, hpopped⟩ :=
    unharmed_of_stepInstruction_error reachable_behindPush rfl rfl hfails hraised
  exact ⟨reachable_behindPush, rfl, hraised, nextPopUnwritable_behindPush, _, _, hfails, hunharmed,
    (hpopped nextPopUnwritable_behindPush).1⟩

end Machine

end TeachingCpu
