import TeachingCpu.Proofs.Debugger.Bookkeeping
import TeachingCpu.Proofs.Service.Dispatch

/-!
# What an instruction does to a machine

Fetching moves `pc` and shows it to the observer (`Advances`). The rest of an instruction works on
the processor, the console and the files, and at most stops the program (`Proceeds`): program,
configuration and the record of a failure stay as they are until the instruction is over.
-/

namespace TeachingCpu

open Attempt

theorem Registers.setSlot_get (rs : Registers) (r : Register) : rs.setSlot r (rs.get r) = rs := by
  unfold setSlot get
  exact congrArg mk (Vector.set_getElem_self _)

theorem Registers.setSlot_setSlot (rs : Registers) (r : Register) (a b : UInt16) :
    (rs.setSlot r a).setSlot r b = rs.setSlot r b := by
  unfold setSlot
  exact congrArg mk (Vector.set_set _ _)

namespace Cpu

theorem setPc_pc (cpu : Cpu) : cpu.setPc cpu.pc = cpu := by
  unfold setPc setSlot pc reg
  rw [Registers.setSlot_get]

theorem setPc_setPc (cpu : Cpu) (a b : UInt16) : (cpu.setPc a).setPc b = cpu.setPc b := by
  unfold setPc setSlot
  rw [Registers.setSlot_setSlot]

end Cpu

namespace Machine

/-! ## Fetching -/

/-- A machine with `pc` moved, and what its observer saw. -/
def atPc (m : Machine) (pc : UInt16) (observed : Option (List UInt16)) : Machine :=
  { m with bench := { m.bench with cpu := m.cpu.setPc pc }, observed }

/-- At most `pc` moved, before the eyes of the observer if there is one. -/
def Advances (m m' : Machine) : Prop :=
  ∃ pc observed, observed.isSome = m.observed.isSome ∧ m' = m.atPc pc observed

instance : IsPreorder Machine Advances where
  refl m := by
    refine ⟨m.cpu.pc, m.observed, rfl, ?_⟩
    unfold atPc
    rw [Cpu.setPc_pc]
    rfl
  trans := by
    rintro m _ _ ⟨pc, observed, hsome, rfl⟩ ⟨pc', observed', hsome', rfl⟩
    refine ⟨pc', observed', hsome'.trans hsome, ?_⟩
    unfold atPc
    rw [← Cpu.setPc_setPc m.cpu pc pc']
    rfl

theorem reads_fetchByte (address : UInt16) : Reads (fetchByte address) := by
  refine reads_get.bind fun m => ?_
  split
  · exact leaves_pure _
  · exact leaves_fail _

theorem advance_eq (m : Machine) :
    advance m = if m.cpu.pc = 0xffff then .error (.of .programCounterOverrun) m
      else .ok (m.cpu.pc + 1) (m.atPc (m.cpu.pc + 1) (m.observed.map ((m.cpu.pc + 1) :: ·))) := by
  unfold advance
  rw [get_bind_apply]
  split <;> rfl

theorem leaves_advance : Leaves Advances Advances advance := by
  constructor
  · intro m m' pc h
    rw [advance_eq] at h
    split at h
    · cases h
    · cases h
      exact ⟨_, _, Option.isSome_map, rfl⟩
  · intro m m' e h
    rw [advance_eq] at h
    split at h
    · cases h
      exact refl_of Advances m
    · cases h

theorem leaves_fetchOperand : Leaves Advances Advances fetchOperand := by
  refine leaves_seq leaves_advance fun pc => ?_
  refine (reads_fetchByte pc).bind fun tag => ?_
  refine leaves_seq leaves_advance fun pc' => ?_
  refine (reads_fetchByte pc').bind fun value => ?_
  split
  · exact leaves_pure _
  · exact leaves_fail _

theorem leaves_fetchOperands (n : Nat) : Leaves Advances Advances (fetchOperands n) := by
  induction n with
  | zero => exact leaves_pure _
  | succ n ih =>
    refine leaves_seq leaves_fetchOperand fun operand => ?_
    exact leaves_seq ih fun rest => leaves_pure _

theorem leaves_fetchInstruction : Leaves Advances Advances fetchInstruction := by
  refine reads_get.bind fun m => ?_
  refine (reads_fetchByte m.cpu.pc).bind fun code => ?_
  split
  · exact leaves_fail _
  · refine leaves_seq (leaves_fetchOperands _) fun operands => ?_
    exact leaves_seq leaves_advance fun _ => leaves_pure _

/-! ## Executing -/

/-- What stays as it is while an instruction is executed. -/
structure Frame where
  config : Config
  rom : Array UInt8
  output : List String
  statusCode : Nat
  current : UInt16
  isObserved : Bool

/-- What an instruction leaves alone on a machine. -/
def frame (m : Machine) : Frame :=
  ⟨m.config, m.rom, m.output, m.statusCode, m.current, m.observed.isSome⟩

/-- What an instruction may do once it has begun: the processor goes through some moves, and the
program may stop. -/
structure Proceeds (m m' : Machine) : Prop where
  frame : m'.frame = m.frame
  status : m'.status = m.status ∨ m'.status = .halted
  cpu : m.cpu.Evolves m'.cpu

instance : IsPreorder Machine Proceeds where
  refl m := ⟨rfl, .inl rfl, .refl⟩
  trans := by
    intro m₁ m₂ m₃ h h'
    refine ⟨h'.frame.trans h.frame, ?_, h.cpu.trans h'.cpu⟩
    rcases h'.status with hsame | hhalted
    · rw [hsame]
      exact h.status
    · exact .inr hhalted

namespace Proceeds

variable {m m' : Machine}

theorem config (h : Proceeds m m') : m'.config = m.config := congrArg Frame.config h.frame

theorem output (h : Proceeds m m') : m'.output = m.output := congrArg Frame.output h.frame

theorem statusCode (h : Proceeds m m') : m'.statusCode = m.statusCode :=
  congrArg Frame.statusCode h.frame

theorem current (h : Proceeds m m') : m'.current = m.current := congrArg Frame.current h.frame

theorem isObserved (h : Proceeds m m') : m'.observed.isSome = m.observed.isSome :=
  congrArg Frame.isObserved h.frame

end Proceeds

theorem Advances.proceeds {m m' : Machine} (h : Advances m m') : Proceeds m m' := by
  obtain ⟨pc, observed, hsome, rfl⟩ := h
  refine ⟨?_, .inl rfl, Cpu.evolves_setSlot m.cpu (by decide) pc⟩
  exact congrArg (fun isObserved => { m.frame with isObserved }) hsome

theorem leaves_onCpu {α : Type} {act : Attempt Cpu α} (h : Leaves Cpu.Evolves Cpu.Evolves act) :
    Leaves Proceeds Proceeds (onCpu act) := by
  have hbench : Leaves Bench.Evolves Bench.Evolves (Bench.onCpu act) :=
    leaves_onPart h (fun _ _ h => h) fun _ _ h => h
  exact leaves_onPart hbench (fun _ _ h => ⟨rfl, .inl rfl, h⟩) fun _ _ h => ⟨rfl, .inl rfl, h⟩

/-- All that a debugger session does: it uses the console and decides how to go on. -/
structure Held (m m' : Machine) : Prop where
  proceeds : Proceeds m m'
  cpu : m'.cpu = m.cpu
  storage : m'.bench.storage = m.bench.storage

instance : IsPreorder Machine Held where
  refl m := ⟨refl_of Proceeds m, rfl, rfl⟩
  trans _ _ _ h h' := ⟨trans_of Proceeds h.proceeds h'.proceeds, h'.cpu.trans h.cpu,
    h'.storage.trans h.storage⟩

theorem held_of_console {m m' : Machine} {bench : Bench} (h : Bench.ConsoleOnly m.bench bench)
    (hm' : m' = { m with bench }) : Held m m' := by
  subst hm'
  exact ⟨⟨rfl, .inl rfl, h.evolves⟩, h.cpu, h.storage⟩

theorem leaves_openDebugger : Leaves Held Held openDebugger := by
  refine leaves_seq (leaves_modify fun m => ?_) fun _ => ?_
  · exact ⟨⟨rfl, .inl rfl, .refl⟩, rfl, rfl⟩
  refine reads_get.bind fun m => ?_
  refine leaves_seq ?_ fun resume => ?_
  · exact leaves_onPart (Bench.leaves_onConsole _) (fun m bench h => held_of_console h rfl)
      fun m bench h => held_of_console h rfl
  · cases resume with
    | step => exact leaves_modify fun m => ⟨⟨rfl, .inl rfl, .refl⟩, rfl, rfl⟩
    | go => exact leaves_pure _
    | quit => exact leaves_modify fun m => ⟨⟨rfl, .inr rfl, .refl⟩, rfl, rfl⟩

theorem leaves_openDebugger_proceeds : Leaves Proceeds Proceeds openDebugger :=
  leaves_openDebugger.imp (fun _ _ h => h.proceeds) fun _ _ h => h.proceeds

theorem leaves_dispatch : Leaves Proceeds Proceeds
    (Attempt.onPart Machine.bench (fun bench m => { m with bench }) Service.dispatch) := by
  exact leaves_onPart Service.leaves_dispatch (fun _ _ h => ⟨rfl, .inl rfl, h⟩)
    fun _ _ h => ⟨rfl, .inl rfl, h.evolves⟩

theorem leaves_interrupt : Leaves Proceeds Proceeds interrupt := by
  refine leaves_seq leaves_dispatch fun outcome => ?_
  cases outcome with
  | handled => exact leaves_pure _
  | debug => exact leaves_openDebugger_proceeds
  | invalid e => exact leaves_pure _

theorem leaves_perform (i : Instruction) : Leaves Proceeds Proceeds (perform i) := by
  unfold perform
  split
  · exact leaves_modify fun m => ⟨rfl, .inr rfl, .refl⟩
  · exact leaves_interrupt
  · exact leaves_onCpu (Cpu.evolves_perform _ _)

theorem leaves_breakIfWanted : Leaves Proceeds Proceeds breakIfWanted := by
  refine reads_get.bind fun m => ?_
  split
  · refine leaves_seq (leaves_modify fun m => ?_) fun _ => leaves_openDebugger_proceeds
    exact ⟨rfl, .inl rfl, .refl⟩
  · exact leaves_pure _

/-- A machine that begins its next instruction. -/
def begun (m : Machine) : Machine := { m with current := m.cpu.pc, debugged := false }

/-- From its beginning on, an instruction proceeds. -/
theorem leaves_executeNext :
    Leaves (fun m m' => Proceeds m.begun m') (fun m m' => Proceeds m.begun m') executeNext := by
  have hrest : Leaves Proceeds Proceeds (do
      let i ← fetchInstruction
      modify fun m =>
        { m with
          cycles := m.cycles + i.opcode.cycles
          instructions := m.instructions + 1 }.log .trace fun _ => i.text m.current
      perform i
      breakIfWanted) := by
    have hfetch : Leaves Proceeds Proceeds fetchInstruction :=
      leaves_fetchInstruction.imp (fun _ _ h => h.proceeds) fun _ _ h => h.proceeds
    refine leaves_seq hfetch fun i => ?_
    refine leaves_seq (leaves_modify fun m => ?_) fun _ => ?_
    · exact ⟨rfl, .inl rfl, .refl⟩
    · exact leaves_seq (leaves_perform i) fun _ => leaves_breakIfWanted
  exact ⟨fun {m m' a} h => hrest.ok (s := m.begun) h,
    fun {m m' e} h => hrest.error (s := m.begun) h⟩

/-! ## Whole instructions -/

theorem ensureRunnable_eq (m : Machine) :
    ensureRunnable m =
      if m.status.isRunnable then .ok () m else .error (.of (.notRunnable m.status)) m := by
  unfold ensureRunnable
  rw [get_bind_apply]
  cases m.status.isRunnable <;> rfl

/-- Actions behind the guard. -/
theorem ensureRunnable_bind {α : Type} (act : Attempt Machine α) (m : Machine) :
    (ensureRunnable >>= fun _ => act) m =
      if m.status.isRunnable then act m else .error (.of (.notRunnable m.status)) m := by
  have hguard := ensureRunnable_eq m
  split
  · next h =>
    rw [if_pos h] at hguard
    exact bind_of_ok hguard
  · next h =>
    rw [if_neg h] at hguard
    exact bind_of_error hguard

theorem stepInstruction_of_not_runnable {m : Machine} (h : m.status.isRunnable = false) :
    stepInstruction m = .error (.of (.notRunnable m.status)) m := by
  unfold stepInstruction
  rw [ensureRunnable_bind, h]
  rfl

theorem stepInstruction_of_runnable {m : Machine} (h : m.status.isRunnable = true) :
    stepInstruction m =
      match executeNext m.starting with
      | .ok _ m' => .ok m'.status m'
      | .error e m' => .error e (m'.fault e) := by
  unfold stepInstruction
  rw [ensureRunnable_bind, if_pos h, modify_bind_apply]
  change (orFault executeNext >>= _) m.starting = _
  cases hexecute : executeNext m.starting with
  | ok _ m' =>
    have hor : orFault executeNext m.starting = .ok () m' := by
      unfold orFault
      rw [hexecute]
    rw [bind_of_ok hor]
    rfl
  | error e m' =>
    have hor : orFault executeNext m.starting = .error e (m'.fault e) := by
      unfold orFault
      rw [hexecute]
    rw [bind_of_error hor]

/-- An instruction that is executed leaves the machine running or halted. -/
theorem proceeds_of_stepInstruction {m m' : Machine} {status : Status}
    (h : stepInstruction m = .ok status m') :
    m.status.isRunnable = true ∧ Proceeds m.starting.begun m' ∧ status = m'.status := by
  cases hrunnable : m.status.isRunnable with
  | false =>
    rw [stepInstruction_of_not_runnable hrunnable] at h
    cases h
  | true =>
    rw [stepInstruction_of_runnable hrunnable] at h
    cases hexecute : executeNext m.starting with
    | ok _ m₁ =>
      rw [hexecute] at h
      cases h
      exact ⟨rfl, leaves_executeNext.ok hexecute, rfl⟩
    | error e m₁ =>
      rw [hexecute] at h
      cases h

/-- An instruction that fails leaves its failure on the machine. -/
theorem fault_of_stepInstruction {m m' : Machine} {e : Error}
    (hrunnable : m.status.isRunnable = true) (h : stepInstruction m = .error e m') :
    ∃ m₁, executeNext m.starting = .error e m₁ ∧ Proceeds m.starting.begun m₁ ∧
      m' = m₁.fault e := by
  rw [stepInstruction_of_runnable hrunnable] at h
  cases hexecute : executeNext m.starting with
  | ok _ m₁ =>
    rw [hexecute] at h
    cases h
  | error e' m₁ =>
    rw [hexecute] at h
    cases h
    exact ⟨m₁, rfl, leaves_executeNext.error hexecute, rfl⟩

end Machine

end TeachingCpu
