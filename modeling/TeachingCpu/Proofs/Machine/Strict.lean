import TeachingCpu.Proofs.Machine.Pairs
import TeachingCpu.Proofs.Machine.Steps
import TeachingCpu.Proofs.Service.Strict

/-!
# Strict machines

A strict machine runs programs on the strict processor. It does what the machine does, whatever
call it serves: what a call changes keeps the processor fit, so in no state that calls lead to does
a program make it break off, whatever its code, memory and entry are (`strict_serve`).
-/

namespace TeachingCpu

open Attempt StrictAttempt

namespace Machine

/-! ## Strict machines -/

namespace Strict

/-- The memory layout of the configured machine. -/
def layout (config : Config) : Strict Layout := do
  let machine ← config.architecture
  Layout.Strict.ofShares config.memorySize config.stackPercent config.dataPercent
    machine.maxMemory

/-- A machine without a program. -/
def build (config : Config) (console : Console) (storage : Storage) : Strict Machine := do
  let layout ← layout config
  return fresh config layout console storage

/-- Runs a strict action on processor, console and files. -/
def onBench {α : Type} (x : StrictAttempt Bench α) : StrictAttempt Machine α :=
  StrictAttempt.onPart Machine.bench (fun bench m => { m with bench }) x

/-- Runs a strict action on the processor. -/
def onCpu {α : Type} (x : StrictAttempt Cpu α) : StrictAttempt Machine α :=
  onBench (Bench.Strict.onCpu x)

/-- Copies a program into code memory and memory, and points `pc` at its entry. -/
def load (image : Image) : StrictAttempt Machine Unit := do
  let m ← get
  if let some cause := m.refusal? image then StrictAttempt.fail cause
  modify reset
  onCpu (Cpu.Strict.writeMemory (Memory.Strict.load · 0 image.memory))
  onCpu do
    Cpu.Strict.initStack
    modify (·.setPc image.entry)
  modify fun m =>
    { m with rom := image.rom.toArray, status := .loaded }.log .debug fun _ =>
      "loaded " ++ toString image.rom.length ++ " ROM bytes and " ++
        toString image.memory.length ++ " memory bytes, entry 0x" ++
        Text.hex 4 image.entry.toNat

/-- Opens the debugger. -/
def openDebugger : StrictAttempt Machine Unit := do
  modify fun m => { m with debugged := true }
  let m ← get
  let resume ← onBench (StrictAttempt.onPart Bench.console (fun console b => { b with console })
    (Debugger.Strict.session m.cpu))
  match resume with
  | .step => modify fun m => { m with breakPending := true }
  | .go => pure ()
  | .quit =>
    modify fun m => { m with status := .halted }.log .info fun _ =>
      "stopped from the debugger at 0x" ++ Text.hex 4 m.cpu.pc.toNat

/-- Serves an interrupt. -/
def interrupt : StrictAttempt Machine Unit := do
  match ← onBench Service.Strict.dispatch with
  | .handled | .invalid _ => pure ()
  | .debug => openDebugger

/-- Lets an instruction take effect. -/
def perform (i : Instruction) : StrictAttempt Machine Unit :=
  match i.opcode.effect with
  | .halt => halt
  | .interrupt => interrupt
  | effect => onCpu (Cpu.Strict.perform effect i.operands)

/-- Opens the debugger behind an instruction. -/
def breakIfWanted : StrictAttempt Machine Unit := do
  let m ← get
  if m.status = .running ∧ (m.breakPending ∨ m.cpu.flags.trap) ∧ m.debugged = false then
    modify fun m => { m with breakPending := false }
    openDebugger

/-- Fetches the instruction at `pc`, counts it and lets it take effect. -/
def executeNext : StrictAttempt Machine Unit := do
  modify fun m => { m with current := m.cpu.pc, debugged := false }
  let i ← fetchInstruction
  modify fun m =>
    { m with
      cycles := m.cycles + i.opcode.cycles
      instructions := m.instructions + 1 }.log .trace fun _ => i.text m.current
  perform i
  breakIfWanted

/-- Runs an action whose failure stops the program. -/
def orFault {α : Type} (x : StrictAttempt Machine α) : StrictAttempt Machine α := fun m =>
  match x m with
  | some (.ok a m) => some (.ok a m)
  | some (.error e m) => some (.error e (m.fault e))
  | none => none

/-- Executes one instruction. -/
def stepInstruction : StrictAttempt Machine Status := do
  ensureRunnable
  modify fun m => { m with status := .running }
  orFault executeNext
  let m ← get
  return m.status

/-- Executes up to `n` instructions, as long as the program runs. -/
def continueFor : Nat → StrictAttempt Machine Status
  | 0 => do
    let m ← get
    return m.status
  | n + 1 => do
    let status ← stepInstruction
    if status = .running then continueFor n else return status

/-- Executes up to `n` instructions, for a machine that can execute. -/
def runFor (n : Nat) : StrictAttempt Machine Status := do
  ensureRunnable
  continueFor n

end Strict

/-- Executes instructions on a strict machine until the program stops or it breaks off. -/
def strictRun (m : Machine) : Option (Option Ending) :=
  match Strict.stepInstruction m with
  | some (.ok .running m) => m |>.strictRun
  | ending? => some ending?
partial_fixpoint

namespace Strict

/-- Serves a call. There is nothing for a run that does not end, and a reply or nothing for every
other call. -/
def serve (m : Machine) : Call → Option (Option (Reply × Machine))
  | .load image => some ((load image m).map (reply fun _ => .done))
  | .step => some (some (reply .pc (step m)))
  | .nextOperand => some (some (reply .operand (nextOperand m)))
  | .stepInstruction => some ((stepInstruction m).map (reply .status))
  | .run => (strictRun m).map (Option.map (reply .status))
  | .runFor budget => some ((runFor budget m).map (reply .status))
  | .reset => some (some (.ok .done, m.reset))

end Strict

/-! ## Why they do not break off -/

variable {m m' : Machine} {α : Type}

theorem strict_layout (config : Config) : Strict.layout config = some config.layout := by
  refine TeachingCpu.Strict.bind_of rfl fun machine hmachine => ?_
  refine Layout.Strict.ofShares_eq ?_ _ _ _
  unfold Config.architecture at hmachine
  cases hwidth : Architecture.ofWidth? config.width with
  | none =>
    rw [hwidth] at hmachine
    cases hmachine
  | some machine' =>
    rw [hwidth] at hmachine
    cases hmachine
    exact Architecture.maxMemory_le hwidth

theorem strict_build (config : Config) (console : Console) (storage : Storage) :
    Strict.build config console storage = some (build config console storage) := by
  unfold Strict.build build
  rw [strict_layout]
  cases config.layout <;> rfl

theorem follows_onBench {x : StrictAttempt Bench α} {act : Attempt Bench α}
    (h : Follows x act m.bench) :
    Follows (Strict.onBench x)
      (Attempt.onPart Machine.bench (fun bench m => { m with bench }) act) m :=
  follows_onPart h

theorem follows_onCpu {x : StrictAttempt Cpu α} {act : Attempt Cpu α} (h : Follows x act m.cpu) :
    Follows (Strict.onCpu x) (onCpu act) m :=
  follows_onBench (Bench.follows_onCpu h)

/-- A program is loaded into a memory that was cleared. -/
theorem follows_load (h : m.cpu.Fit) (image : Image) :
    Follows (Strict.load image) (load image) m := by
  refine follows_get_bind ?_
  cases m.refusal? image with
  | some cause => rfl
  | none =>
    refine follows_modify_bind ?_
    have hreset : m.reset.cpu.Fit := h.of_evolves Cpu.Move.reset.evolves
    have hfill : Follows
        (Strict.onCpu (Cpu.Strict.writeMemory (Memory.Strict.load · 0 image.memory)))
        (onCpu (Cpu.writeMemory (·.load 0 image.memory))) m.reset :=
      follows_onCpu (Cpu.follows_writeMemory
        (Memory.Strict.load_eq hreset.size_pos hreset.size_le 0 image.memory))
    refine hfill.bind fun _ m₁ hm₁ => ?_
    obtain ⟨bench, hbench, rfl⟩ := onPart_eq_ok.mp hm₁
    obtain ⟨cpu, hcpu, rfl⟩ := onPart_eq_ok.mp hbench
    have hfit : cpu.Fit :=
      hreset.of_evolves ((Cpu.leaves_writeMemory Memory.layout_of_load).ok hcpu)
    have hstack : Follows (do Cpu.Strict.initStack; modify (·.setPc image.entry))
        (modify fun cpu => cpu.initStack.setPc image.entry) cpu :=
      (Cpu.follows_initStack hfit).bind fun _ _ _ => rfl
    exact (follows_onCpu hstack).bind fun _ _ _ => rfl

theorem follows_openDebugger (h : m.cpu.Fit) :
    Follows Strict.openDebugger openDebugger m := by
  refine follows_modify_bind (follows_get_bind ?_)
  have hsession : Follows (Strict.onBench (StrictAttempt.onPart Bench.console
        (fun console b => { b with console }) (Debugger.Strict.session m.cpu)))
      (Attempt.onPart Machine.bench (fun bench m => { m with bench })
        (Bench.onConsole (Debugger.session m.cpu))) { m with debugged := true } :=
    follows_onBench (follows_onPart (Debugger.follows_session h))
  refine hsession.bind fun resume m₁ _ => ?_
  cases resume <;> rfl

theorem follows_interrupt (h : m.cpu.Fit) : Follows Strict.interrupt interrupt m := by
  refine (follows_onBench (Service.follows_dispatch h)).bind fun outcome m₁ hm₁ => ?_
  cases outcome with
  | debug => exact follows_openDebugger (h.of_evolves (leaves_dispatch.ok hm₁).cpu)
  | _ => rfl

theorem follows_perform (h : m.cpu.Fit) {i : Instruction} (hcomplete : i.Complete) :
    Follows (Strict.perform i) (perform i) m := by
  unfold Strict.perform perform
  have hcpu := follows_onCpu (Cpu.follows_perform h hcomplete)
  cases heffect : i.opcode.effect with
  | halt => rfl
  | interrupt => exact follows_interrupt h
  | _ =>
    rw [heffect] at hcpu
    exact hcpu

theorem follows_breakIfWanted (h : m.cpu.Fit) : Follows Strict.breakIfWanted breakIfWanted m := by
  refine follows_get_bind (follows_ite (fun _ => ?_) fun _ => rfl)
  refine follows_modify_bind (follows_openDebugger ?_)
  exact h

/-- What is fetched has the operands that its opcode declares. -/
theorem complete_of_fetchInstruction {i : Instruction} (h : fetchInstruction m = .ok i m') :
    i.Complete := by
  obtain ⟨-, m₁, hoperands, -⟩ := fetchInstruction_eq_ok.mp h
  exact length_of_fetchOperands hoperands

/-- What an instruction does once it is counted. -/
theorem follows_performed (h : m.cpu.Fit) {i : Instruction} (hcomplete : i.Complete) :
    Follows (do Strict.perform i; Strict.breakIfWanted) (do perform i; breakIfWanted) m :=
  (follows_perform h hcomplete).bind fun _ _ hperform =>
    follows_breakIfWanted (h.of_evolves ((leaves_perform i).ok hperform).cpu)

theorem follows_executeNext (h : m.cpu.Fit) : Follows Strict.executeNext executeNext m := by
  refine follows_modify_bind ((follows_lift _).bind fun i m₁ hfetch => follows_modify_bind ?_)
  have hfetched : m₁.cpu.Fit := h.of_evolves (leaves_fetchInstruction.ok hfetch).proceeds.cpu
  refine follows_performed ?_ (complete_of_fetchInstruction hfetch)
  exact hfetched

theorem follows_orFault {x : StrictAttempt Machine α} {act : Attempt Machine α}
    (h : Follows x act m) : Follows (Strict.orFault x) (orFault act) m := by
  unfold Follows Strict.orFault orFault
  rw [show x m = some (act m) from h]
  cases act m <;> rfl

theorem reads_ensureRunnable : Reads ensureRunnable := by
  refine reads_get.bind fun m => ?_
  split
  · exact leaves_fail _
  · exact leaves_pure _

/-- One instruction. -/
theorem follows_stepInstruction (h : m.cpu.Fit) :
    Follows Strict.stepInstruction stepInstruction m := by
  refine (follows_lift _).bind_reads reads_ensureRunnable fun _ _ => follows_modify_bind ?_
  refine (follows_orFault (follows_executeNext ?_)).bind fun _ _ _ => rfl
  exact h

/-- An instruction keeps the processor fit. -/
theorem fit_of_stepInstruction (h : m.cpu.Fit) {status : Status}
    (hstep : stepInstruction m = .ok status m') : m'.cpu.Fit :=
  h.of_evolves (kept_stepInstruction.ok hstep).cpu

/-- Instructions, one behind the other. -/
theorem follows_continueFor (h : m.cpu.Fit) (n : Nat) :
    Follows (Strict.continueFor n) (continueFor n) m := by
  induction n generalizing m with
  | zero => rfl
  | succ n ih =>
    refine (follows_stepInstruction h).bind fun status m₁ hstep => ?_
    exact follows_ite (fun _ => ih (fit_of_stepInstruction h hstep)) fun _ => rfl

theorem follows_runFor (h : m.cpu.Fit) (n : Nat) : Follows (Strict.runFor n) (runFor n) m :=
  (follows_lift _).bind_reads reads_ensureRunnable fun _ _ => follows_continueFor h n

/-- A run that ends is one that a strict machine ends in the same way. -/
theorem strictRun_of_run (h : m.cpu.Fit) {ending : Ending} (hrun : run m = some ending) :
    strictRun m = some (some ending) := by
  revert h
  refine run.partial_correctness
    (fun m ending => m.cpu.Fit → strictRun m = some (some ending)) ?_ m ending hrun
  intro run ih m ending hending h
  have hstep : Strict.stepInstruction m = some (stepInstruction m) := follows_stepInstruction h
  rw [strictRun, hstep]
  rcases stepInstruction_cases m with ⟨m₁, hm₁⟩ | ⟨m₁, hm₁⟩ | ⟨e, m₁, hm₁⟩
  · rw [show stepInstruction m = .ok .running m₁ from hm₁] at hending ⊢
    exact ih m₁ ending hending (fit_of_stepInstruction h hm₁)
  · rw [hm₁] at hending ⊢
    cases hending
    rfl
  · rw [hm₁] at hending ⊢
    cases hending
    rfl

/-- A run that a strict machine ends does not break off, and the machine ends it in the same way. -/
theorem run_of_strictRun (h : m.cpu.Fit) {ending? : Option Ending}
    (hrun : strictRun m = some ending?) : (run m).map some = some ending? := by
  revert h
  refine strictRun.partial_correctness
    (fun m ending? => m.cpu.Fit → (run m).map some = some ending?) ?_ m ending? hrun
  intro run' ih m ending? hending h
  have hstep : Strict.stepInstruction m = some (stepInstruction m) := follows_stepInstruction h
  rw [hstep] at hending
  rcases stepInstruction_cases m with ⟨m₁, hm₁⟩ | ⟨m₁, hm₁⟩ | ⟨e, m₁, hm₁⟩
  · rw [show stepInstruction m = .ok .running m₁ from hm₁] at hending
    rw [run_of_running hm₁]
    exact ih m₁ ending? hending (fit_of_stepInstruction h hm₁)
  · rw [hm₁] at hending
    cases hending
    rw [run_of_halted hm₁]
    rfl
  · rw [hm₁] at hending
    cases hending
    rw [run_of_error hm₁]
    rfl

/-- Runs to the end, also those that do not end. -/
theorem strictRun_eq (h : m.cpu.Fit) : strictRun m = (run m).map some := by
  cases hrun : run m with
  | some ending => exact strictRun_of_run h hrun
  | none =>
    cases hstrict : strictRun m with
    | none => rfl
    | some ending? =>
      have hsome := run_of_strictRun h hstrict
      rw [hrun] at hsome
      cases hsome

theorem strict_reply {x : StrictAttempt Machine α} {act : Attempt Machine α} (h : Follows x act m)
    (answer : α → Answer) :
    some ((x m).map (reply answer)) = (some (reply answer (act m))).map some := by
  rw [show x m = some (act m) from h]
  rfl

/-- A call on a machine whose processor is fit. -/
theorem strict_serve (h : m.cpu.Fit) (call : Call) :
    Strict.serve m call = (m.serve call).map some := by
  cases call with
  | load image => exact strict_reply (follows_load h image) fun _ => .done
  | stepInstruction => exact strict_reply (follows_stepInstruction h) .status
  | runFor budget => exact strict_reply (follows_runFor h budget) .status
  | run =>
    unfold Strict.serve serve
    rw [strictRun_eq h]
    cases run m <;> rfl
  | _ => rfl

theorem Reachable.fit {config : Config} (h : Reachable config m) : m.cpu.Fit := by
  obtain ⟨-, hmin, hmax⟩ := Config.size_of_layout h.builtFrom.layout
  exact ⟨h.paired, Nat.lt_of_lt_of_le (by decide) hmin, hmax⟩

/-- Nothing that the machine takes for granted fails. A strict machine breaks off where a word that
is no byte is stored as one, where a register is set to a value that it cannot hold, where an
instruction has no operand at a place, and where a number does not fit into a word. It is built as
the machine is, and on every machine that calls can lead to it serves every call as the machine
does: it loads every program that is accepted, and executes it for an instruction, for some, or to
the end. -/
theorem nothing_breaksOff :
    ((∀ cpu address (value : UInt16), 255 < value.toNat →
        Cpu.Strict.store address value .byte cpu = none) ∧
      (∀ cpu r (value : UInt16), r.width.max < value.toNat →
        Cpu.Strict.setRegister r value cpu = none) ∧
      (∀ (operands : List Operand) k, operands.length ≤ k → Strict.index operands[k]? = none) ∧
      ∀ n, 65535 < n → Strict.narrow n = none) ∧
    (∀ config console storage,
      Strict.build config console storage = some (build config console storage)) ∧
    ∀ config m call, Reachable config m → Strict.serve m call = (m.serve call).map some := by
  refine ⟨⟨?_, ?_, ?_, ?_⟩, strict_build, fun config m call h => strict_serve h.fit call⟩
  · exact fun cpu address value h => Cpu.store_byte_of_gt h address
  · exact fun cpu r value h => Cpu.setRegister_of_gt h
  · intro operands k h
    rw [List.getElem?_eq_none h]
    rfl
  · exact fun n h => TeachingCpu.Strict.narrow_of_gt h

/-- A program that stores a half as a byte, moves the end of the stack and the stack pointer to the
last addresses that there are, and takes a word off the stack: `mov &8 %al`, `mov %se $0`,
`not %se`, `mov %sp $1`, `not %sp`, `pop %ax`. -/
def popsAtTheEnd : Image where
  rom := [0x02, 0x02, 0x08, 0x01, 0x00, 0x02, 0x01, 0x15, 0x04, 0x00, 0x0b, 0x01, 0x15,
    0x02, 0x01, 0x13, 0x04, 0x01, 0x0b, 0x01, 0x13, 0x1d, 0x01, 0x0c]
  memory := []
  width := .bits16
  entry := 0

/-- The stack pointer would leave sixteen bits, but the word that is taken off is not in memory. -/
theorem nothing_breaksOff_popsAtTheEnd :
    Cpu.Strict.store 0 256 .byte smallest.cpu = none ∧
    Cpu.Strict.setRegister .al 256 smallest.cpu = none ∧
    Strict.index ([] : List Operand)[0]? = none ∧ Strict.narrow 65536 = none ∧
    ∃ m m', load popsAtTheEnd smallest = .ok () m ∧ Reachable smallest.config m ∧
      Strict.serve m (.runFor 6) = some (some (.error (.of (.addressOutside 65535 15)), m')) ∧
      (m'.cpu.reg .sp).toNat = 65534 ∧ (m'.cpu.reg .se).toNat = 65535 := by
  obtain ⟨⟨hstore, hset, hindex, hnarrow⟩, -, hserve⟩ := nothing_breaksOff
  refine ⟨hstore _ 0 256 (by decide), hset _ .al 256 (by decide), hindex [] 0 le_rfl,
    hnarrow 65536 (by decide), ?_⟩
  have hload : load popsAtTheEnd smallest = .ok () ((load popsAtTheEnd).finalState smallest) :=
    eq_ok_of_outcome (by decide +kernel)
  have hrun : (runFor 6).outcome ((load popsAtTheEnd).finalState smallest) =
      .error (.of (.addressOutside 65535 15)) := by decide +kernel
  have hregs : ∀ r ∈ [(Register.sp, 65534), (.se, 65535)],
      (((runFor 6).finalState ((load popsAtTheEnd).finalState smallest)).cpu.reg r.1).toNat =
        r.2 := by decide +kernel
  generalize (load popsAtTheEnd).finalState smallest = m at *
  have hserved : smallest.serve (.load popsAtTheEnd) = some (.ok .done, m) :=
    congrArg (fun ending => some (reply (fun _ => .done) ending)) hload
  have hreachable : Reachable smallest.config m := .serve reachable_smallest hserved
  have hstrict := hserve smallest.config m (.runFor 6) hreachable
  have hreply : m.serve (.runFor 6) =
      some (.error (.of (.addressOutside 65535 15)), (runFor 6).finalState m) :=
    congrArg (fun ending => some (reply .status ending)) (eq_error_of_outcome hrun)
  rw [hreply] at hstrict
  exact ⟨m, _, hload, hreachable, hstrict, hregs _ List.mem_cons_self,
    hregs _ (List.mem_cons_of_mem _ List.mem_cons_self)⟩

end Machine

end TeachingCpu
