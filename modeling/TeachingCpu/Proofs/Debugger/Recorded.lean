import TeachingCpu.Machine.Run
import TeachingCpu.Proofs.Attempt

/-!
# Machines with a record of their debugger sessions

A machine does not remember its debugger sessions. `Recorded` is a machine with the list of the
instructions that were executed and the sessions that were opened since its program was loaded.
Its actions do what those of the machine do and write the record on the side: forgetting the
record gives the machine back (`forgets_stepInstruction`).
-/

namespace TeachingCpu

open Debugger (Resume)

/-- What opens a debugger session. -/
inductive Opening where
  /-- The debug interrupt. -/
  | interrupt
  /-- The check behind an instruction. -/
  | check
deriving DecidableEq, Repr

/-- What a run consists of, as far as the debugger is concerned. A session has no answer if the
console broke. -/
inductive RunEvent where
  | instruction
  | session (opening : Opening) (answer : Option Resume)
deriving DecidableEq, Repr

/-- A machine and what happened since its program was loaded, the latest first. -/
structure Recorded where
  machine : Machine
  events : List RunEvent := []

namespace Machine

/-- How a debugger session ends that opens now. -/
def debuggerAnswer? (m : Machine) : Option Resume :=
  match Debugger.session m.cpu m.bench.console with
  | .ok resume _ => some resume
  | .error .. => none

/-- Fetches the instruction at `pc` and counts it. -/
def fetchNext : Attempt Machine Instruction := do
  modify fun m => { m with current := m.cpu.pc, debugged := false }
  let i ← fetchInstruction
  modify fun m =>
    { m with
      cycles := m.cycles + i.opcode.cycles
      instructions := m.instructions + 1 }.log .trace fun _ => i.text m.current
  return i

theorem executeNext_eq : executeNext = (do
    let i ← fetchNext
    perform i
    breakIfWanted) := by
  simp only [executeNext, fetchNext, bind_assoc, pure_bind]

end Machine

namespace Recorded

variable {α β : Type}

/-- Runs an action of the machine. -/
def onMachine (act : Attempt Machine α) : Attempt Recorded α :=
  Attempt.onPart Recorded.machine (fun machine r => { r with machine }) act

/-- Writes an event into the record. -/
def note (event : RunEvent) : Attempt Recorded Unit :=
  modify fun r => { r with events := event :: r.events }

/-- Opens the debugger. -/
def openDebugger (opening : Opening) : Attempt Recorded Unit := do
  let r ← get
  note (.session opening r.machine.debuggerAnswer?)
  onMachine Machine.openDebugger

/-- Serves an interrupt. -/
def interrupt : Attempt Recorded Unit := do
  match ← onMachine
      (Attempt.onPart Machine.bench (fun bench m => { m with bench }) Service.dispatch) with
  | .handled | .invalid _ => pure ()
  | .debug => openDebugger .interrupt

/-- Lets an instruction take effect. -/
def perform (i : Instruction) : Attempt Recorded Unit :=
  match i.opcode.effect with
  | .interrupt => interrupt
  | _ => onMachine (Machine.perform i)

/-- Opens the debugger behind an instruction, where the machine does. -/
def breakIfWanted : Attempt Recorded Unit := do
  let r ← get
  let m := r.machine
  if m.status = .running ∧ (m.breakPending ∨ m.cpu.flags.trap) ∧ m.debugged = false then
    onMachine (modify fun m => { m with breakPending := false })
    openDebugger .check

/-- Fetches the instruction at `pc`, counts it and lets it take effect. -/
def executeNext : Attempt Recorded Unit := do
  note .instruction
  let i ← onMachine Machine.fetchNext
  perform i
  breakIfWanted

/-- Runs an action whose failure stops the program. -/
def orFault (act : Attempt Recorded α) : Attempt Recorded α := fun r =>
  match act r with
  | .ok a r => .ok a r
  | .error e r => .error e { r with machine := r.machine.fault e }

/-- Executes one instruction. -/
def stepInstruction : Attempt Recorded Status := do
  onMachine Machine.ensureRunnable
  onMachine (modify fun m => { m with status := .running })
  orFault executeNext
  let r ← get
  return r.machine.status

theorem onMachine_of_ok {act : Attempt Machine α} {r : Recorded} {a : α} {m : Machine}
    (h : act r.machine = .ok a m) : onMachine act r = .ok a { r with machine := m } :=
  Attempt.onPart_of_ok h

theorem onMachine_of_error {act : Attempt Machine α} {r : Recorded} {e : Error} {m : Machine}
    (h : act r.machine = .error e m) : onMachine act r = .error e { r with machine := m } :=
  Attempt.onPart_of_error h

theorem breakIfWanted_of_wanted {r : Recorded}
    (h : r.machine.status = .running ∧ (r.machine.breakPending ∨ r.machine.cpu.flags.trap) ∧
      r.machine.debugged = false) :
    breakIfWanted r =
      openDebugger .check { r with machine := { r.machine with breakPending := false } } := by
  simp only [breakIfWanted, Attempt.get_bind_apply]
  rw [if_pos h]
  rfl

theorem breakIfWanted_of_not_wanted {r : Recorded}
    (h : ¬ (r.machine.status = .running ∧ (r.machine.breakPending ∨ r.machine.cpu.flags.trap) ∧
      r.machine.debugged = false)) : breakIfWanted r = .ok () r := by
  simp only [breakIfWanted, Attempt.get_bind_apply]
  rw [if_neg h]
  rfl

/-! ## Forgetting the record -/

/-- The result of an action without the record. -/
def forget : EStateM.Result Error Recorded α → EStateM.Result Error Machine α
  | .ok a r => .ok a r.machine
  | .error e r => .error e r.machine

/-- Without its record, an action is an action of the machine. -/
def Forgets (act : Attempt Recorded α) (plain : Attempt Machine α) : Prop :=
  ∀ r, forget (act r) = plain r.machine

theorem forgets_pure (a : α) : Forgets (pure a) (pure a) := fun _ => rfl

theorem forgets_onMachine (act : Attempt Machine α) : Forgets (onMachine act) act := by
  intro r
  cases h : act r.machine with
  | ok a m =>
    rw [onMachine_of_ok h]
    rfl
  | error e m =>
    rw [onMachine_of_error h]
    rfl

theorem forgets_bind {act : Attempt Recorded α} {plain : Attempt Machine α}
    {next : α → Attempt Recorded β} {plainNext : α → Attempt Machine β}
    (hact : Forgets act plain) (hnext : ∀ a, Forgets (next a) (plainNext a)) :
    Forgets (act >>= next) (plain >>= plainNext) := by
  intro r
  have hr := hact r
  cases h : act r with
  | ok a r' =>
    rw [h] at hr
    rw [Attempt.bind_of_ok h, Attempt.bind_of_ok hr.symm]
    exact hnext a r'
  | error e r' =>
    rw [h] at hr
    rw [Attempt.bind_of_error h, Attempt.bind_of_error hr.symm]
    rfl

theorem forgets_openDebugger (opening : Opening) :
    Forgets (openDebugger opening) Machine.openDebugger := by
  intro r
  exact forgets_onMachine Machine.openDebugger
    { r with events := .session opening r.machine.debuggerAnswer? :: r.events }

theorem forgets_interrupt : Forgets interrupt Machine.interrupt := by
  apply forgets_bind (forgets_onMachine _)
  intro outcome
  cases outcome with
  | handled => exact forgets_pure ()
  | debug => exact forgets_openDebugger .interrupt
  | invalid e => exact forgets_pure ()

theorem forgets_perform (i : Instruction) : Forgets (perform i) (Machine.perform i) := by
  unfold perform
  split
  · next heffect =>
    have hplain : Machine.perform i = Machine.interrupt := by
      unfold Machine.perform
      rw [heffect]
    rw [hplain]
    exact forgets_interrupt
  · exact forgets_onMachine _

theorem forgets_breakIfWanted : Forgets breakIfWanted Machine.breakIfWanted := by
  intro r
  by_cases hwanted : r.machine.status = .running ∧
      (r.machine.breakPending ∨ r.machine.cpu.flags.trap) ∧ r.machine.debugged = false
  · have hplain : Machine.breakIfWanted r.machine =
        Machine.openDebugger { r.machine with breakPending := false } := by
      simp only [Machine.breakIfWanted, Attempt.get_bind_apply]
      rw [if_pos hwanted]
      rfl
    rw [breakIfWanted_of_wanted hwanted, hplain]
    exact forgets_openDebugger .check _
  · have hplain : Machine.breakIfWanted r.machine = .ok () r.machine := by
      simp only [Machine.breakIfWanted, Attempt.get_bind_apply]
      rw [if_neg hwanted]
      rfl
    rw [breakIfWanted_of_not_wanted hwanted, hplain]
    rfl

theorem forgets_executeNext : Forgets executeNext Machine.executeNext := by
  rw [Machine.executeNext_eq]
  intro r
  have hrest : Forgets (do
      let i ← onMachine Machine.fetchNext
      perform i
      breakIfWanted) (do
      let i ← Machine.fetchNext
      Machine.perform i
      Machine.breakIfWanted) :=
    forgets_bind (forgets_onMachine _) fun i =>
      forgets_bind (forgets_perform i) fun _ => forgets_breakIfWanted
  exact hrest { r with events := .instruction :: r.events }

theorem forgets_orFault {act : Attempt Recorded α} {plain : Attempt Machine α}
    (h : Forgets act plain) : Forgets (orFault act) (Machine.orFault plain) := by
  intro r
  have hr := h r
  unfold orFault Machine.orFault
  rw [← hr]
  cases act r with
  | ok a r' => rfl
  | error e r' => rfl

/-- The record changes nothing: executing an instruction with it is executing the instruction. -/
theorem forgets_stepInstruction : Forgets stepInstruction Machine.stepInstruction := by
  apply forgets_bind (forgets_onMachine _)
  intro _
  apply forgets_bind (forgets_onMachine _)
  intro _
  apply forgets_bind (forgets_orFault forgets_executeNext)
  intro _ r
  rfl

end Recorded

end TeachingCpu
