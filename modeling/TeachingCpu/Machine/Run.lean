import TeachingCpu.Machine.Execute

/-!
# Running programs

`stepInstruction` executes one instruction; a failure stops the program and is kept as its fault.
`runFor` executes up to a number of instructions, and `run` as many as it takes.
-/

namespace TeachingCpu.Machine

/-- Opens the debugger behind an instruction: after a session that ended with a single step, or
while the trap flag is set, but not twice for one instruction. -/
def breakIfWanted : Attempt Machine Unit := do
  let m ← get
  if m.status = .running ∧ (m.breakPending ∨ m.cpu.flags.trap) ∧ m.debugged = false then
    modify fun m => { m with breakPending := false }
    openDebugger

/-- Fetches the instruction at `pc`, counts it and lets it take effect. -/
def executeNext : Attempt Machine Unit := do
  modify fun m => { m with current := m.cpu.pc, debugged := false }
  let i ← fetchInstruction
  modify fun m =>
    { m with
      cycles := m.cycles + i.opcode.cycles
      instructions := m.instructions + 1 }.log .trace fun _ => i.text m.current
  perform i
  breakIfWanted

/-- The machine stopped by a failure. -/
def fault (m : Machine) (e : Error) : Machine :=
  let line := "[0x" ++ Text.hex 4 m.current.toNat ++ "] " ++ e.message
  let m := m.log .warn fun _ => "fault: " ++ line ++ " (" ++ e.kind.code ++ ")"
  { m with
    status := .faulted
    statusCode := e.kind.statusCode
    output := m.output ++ [line] }

/-- Runs an action whose failure stops the program. -/
def orFault {α : Type} (act : Attempt Machine α) : Attempt Machine α := fun m =>
  match act m with
  | .ok a m => .ok a m
  | .error e m => .error e (m.fault e)

/-- Executes one instruction. -/
def stepInstruction : Attempt Machine Status := do
  ensureRunnable
  modify fun m => { m with status := .running }
  orFault executeNext
  let m ← get
  return m.status

/-- Executes up to `n` instructions, as long as the program runs. -/
def continueFor : Nat → Attempt Machine Status
  | 0 => do
    let m ← get
    return m.status
  | n + 1 => do
    let status ← stepInstruction
    if status = .running then continueFor n else return status

/-- Executes up to `n` instructions, for a machine that can execute. -/
def runFor (n : Nat) : Attempt Machine Status := do
  ensureRunnable
  continueFor n

/-- What an action ends in: a value or an error, and the machine that it leaves. -/
abbrev Ending := EStateM.Result Error Machine Status

/-- Executes instructions until the program stops. There is no ending for a program that does not
stop. -/
def run (m : Machine) : Option Ending :=
  match stepInstruction m with
  | .ok .running m => m |>.run
  | ending => some ending
partial_fixpoint

end TeachingCpu.Machine
