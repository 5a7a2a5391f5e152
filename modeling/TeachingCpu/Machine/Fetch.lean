import TeachingCpu.Machine.Basic

/-!
# Fetching instructions

The program counter is counted up byte by byte, over the operands and past the last one, before an
instruction takes effect. Each time the observer sees it.
-/

namespace TeachingCpu.Machine

/-- Refuses to execute without a program that can go on. -/
def ensureRunnable : Attempt Machine Unit := do
  let m ← get
  if !m.status.isRunnable then Attempt.fail (.notRunnable m.status)

/-- The code byte at an address. -/
def fetchByte (address : UInt16) : Attempt Machine UInt8 := do
  let m ← get
  match m.rom[address.toNat]? with
  | some b => return b
  | none => Attempt.fail (.codeAddressOutside address m.rom.size)

/-- Counts `pc` up by one. -/
def advance : Attempt Machine UInt16 := do
  let m ← get
  if m.cpu.pc = 0xffff then Attempt.fail .programCounterOverrun
  else
    let pc := m.cpu.pc + 1
    onCpu (modify (·.setPc pc))
    modify fun m => { m with observed := m.observed.map (pc :: ·) }
    return pc

/-- Fetches the two bytes of an operand behind `pc`. -/
def fetchOperand : Attempt Machine Operand := do
  let tag ← fetchByte (← advance)
  let value ← fetchByte (← advance)
  match Mode.ofTag? tag with
  | some mode => return ⟨mode, value⟩
  | none => Attempt.fail (.unknownModeTag tag)

/-- Fetches `n` operands. -/
def fetchOperands : Nat → Attempt Machine (List Operand)
  | 0 => return []
  | n + 1 => do
    let operand ← fetchOperand
    let rest ← fetchOperands n
    return operand :: rest

/-- Fetches the instruction at `pc` and counts `pc` up to the one behind it. -/
def fetchInstruction : Attempt Machine Instruction := do
  let m ← get
  let code ← fetchByte m.cpu.pc
  match Opcode.ofCode? code with
  | none => Attempt.fail (.undefinedOpcode code)
  | some opcode =>
    let operands ← fetchOperands opcode.arity
    let _ ← advance
    return ⟨opcode, operands⟩

/-- Counts `pc` up by one, for a machine that can execute. -/
def step : Attempt Machine UInt16 := do
  ensureRunnable
  advance

/-- Fetches an operand, for a machine that can execute. -/
def nextOperand : Attempt Machine Operand := do
  ensureRunnable
  fetchOperand

end TeachingCpu.Machine
