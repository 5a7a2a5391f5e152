import TeachingCpu.Cpu.Arithmetic
import TeachingCpu.Cpu.Registers
import TeachingCpu.Memory.Basic

/-!
# The state of the processor

Registers, flags and memory, and beside them the return addresses of the calls that are active,
which the memory stack holds too. The actions that can fail check first and change the state
afterwards, so a failing one leaves the processor as it was.
-/

namespace TeachingCpu

/-- Registers, flags and memory of a machine. -/
structure Cpu where
  registers : Registers
  flags : Flags
  memory : Memory
  /-- Return addresses of the active calls, the innermost first. -/
  calls : List UInt16
  /-- Whether programs may write `pc` like any other register. -/
  allowPcWrite : Bool

namespace Cpu

/-- The power-on state: registers, flags and memory zero. -/
def powerOn (layout : Layout) (allowPcWrite : Bool) : Cpu :=
  ⟨.zeroed, {}, .zeroed layout, [], allowPcWrite⟩

/-- Returns to the power-on state. -/
def reset (cpu : Cpu) : Cpu :=
  { cpu with registers := .zeroed, flags := {}, memory := cpu.memory.clear, calls := [] }

/-- The boundaries of the segments. -/
def layout (cpu : Cpu) : Layout := cpu.memory.layout

/-- The value of a register. -/
def reg (cpu : Cpu) (r : Register) : UInt16 := cpu.registers.get r

/-- The program counter. -/
def pc (cpu : Cpu) : UInt16 := cpu.reg .pc

/-- Stores a value in the slot of a dedicated register, past the protection of `pc`. -/
def setSlot (cpu : Cpu) (r : Register) (value : UInt16) : Cpu :=
  { cpu with registers := cpu.registers.setSlot r value }

/-- Moves the program counter. Jumps are not subject to its protection. -/
def setPc (cpu : Cpu) (pc : UInt16) : Cpu := cpu.setSlot .pc pc

/-- Sets or clears a flag. -/
def setFlag (cpu : Cpu) (flag : Flag) (value : Bool) : Cpu :=
  { cpu with flags := cpu.flags.set flag value }

/-- Sets the zero and the negative flag from a result. -/
def setResultFlags (cpu : Cpu) (w : Width) (value : Nat) : Cpu :=
  { cpu with flags := cpu.flags.ofResult w value }

/-- Points the stack registers at the stack segment and leaves the stack empty. -/
def initStack (cpu : Cpu) : Cpu :=
  ((cpu.setSlot .ss cpu.layout.stackStart).setSlot .se cpu.layout.lastAddressable).setSlot .sp
    cpu.layout.size.toUInt16

/-- Writes a register as programs do: `pc` may be protected, and the value has to fit. -/
def writeRegister (r : Register) (value : Nat) : Attempt Cpu Unit := do
  let cpu ← get
  if r = .pc ∧ cpu.allowPcWrite = false then
    Attempt.fail .programCounterProtected
  else if r.width.max < value then
    Attempt.fail (.registerOverflow r value)
  else
    set { cpu with registers := cpu.registers.write r value.toUInt16 }

/-- Reads something from memory. -/
def readMemory {α : Type} (access : Memory → Except Error α) : Attempt Cpu α := do
  let cpu ← get
  Attempt.ofExcept (access cpu.memory)

/-- Changes memory. -/
def writeMemory (access : Memory → Except Error Memory) : Attempt Cpu Unit := do
  let cpu ← get
  match access cpu.memory with
  | .ok memory => set { cpu with memory }
  | .error e => throw e

/-- Stores a string in memory and gives the address of the zero byte behind it. -/
def storeString (address : Nat) (bytes : List UInt8) : Attempt Cpu Nat := do
  let (terminator, memory) ← readMemory (·.storeString address bytes)
  modify fun cpu => { cpu with memory }
  return terminator

/-- Puts a word on the stack, below the words that are there. -/
def push (value : UInt16) : Attempt Cpu Unit := do
  let cpu ← get
  let sp := (cpu.reg .sp).toNat
  let base := cpu.reg .ss
  if sp < base.toNat + 2 then
    Attempt.fail (.stackOverflow base)
  else
    writeMemory (·.writeWord (sp - 2) value)
    modify (·.setSlot .sp (sp - 2).toUInt16)

/-- Takes the last word off the stack. -/
def pop : Attempt Cpu UInt16 := do
  let cpu ← get
  let sp := (cpu.reg .sp).toNat
  if (cpu.reg .se).toNat + 1 < sp + 2 then
    Attempt.fail .stackUnderflow
  else
    let value ← readMemory (·.readWord sp)
    modify (·.setSlot .sp (sp + 2).toUInt16)
    return value

/-- Enters a call: its return address goes onto the stack. -/
def enterCall (returnAddress : UInt16) : Attempt Cpu Unit := do
  push returnAddress
  modify fun cpu => { cpu with calls := returnAddress :: cpu.calls }

/-- Leaves the innermost call: its return address comes off the stack. -/
def leaveCall : Attempt Cpu UInt16 := do
  let address ← pop
  modify fun cpu => { cpu with calls := cpu.calls.tail }
  return address

end Cpu

end TeachingCpu
