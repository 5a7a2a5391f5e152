import TeachingCpu.Bench
import TeachingCpu.Config
import TeachingCpu.Image.Basic

/-!
# Machines

A machine holds a program in its code memory and runs it on a processor with console and files.
`Machine.build` makes one, `Machine.load` gives it a program, `Machine.reset` takes it away.
-/

namespace TeachingCpu

/-- A machine. -/
structure Machine where
  config : Config
  bench : Bench
  /-- The code of the program. -/
  rom : Array UInt8 := #[]
  status : Status := .unloaded
  /-- The message of the failure that stopped the program. -/
  output : List String := []
  /-- The exit status of the failure that stopped the program, else zero. -/
  statusCode : Nat := 0
  cycles : Nat := 0
  instructions : Nat := 0
  /-- Address of the instruction that is executed. -/
  current : UInt16 := 0
  /-- Whether the debugger opens behind the next instruction. -/
  breakPending : Bool := false
  /-- Whether the debugger was open during this instruction. -/
  debugged : Bool := false
  /-- Where steps are observed: the values that `pc` was counted up to, the latest first. -/
  observed : Option (List UInt16) := none

namespace Machine

/-- The part of the program that the log lines of a machine come from. -/
def topic : String := "tinycpu::runtime"

/-- Shows a log line. -/
def log (m : Machine) (level : LogLevel) (text : Unit → String) : Machine :=
  { m with bench := { m.bench with console := m.bench.console.log level topic text } }

/-- The processor of a machine. -/
def cpu (m : Machine) : Cpu := m.bench.cpu

/-- A machine without a program. -/
def build (config : Config) (console : Console) (storage : Storage) :
    Except Error Machine := do
  let layout ← config.layout
  let cpu := Cpu.powerOn layout config.allowPcWrite
  let machine : Machine := { config, bench := { cpu, console, storage } }
  return machine.log .debug fun _ =>
    "machine: " ++ toString layout.size ++ " bytes, data at 0x" ++
      Text.hex 4 layout.dataStart.toNat ++ ", stack at 0x" ++
      Text.hex 4 layout.stackStart.toNat ++ ", " ++ config.width.text

/-- The machine with its steps observed. -/
def observe (m : Machine) : Machine := { m with observed := some [] }

/-- Takes the program away and returns to the power-on state. -/
def reset (m : Machine) : Machine :=
  { m with
    bench := { m.bench with cpu := m.bench.cpu.reset }
    rom := #[]
    status := .unloaded
    output := []
    statusCode := 0
    cycles := 0
    instructions := 0
    current := 0
    breakPending := false
    debugged := false }

/-- Why a machine refuses a program, if it does. -/
def refusal? (m : Machine) (image : Image) : Option Cause :=
  if image.width ≠ m.config.width then
    some (.architectureMismatch image.width m.config.width)
  else if m.cpu.layout.size < image.memory.length then
    some (.memoryImageTooLarge image.memory.length m.cpu.layout.size)
  else if image.rom.length ≤ image.entry.toNat then
    some (.entryOutsideProgram image.entry)
  else none

/-- Runs an action on the processor. -/
def onCpu {α : Type} (act : Attempt Cpu α) : Attempt Machine α :=
  Attempt.onPart Machine.bench (fun bench m => { m with bench }) (Bench.onCpu act)

/-- Copies a program into code memory and memory, and points `pc` at its entry. -/
def load (image : Image) : Attempt Machine Unit := do
  let m ← get
  if let some cause := m.refusal? image then Attempt.fail cause
  modify reset
  onCpu (Cpu.writeMemory (·.load 0 image.memory))
  onCpu (modify fun cpu => cpu.initStack.setPc image.entry)
  modify fun m =>
    { m with rom := image.rom.toArray, status := .loaded }.log .debug fun _ =>
      "loaded " ++ toString image.rom.length ++ " ROM bytes and " ++
        toString image.memory.length ++ " memory bytes, entry 0x" ++
        Text.hex 4 image.entry.toNat

end Machine

end TeachingCpu
