import TeachingCpu.Console
import TeachingCpu.Cpu.Basic
import TeachingCpu.Files.Storage

/-!
# A processor and its surroundings

All that an interrupt may touch: the processor, the console, and the files.
-/

namespace TeachingCpu

/-- A processor with a console and files. -/
structure Bench where
  cpu : Cpu
  console : Console
  storage : Storage

namespace Bench

variable {α : Type}

/-- Runs an action on the processor. -/
def onCpu (act : Attempt Cpu α) : Attempt Bench α :=
  Attempt.onPart Bench.cpu (fun cpu b => { b with cpu }) act

/-- Runs an action on the console. -/
def onConsole (act : Attempt Console α) : Attempt Bench α :=
  Attempt.onPart Bench.console (fun console b => { b with console }) act

/-- Shows a log line. -/
def log (level : LogLevel) (topic : String) (text : Unit → String) : Attempt Bench Unit :=
  modify fun b => { b with console := b.console.log level topic text }

/-- The value of a register. -/
def reg (r : Register) : Attempt Bench UInt16 := do
  let b ← get
  return b.cpu.reg r

/-- The string in memory that a register points at. -/
def stringAt (r : Register) : Attempt Bench (List UInt8) := do
  let address ← reg r
  onCpu (Cpu.readMemory (·.readString address.toNat))

end Bench

end TeachingCpu
