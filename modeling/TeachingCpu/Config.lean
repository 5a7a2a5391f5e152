import TeachingCpu.Memory.Layout

/-!
# Configuration of a machine
-/

namespace TeachingCpu

/-- What a machine is built from. -/
structure Config where
  /-- Memory in bytes. -/
  memorySize : Nat := 4096
  /-- Share of the stack, in percent. -/
  stackPercent : Nat := 25
  /-- Share of the data segment, in percent. -/
  dataPercent : Nat := 25
  width : ArchWidth := .bits16
  /-- Whether programs may write `pc` like any other register. -/
  allowPcWrite : Bool := false
deriving DecidableEq, Repr

namespace Config

/-- The machine of the configured width. -/
def architecture (config : Config) : Except Error Architecture :=
  match Architecture.ofWidth? config.width with
  | some machine => .ok machine
  | none => .error (.of (.architectureNotImplemented config.width))

/-- The memory layout of the configured machine. -/
def layout (config : Config) : Except Error Layout := do
  let machine ← config.architecture
  Layout.ofShares config.memorySize config.stackPercent config.dataPercent machine.maxMemory

end Config

end TeachingCpu
