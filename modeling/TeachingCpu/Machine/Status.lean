/-!
# Life cycle of a machine
-/

namespace TeachingCpu

/-- Where a machine stands in its life cycle. -/
inductive Status where
  /-- There is no program, or none since the last reset. -/
  | unloaded
  | loaded
  | running
  /-- The program stopped by itself or was stopped from the debugger. -/
  | halted
  /-- An instruction failed. -/
  | faulted
deriving DecidableEq, Repr

namespace Status

/-- Whether the machine can execute. -/
def isRunnable : Status → Bool
  | .loaded | .running => true
  | _ => false

/-- The name of a status. -/
def name : Status → String
  | .unloaded => "Unloaded"
  | .loaded => "Loaded"
  | .running => "Running"
  | .halted => "Halted"
  | .faulted => "Faulted"

end Status

end TeachingCpu
