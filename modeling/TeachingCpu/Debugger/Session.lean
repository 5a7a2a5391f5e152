import TeachingCpu.Console
import TeachingCpu.Debugger.Command
import TeachingCpu.Report

/-!
# Debugger sessions

A session shows where the program stands and answers commands until one of them resumes
execution. The end of the input resumes it too.
-/

namespace TeachingCpu.Debugger

/-- How execution continues behind a session. -/
inductive Resume where
  /-- With another session behind the next instruction. -/
  | step
  | go
  /-- Not at all. -/
  | quit
deriving DecidableEq, Repr

/-- The text in front of a command. -/
def promptText : String := "Command: "

/-- The part of the program that the log lines of a session come from. -/
def topic : String := "tinycpu::debugger"

/-- The list of commands. -/
def helpText : String :=
  "help                     show this list\n" ++
  "registers                dump every register\n" ++
  "flags                    show the status flags\n" ++
  "memory <addr> [len]      hex dump of memory, addresses in decimal or 0x hex\n" ++
  "stack                    show the stack pointer and active calls\n" ++
  "step                     run one instruction, then return here\n" ++
  "go                       resume execution\n" ++
  "quit                     stop the program\n"

/-- A line in the colour of errors. -/
def errorLine (display : Text.Display) (message : String) : String :=
  Text.Style.paint .red display message ++ "\n"

/-- The line that opens a session. -/
def banner (display : Text.Display) (cpu : Cpu) : String :=
  Text.Style.paint .blue display
    ("Debugger at 0x" ++ Text.hex 4 cpu.pc.toNat ++ ". Type `help` for commands.") ++ "\n"

/-- What a command does: it resumes execution or shows a text. -/
def answer (display : Text.Display) (cpu : Cpu) : Command → Resume ⊕ String
  | .help => .inr helpText
  | .registers => .inr (Report.registers display cpu)
  | .flags => .inr (Report.flags display cpu.flags)
  | .memory address length =>
    match Report.memory display cpu.memory address length with
    | .ok dump => .inr dump
    | .error e => .inr (errorLine display e.message)
  | .stack => .inr (Report.callStack display cpu)
  | .step => .inl .step
  | .go => .inl .go
  | .quit => .inl .quit

/-- Reads and answers up to `n` lines. -/
def answerTimes (display : Text.Display) (cpu : Cpu) : Nat → Attempt Console Resume
  | 0 => return .go
  | n + 1 => do
    match ← Console.readLine promptText with
    | none =>
      modify (·.log .debug topic fun _ => "debugger input closed, resuming")
      return .go
    | some typed =>
      let line := Text.trim typed
      if line.isEmpty then answerTimes display cpu n
      else match Command.read line with
        | .error e =>
          Console.write (errorLine display e.message)
          answerTimes display cpu n
        | .ok command =>
          modify (·.log .debug topic fun _ => "debugger command " ++ command.describe)
          match answer display cpu command with
          | .inl resume => return resume
          | .inr text =>
            Console.write text
            answerTimes display cpu n

/-- A session: the banner, then commands until execution resumes. -/
def session (cpu : Cpu) : Attempt Console Resume := do
  let c ← get
  Console.write (banner c.display cpu)
  answerTimes c.display cpu (c.pending.length + 1)

end TeachingCpu.Debugger
