import TeachingCpu.Text.Blank
import TeachingCpu.Text.Integer

/-!
# Commands of the debugger

A command line is a name, in any letter case, and its arguments.
-/

namespace TeachingCpu.Debugger

/-- The commands. -/
inductive Command where
  | help
  | registers
  | flags
  | memory (address length : Nat)
  | stack
  | step
  | go
  | quit
deriving DecidableEq, Repr

/-- What can be wrong with a command line. -/
inductive CommandError where
  | invalidCommand (name : String)
  | missingArgument (command argument : String)
  | tooManyArguments (command : String) (expected : Nat)
  | malformedInteger (argument value : String)
deriving DecidableEq, Repr

namespace CommandError

/-- The kind of an error. -/
def kind : CommandError → String
  | .invalidCommand _ => "InvalidCommand"
  | .missingArgument .. => "MissingArgument"
  | .tooManyArguments .. => "TooManyArguments"
  | .malformedInteger .. => "MalformedInteger"

/-- The words that tell an error. -/
def message : CommandError → String
  | .invalidCommand name => "Not a command: `" ++ name ++ "`. Type `help` for a list"
  | .missingArgument command argument =>
    "`" ++ command ++ "` is missing argument <" ++ argument ++ ">"
  | .tooManyArguments command expected =>
    "`" ++ command ++ "` takes at most " ++ toString expected ++ " argument(s)"
  | .malformedInteger argument value =>
    "Argument <" ++ argument ++ "> should be an integer from 0 to 65535, found `" ++
      value ++ "`"

end CommandError

namespace Command

/-- Bytes shown by a memory command without a length. -/
def defaultLength : Nat := 64

/-- A command as log lines show it. -/
def describe : Command → String
  | .help => "Help"
  | .registers => "Registers"
  | .flags => "Flags"
  | .memory address length =>
    "Memory \x7b address: " ++ toString address ++ ", len: " ++ toString length ++ " \x7d"
  | .stack => "Stack"
  | .step => "Step"
  | .go => "Go"
  | .quit => "Quit"

/-- The commands without arguments, by the names that they answer to. The first is the one that
messages use. -/
def plain : List (List String × Command) :=
  [(["help", "h"], .help),
    (["registers", "r"], .registers),
    (["flags", "f"], .flags),
    (["stack"], .stack),
    (["step", "s"], .step),
    (["go", "g", "continue", "c"], .go),
    (["quit", "q"], .quit)]

/-- The names of the memory command. -/
def memoryNames : List String := ["memory", "m"]

/-- The number that an argument denotes. -/
def integerArgument (argument value : String) : Except CommandError Nat :=
  match Text.readInteger? value with
  | some n => if n ≤ 65535 then .ok n else .error (.malformedInteger argument value)
  | none => .error (.malformedInteger argument value)

/-- The memory command with its arguments. -/
def readMemory : List String → Except CommandError Command
  | [] => .error (.missingArgument "memory" "addr")
  | [address] => do
    let address ← integerArgument "addr" address
    return .memory address defaultLength
  | address :: length :: rest => do
    let address ← integerArgument "addr" address
    let length ← integerArgument "len" length
    if rest.isEmpty then return .memory address length
    else throw (.tooManyArguments "memory" 2)

/-- The command on a line. -/
def read (line : String) : Except CommandError Command :=
  let words := Text.words line
  let name := Text.lower (words.headD "")
  let arguments := words.drop 1
  if memoryNames.contains name then readMemory arguments
  else match plain.find? (·.1.contains name) with
    | none => .error (.invalidCommand name)
    | some (names, command) =>
      if arguments.isEmpty then .ok command
      else .error (.tooManyArguments (names.headD "") 0)

end Command

end TeachingCpu.Debugger
