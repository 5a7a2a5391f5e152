import TeachingCpu.Bench
import TeachingCpu.Isa.Signal
import TeachingCpu.Text.Blank
import TeachingCpu.Text.Integer
import TeachingCpu.Text.Latin1

/-!
# Interrupt services

`Service.dispatch` serves the interrupt whose number is in `al`. Arguments and results are in
registers: `di` and `dp` point at memory, `bx`, `cx` and `dx` hold what the service at hand needs.
An unknown number is reported on the console, and execution goes on.
-/

namespace TeachingCpu.Service

open Text

/-- What follows an interrupt. -/
inductive Outcome where
  | handled
  /-- The debugger opens. -/
  | debug
  /-- The number was unknown, and that was reported. -/
  | invalid (error : Error)
deriving DecidableEq, Repr

/-- The part of the program that the log lines of the services come from. -/
def topic : String := "tinycpu::interrupt"

/-- Shows a text. -/
def print (text : String) : Attempt Bench Unit :=
  Bench.onConsole (Console.write text)

/-- Reports an unknown number. -/
def reportInvalid (cause : Cause) : Attempt Bench Outcome := do
  Bench.log .warn topic fun _ => cause.message ++ " (" ++ cause.kind.code ++ ")"
  print (cause.message ++ "\n")
  return .invalid (.of cause)

/-- Accepts a line whose characters all have a byte. -/
def acceptBytes (line : String) : Except String (List UInt8) :=
  match toBytes line with
  | .ok bytes => .ok bytes
  | .error c =>
    .error ("`" ++ c.toString ++ "` is not a single-byte character, try again\n")

/-- The word that a text denotes: a number below 2¹⁶, or `-` and a number up to 2¹⁵ for its
two's complement. -/
def readWord? (text : String) : Option UInt16 :=
  match text.toList with
  | '-' :: digits =>
    match readIntegerChars? digits with
    | some n => if n ≤ 0x8000 then some (0 - n.toUInt16) else none
    | none => none
  | digits =>
    match readIntegerChars? digits with
    | some n => if n ≤ 0xffff then some n.toUInt16 else none
    | none => none

/-- Accepts a line that denotes a word. -/
def acceptWord (line : String) : Except String UInt16 :=
  match readWord? (trim line) with
  | some value => .ok value
  | none => .error ("`" ++ trim line ++ "` is not a number, try again\n")

/-- Reads a line into memory at `di`, and the address of its zero byte into `dp`. -/
def stringInput : Attempt Bench Unit := do
  let bytes ← Bench.onConsole (Console.ask acceptBytes)
  let address ← Bench.reg .di
  let terminator ← Bench.onCpu (Cpu.storeString address.toNat bytes)
  Bench.onCpu (Cpu.writeRegister .dp terminator)

/-- Reads a number into `dx`. -/
def numberInput : Attempt Bench Unit := do
  let value ← Bench.onConsole (Console.ask acceptWord)
  Bench.onCpu (Cpu.writeRegister .dx value.toNat)

/-- Puts the strings at `di` and `dp` behind each other at `bx`. -/
def stringConcat : Attempt Bench Unit := do
  let first ← Bench.stringAt .di
  let second ← Bench.stringAt .dp
  let address ← Bench.reg .bx
  Bench.onCpu (Cpu.writeMemory (·.writeString address.toNat (first ++ second)))

/-- Copies the string at `di` to `dp`. -/
def stringCopy : Attempt Bench Unit := do
  let bytes ← Bench.stringAt .di
  let address ← Bench.reg .dp
  Bench.onCpu (Cpu.writeMemory (·.writeString address.toNat bytes))

/-- Copies `cx` bytes from `di` to `dp`. All are read before any is written. -/
def memoryCopy : Attempt Bench Unit := do
  let length ← Bench.reg .cx
  let source ← Bench.reg .di
  let target ← Bench.reg .dp
  let bytes ← Bench.onCpu (Cpu.readMemory (·.slice source.toNat length.toNat))
  Bench.onCpu (Cpu.writeMemory (·.load target.toNat bytes))

/-- Yields what an access to the files gives. -/
def access {α : Type} (name : String) (result : Except FileError α) : Attempt Bench α :=
  match result with
  | .ok a => pure a
  | .error reason => Attempt.fail (.fileInaccessible name reason)

/-- Reads a file into memory at `di`, and its length into `dp`. The error flag tells that there is
no such file. -/
def fileRead (name : String) : Attempt Bench Unit := do
  let address ← Bench.reg .di
  let b ← get
  match ← access name (b.storage.read name) with
  | some bytes =>
    Bench.onCpu (Cpu.writeMemory (·.load address.toNat bytes))
    Bench.onCpu (Cpu.writeRegister .dp bytes.length)
    Bench.onCpu (modify (·.setFlag .error false))
  | none =>
    Bench.onCpu (Cpu.writeRegister .dp 0)
    Bench.onCpu (modify (·.setFlag .error true))

/-- Hands the `dp` bytes of memory at `di` to a change of the files. -/
def fileWrite (name : String)
    (change : Storage → List UInt8 → Except FileError Storage) : Attempt Bench Unit := do
  let address ← Bench.reg .di
  let length ← Bench.reg .dp
  let bytes ← Bench.onCpu (Cpu.readMemory (·.slice address.toNat length.toNat))
  let b ← get
  let storage ← access name (change b.storage bytes)
  set { b with storage }

/-- Removes a file. -/
def fileDelete (name : String) : Attempt Bench Unit := do
  let b ← get
  let storage ← access name (b.storage.delete name)
  set { b with storage }

/-- Runs the file operation whose number is in `bl` on the file that the string at `cx` names. -/
def file : Attempt Bench Outcome := do
  let code := (← Bench.reg .bl).toUInt8
  match FileOperation.ofCode? code.toNat with
  | none => reportInvalid (.invalidFileOperation code)
  | some operation =>
    let name := ofBytes (← Bench.stringAt .cx)
    Bench.log .debug topic fun _ => "file " ++ operation.signal ++ " `" ++ name ++ "`"
    match operation with
    | .read => fileRead name
    | .save => fileWrite name (·.save name ·)
    | .append => fileWrite name (·.append name ·)
    | .delete => fileDelete name
    return .handled

/-- Prints the string at `di`. -/
def printString : Attempt Bench Unit := do
  let bytes ← Bench.stringAt .di
  print (ofBytes bytes)

/-- Prints the number in `dx`. -/
def printNumber : Attempt Bench Unit := do
  let value ← Bench.reg .dx
  print (toString value.toNat)

/-- Prints the character in `dl`. -/
def printChar : Attempt Bench Unit := do
  let value ← Bench.reg .dl
  print (charOfByte value.toUInt8).toString

/-- Serves an interrupt. -/
def serve : Interrupt → Attempt Bench Outcome
  | .stringInput => do stringInput; return .handled
  | .numberInput => do numberInput; return .handled
  | .debug => return .debug
  | .stringConcat => do stringConcat; return .handled
  | .stringCopy => do stringCopy; return .handled
  | .memoryCopy => do memoryCopy; return .handled
  | .file => file
  | .printString => do printString; return .handled
  | .printNumber => do printNumber; return .handled
  | .printChar => do printChar; return .handled

/-- Serves the interrupt whose number is in `al`. -/
def dispatch : Attempt Bench Outcome := do
  let code := (← Bench.reg .al).toUInt8
  match Interrupt.ofCode? code.toNat with
  | none => reportInvalid (.invalidInterrupt code)
  | some interrupt =>
    Bench.log .debug topic fun _ =>
      "interrupt " ++ toString code.toNat ++ " (" ++ interrupt.signal ++ ")"
    serve interrupt

end TeachingCpu.Service
