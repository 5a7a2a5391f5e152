/-!
# Named signals

An interrupt is chosen by a number, and so is the operation of the file interrupt. Source text
may write the name of either in place of its number.
-/

namespace TeachingCpu

/-- The interrupts. -/
inductive Interrupt where
  | stringInput
  | numberInput
  | debug
  | stringConcat
  | stringCopy
  | memoryCopy
  | file
  | printString
  | printNumber
  | printChar
deriving DecidableEq, Repr

namespace Interrupt

/-- Every interrupt, in the order of their numbers. -/
def all : List Interrupt :=
  [.stringInput, .numberInput, .debug, .stringConcat, .stringCopy, .memoryCopy, .file,
    .printString, .printNumber, .printChar]

/-- The number of an interrupt. -/
def code : Interrupt → Nat
  | .stringInput => 1
  | .numberInput => 2
  | .debug => 3
  | .stringConcat => 4
  | .stringCopy => 5
  | .memoryCopy => 6
  | .file => 7
  | .printString => 8
  | .printNumber => 9
  | .printChar => 10

/-- The name of an interrupt in source text. -/
def signal : Interrupt → String
  | .stringInput => "INT_STRING_INPUT"
  | .numberInput => "INT_NUMBER_INPUT"
  | .debug => "INT_DEBUG"
  | .stringConcat => "INT_STRING_CONCAT"
  | .stringCopy => "INT_STRING_COPY"
  | .memoryCopy => "INT_MEMORY_COPY"
  | .file => "INT_FILE"
  | .printString => "INT_PRINT_STRING"
  | .printNumber => "INT_PRINT_NUMBER"
  | .printChar => "INT_PRINT_CHAR"

/-- The interrupt with a number. -/
def ofCode? (code : Nat) : Option Interrupt := all.find? (·.code == code)

end Interrupt

/-- The operations of the file interrupt. -/
inductive FileOperation where
  | read
  | save
  | append
  | delete
deriving DecidableEq, Repr

namespace FileOperation

/-- Every file operation, in the order of their numbers. -/
def all : List FileOperation := [.read, .save, .append, .delete]

/-- The number of a file operation. -/
def code : FileOperation → Nat
  | .read => 0
  | .save => 1
  | .append => 2
  | .delete => 3

/-- The name of a file operation in source text. -/
def signal : FileOperation → String
  | .read => "FILE_READ"
  | .save => "FILE_SAVE"
  | .append => "FILE_APPEND"
  | .delete => "FILE_DELETE"

/-- The file operation with a number. -/
def ofCode? (code : Nat) : Option FileOperation := all.find? (·.code == code)

end FileOperation

/-- The number of a signal with a name, in exactly this spelling. -/
def signal? (name : String) : Option Nat :=
  match Interrupt.all.find? (·.signal == name) with
  | some interrupt => some interrupt.code
  | none => (FileOperation.all.find? (·.signal == name)).map FileOperation.code

end TeachingCpu
