import TeachingCpu.Files.Error
import TeachingCpu.Isa.Architecture
import TeachingCpu.Isa.Instruction
import TeachingCpu.Machine.Status

/-!
# Causes of failure

Every reason for which the assembler, the loader or the engine refuses to go on. A cause carries
what its message names; `Cause.kind` sorts the causes and `Cause.message` words them. Each kind
has a diagnostic code, an exit status and in some cases a hint.
-/

namespace TeachingCpu

/-- The kinds of failure. -/
inductive ErrorKind where
  | invalidMemoryAddress
  | invalidMemoryLayout
  | cpuSizeViolation
  | protectedRegisterWrite
  | undefinedInstruction
  | nullDataPointer
  | nullFunctionPointer
  | invalidRegisterCode
  | entryPointNotFound
  | invalidLiteral
  | invalidOperandCount
  | operandOutOfRange
  | duplicateSymbol
  | unterminatedString
  | malformedData
  | malformedImage
  | unsupportedArchitecture
  | invalidInterrupt
  | invalidAddressingMode
  | invalidOperand
  | divisionByZero
  | stackOverflow
  | stackUnderflow
  | invalidCodeAddress
  | consoleClosed
  | storageFailure
  | engineNotRunnable
deriving DecidableEq, Repr

namespace ErrorKind

/-- The name of a kind. -/
def name : ErrorKind → String
  | .invalidMemoryAddress => "InvalidMemoryAddress"
  | .invalidMemoryLayout => "InvalidMemoryLayout"
  | .cpuSizeViolation => "CpuSizeViolation"
  | .protectedRegisterWrite => "ProtectedRegisterWrite"
  | .undefinedInstruction => "UndefinedInstruction"
  | .nullDataPointer => "NullDataPointer"
  | .nullFunctionPointer => "NullFunctionPointer"
  | .invalidRegisterCode => "InvalidRegisterCode"
  | .entryPointNotFound => "EntryPointNotFound"
  | .invalidLiteral => "InvalidLiteral"
  | .invalidOperandCount => "InvalidOperandCount"
  | .operandOutOfRange => "OperandOutOfRange"
  | .duplicateSymbol => "DuplicateSymbol"
  | .unterminatedString => "UnterminatedString"
  | .malformedData => "MalformedData"
  | .malformedImage => "MalformedImage"
  | .unsupportedArchitecture => "UnsupportedArchitecture"
  | .invalidInterrupt => "InvalidInterrupt"
  | .invalidAddressingMode => "InvalidAddressingMode"
  | .invalidOperand => "InvalidOperand"
  | .divisionByZero => "DivisionByZero"
  | .stackOverflow => "StackOverflow"
  | .stackUnderflow => "StackUnderflow"
  | .invalidCodeAddress => "InvalidCodeAddress"
  | .consoleClosed => "ConsoleClosed"
  | .storageFailure => "StorageFailure"
  | .engineNotRunnable => "EngineNotRunnable"

/-- The diagnostic code shown beside a message. -/
def code : ErrorKind → String
  | .invalidMemoryAddress => "mem::invalid_address"
  | .invalidMemoryLayout => "mem::invalid_layout"
  | .cpuSizeViolation => "cpu::size_violation"
  | .protectedRegisterWrite => "cpu::protected_register"
  | .undefinedInstruction => "asm::undefined_instruction"
  | .nullDataPointer => "asm::null_data_pointer"
  | .nullFunctionPointer => "asm::null_function_pointer"
  | .invalidRegisterCode => "asm::invalid_register"
  | .entryPointNotFound => "asm::entry_point"
  | .invalidLiteral => "asm::bad_lit"
  | .invalidOperandCount => "asm::operand_count"
  | .operandOutOfRange => "asm::operand_range"
  | .duplicateSymbol => "asm::duplicate_symbol"
  | .unterminatedString => "asm::str_lit"
  | .malformedData => "asm::data"
  | .malformedImage => "image::malformed"
  | .unsupportedArchitecture => "image::architecture"
  | .invalidInterrupt => "run::invalid_interrupt"
  | .invalidAddressingMode => "run::addressing_mode"
  | .invalidOperand => "run::invalid_operand"
  | .divisionByZero => "run::division_by_zero"
  | .stackOverflow => "run::stack_overflow"
  | .stackUnderflow => "run::stack_underflow"
  | .invalidCodeAddress => "run::code_address"
  | .consoleClosed => "run::console_closed"
  | .storageFailure => "run::storage"
  | .engineNotRunnable => "run::not_runnable"

/-- The exit status of a program that ends with a failure of this kind. -/
def statusCode : ErrorKind → Nat
  | .invalidMemoryAddress => 10
  | .invalidMemoryLayout => 11
  | .cpuSizeViolation => 12
  | .protectedRegisterWrite => 13
  | .undefinedInstruction | .nullDataPointer | .nullFunctionPointer | .invalidRegisterCode
  | .entryPointNotFound | .invalidLiteral | .invalidOperandCount | .operandOutOfRange
  | .duplicateSymbol | .unterminatedString | .malformedData => 20
  | .malformedImage | .unsupportedArchitecture => 30
  | .invalidInterrupt => 40
  | .invalidAddressingMode | .invalidOperand => 41
  | .divisionByZero => 42
  | .stackOverflow | .stackUnderflow => 43
  | .invalidCodeAddress => 44
  | .consoleClosed => 45
  | .storageFailure => 46
  | .engineNotRunnable => 47

/-- A hint for the writer of the program. -/
def help? : ErrorKind → Option String
  | .undefinedInstruction =>
    some "check the list of available instructions in the documentation"
  | .nullDataPointer =>
    some "data references must name a variable declared inside a `.DATA` block"
  | .nullFunctionPointer => some "labels are declared on their own line as `.name`"
  | .invalidRegisterCode => some "registers are al..fh, ax..fx, pc, sp, ss, se, di and dp"
  | .entryPointNotFound => some "every program needs a `.MAIN` label"
  | .invalidLiteral =>
    some "literals are decimal, 0x-prefixed hex or quoted characters, 0 to 255"
  | .invalidOperandCount => some "check the operands for this instruction"
  | .operandOutOfRange =>
    some "operand values are stored in a single byte; use a register or indirect address"
  | .duplicateSymbol => some "labels and variables may only be defined once per file"
  | .unterminatedString => some "make sure to close string literals with a \" character"
  | .malformedData =>
    some "a data block is `.DATA`, optional `org <addr>`, `name values...` lines and `end`"
  | _ => none

end ErrorKind

/-- The name of the label that execution starts from. -/
def entryLabel : String := "MAIN"

/-- The reasons for a failure. -/
inductive Cause where
  -- memory and registers
  | addressOutside (address : Nat) (last : UInt16)
  | memorySize (size max : Nat)
  | segmentShares (stack data : Nat)
  | segmentsOverlap (stack data size : Nat)
  | memoryImageTooLarge (length size : Nat)
  | registerOverflow (register : Register) (value : Nat)
  | programCounterProtected
  -- source text
  | unterminatedLiteral
  | invalidInteger (text : String)
  | characterLiteral (text : String)
  -- layout of data and code
  | valueExpected (max : Nat) (text : String)
  | characterWithoutByte (c : Char)
  | invalidLabelName (name : String)
  | duplicateLabel (name : String)
  | duplicateVariable (name : String)
  | originWithoutAddress
  | variableNameExpected (text : String)
  | dataNotClosed
  | textAfterDataEnd (text : String)
  | tooManyOperands (found : Nat)
  | literalAtLineStart
  | codeSpaceExhausted
  -- encoding of statements
  | entryLabelMissing
  | entryLabelAtEnd
  | unknownMnemonic (text : String)
  | operandCount (opcode : Opcode) (found : Nat)
  | variableNotDefined (name : String)
  | labelNotDefined (name : String)
  | notARegisterId (text : String)
  | notANumberOrRegister (text : String)
  | stringWithoutBytes (text : String)
  | malformedStringOperand (text : String)
  | operandTooLarge (text : String) (value : Nat)
  -- program images
  | imageTooShort (length : Nat)
  | memoryEndMissing
  | textEndMissing
  | undefinedOpcode (code : UInt8)
  | truncatedAtRomEnd (opcode : Opcode)
  | truncatedAt (opcode : Opcode) (address : Nat)
  | entryOutsideRom (entry : UInt16) (romLength : Nat)
  | entryOutsideProgram (entry : UInt16)
  | unknownArchitecture (marker : UInt8)
  | architectureNotImplemented (width : ArchWidth)
  | architectureMismatch (image machine : ArchWidth)
  -- execution
  | unknownModeTag (tag : UInt8)
  | registerIdUnknown (id : UInt8)
  | operandNotWritable (operand : Operand)
  | operandWithoutAddress (operand : Operand)
  | divisionByZero (dividend : Nat)
  | stackOverflow (base : UInt16)
  | stackUnderflow
  | codeAddressOutside (address : UInt16) (romLength : Nat)
  | programCounterOverrun
  | invalidInterrupt (code : UInt8)
  | invalidFileOperation (code : UInt8)
  | inputExhausted
  | consoleBroken
  | fileInaccessible (name : String) (reason : FileError)
  | notRunnable (status : Status)
deriving DecidableEq, Repr

namespace Cause

/-- The kind of a cause. -/
def kind : Cause → ErrorKind
  | .addressOutside .. => .invalidMemoryAddress
  | .memorySize .. | .segmentShares .. | .segmentsOverlap .. | .memoryImageTooLarge .. =>
    .invalidMemoryLayout
  | .registerOverflow .. => .cpuSizeViolation
  | .programCounterProtected => .protectedRegisterWrite
  | .unterminatedLiteral => .unterminatedString
  | .invalidInteger _ | .characterLiteral _ | .valueExpected .. | .characterWithoutByte _
  | .stringWithoutBytes _ | .malformedStringOperand _ => .invalidLiteral
  | .invalidLabelName _ | .originWithoutAddress | .variableNameExpected _ | .dataNotClosed
  | .textAfterDataEnd _ => .malformedData
  | .duplicateLabel _ | .duplicateVariable _ => .duplicateSymbol
  | .tooManyOperands _ | .operandCount .. => .invalidOperandCount
  | .literalAtLineStart | .unknownMnemonic _ | .undefinedOpcode _ => .undefinedInstruction
  | .codeSpaceExhausted | .operandTooLarge .. => .operandOutOfRange
  | .entryLabelMissing | .entryLabelAtEnd | .entryOutsideRom .. | .entryOutsideProgram _ =>
    .entryPointNotFound
  | .variableNotDefined _ => .nullDataPointer
  | .labelNotDefined _ => .nullFunctionPointer
  | .notARegisterId _ | .notANumberOrRegister _ | .registerIdUnknown _ => .invalidRegisterCode
  | .imageTooShort _ | .memoryEndMissing | .textEndMissing | .truncatedAtRomEnd _
  | .truncatedAt .. => .malformedImage
  | .unknownArchitecture _ | .architectureNotImplemented _ | .architectureMismatch .. =>
    .unsupportedArchitecture
  | .unknownModeTag _ => .invalidAddressingMode
  | .operandNotWritable _ | .operandWithoutAddress _ => .invalidOperand
  | .divisionByZero _ => .divisionByZero
  | .stackOverflow _ => .stackOverflow
  | .stackUnderflow => .stackUnderflow
  | .codeAddressOutside .. | .programCounterOverrun => .invalidCodeAddress
  | .invalidInterrupt _ | .invalidFileOperation _ => .invalidInterrupt
  | .inputExhausted | .consoleBroken => .consoleClosed
  | .fileInaccessible .. => .storageFailure
  | .notRunnable _ => .engineNotRunnable

/-- The words that tell a cause. -/
def message : Cause → String
  | .addressOutside address last =>
    "Memory address 0x" ++ Text.hex 4 address ++ " is outside of [0x0000, 0x" ++
      Text.hex 4 last.toNat ++ "]"
  | .memorySize size max =>
    "Memory size " ++ toString size ++ " is outside of the supported range 16..=" ++
      toString max
  | .segmentShares stack data =>
    "Segment percentages must be at most 100 (stack " ++ toString stack ++ ", data " ++
      toString data ++ ")"
  | .segmentsOverlap stack data size =>
    "Stack (" ++ toString stack ++ "%) and data (" ++ toString data ++
      "%) segments do not fit in " ++ toString size ++ " bytes"
  | .memoryImageTooLarge length size =>
    "Program memory image of " ++ toString length ++ " bytes does not fit in " ++
      toString size ++ " bytes"
  | .registerOverflow register value =>
    "Value " ++ toString value ++ " does not fit register `" ++ register.name ++
      "` (maximum " ++ toString register.width.max ++ ")"
  | .programCounterProtected => "Writing `pc` directly is disabled"
  | .unterminatedLiteral => "Encountered an unterminated literal"
  | .invalidInteger text => "Encountered an invalid literal `" ++ text ++ "`"
  | .characterLiteral text => "Character literal '" ++ text ++ "' must be a single byte"
  | .valueExpected max text =>
    "Expected a value from 0 to " ++ toString max ++ ", found `" ++ text ++ "`"
  | .characterWithoutByte c => "Character `" ++ c.toString ++ "` does not fit in a byte"
  | .invalidLabelName name => "`" ++ name ++ "` is not a valid label name"
  | .duplicateLabel name => "Label `" ++ name ++ "` is defined more than once"
  | .duplicateVariable name => "Variable `" ++ name ++ "` is defined more than once"
  | .originWithoutAddress => "`org` expects an address"
  | .variableNameExpected text => "Expected a variable name, found `" ++ text ++ "`"
  | .dataNotClosed => "Data block is missing its closing `end`"
  | .textAfterDataEnd text => "Unexpected `" ++ text ++ "` after `end`"
  | .tooManyOperands found =>
    "Statements take at most two operands, found " ++ toString found
  | .literalAtLineStart => "Lines should start with an instruction or label"
  | .codeSpaceExhausted => "Program does not fit in the code space"
  | .entryLabelMissing => "Program has no `." ++ entryLabel ++ "` label"
  | .entryLabelAtEnd => "`." ++ entryLabel ++ "` is not followed by any instruction"
  | .unknownMnemonic text => "Unknown instruction `" ++ text ++ "`"
  | .operandCount opcode found =>
    "`" ++ opcode.mnemonic ++ "` takes " ++ toString opcode.arity ++
      " operand(s), found " ++ toString found
  | .variableNotDefined name => "Variable `" ++ name ++ "` is not defined"
  | .labelNotDefined name => "Label `" ++ name ++ "` is not defined"
  | .notARegisterId text => "`" ++ text ++ "` is not a register id"
  | .notANumberOrRegister text => "`" ++ text ++ "` is neither a number nor a register"
  | .stringWithoutBytes text =>
    "String literal \"" ++ text ++ "\" has characters outside one byte"
  | .malformedStringOperand text => "Malformed string operand `" ++ text ++ "`"
  | .operandTooLarge text value =>
    "`" ++ text ++ "` resolves to " ++ toString value ++ ", which does not fit in a byte"
  | .imageTooShort length =>
    "Image is " ++ toString length ++ " bytes, too short to hold its metadata"
  | .memoryEndMissing => "Image has no memory section end marker"
  | .textEndMissing => "Image has no text section end marker"
  | .undefinedOpcode code => "Encountered undefined opcode 0x" ++ Text.hex 2 code.toNat
  | .truncatedAtRomEnd opcode =>
    "Instruction `" ++ opcode.mnemonic ++ "` at the end of the ROM is truncated"
  | .truncatedAt opcode address =>
    "Instruction `" ++ opcode.mnemonic ++ "` at 0x" ++ Text.hex 4 address ++ " is truncated"
  | .entryOutsideRom entry romLength =>
    "Entry point 0x" ++ Text.hex 4 entry.toNat ++ " is outside of the " ++
      toString romLength ++ "-byte ROM"
  | .entryOutsideProgram entry =>
    "Entry point 0x" ++ Text.hex 4 entry.toNat ++ " is outside of the ROM"
  | .unknownArchitecture marker => "Unknown architecture marker " ++ toString marker.toNat
  | .architectureNotImplemented width =>
    "The " ++ width.text ++ " architecture is not implemented"
  | .architectureMismatch image machine =>
    "Program was built for the " ++ image.text ++ " machine, this one is " ++ machine.text
  | .unknownModeTag tag => "Unknown addressing mode tag 0x" ++ Text.hex 2 tag.toNat
  | .registerIdUnknown id => "Register id " ++ toString id.toNat ++ " does not exist"
  | .operandNotWritable operand => "Operand `" ++ operand.text ++ "` cannot be written to"
  | .operandWithoutAddress operand =>
    "Operand `" ++ operand.text ++ "` has no memory address"
  | .divisionByZero dividend => "Division of " ++ toString dividend ++ " by zero"
  | .stackOverflow base =>
    "Stack overflow: push below segment base 0x" ++ Text.hex 4 base.toNat
  | .stackUnderflow => "Stack underflow: pop from an empty stack"
  | .codeAddressOutside address romLength =>
    "Code address 0x" ++ Text.hex 4 address.toNat ++ " is outside of the " ++
      toString romLength ++ "-byte ROM"
  | .programCounterOverrun => "Program counter ran past 0xffff"
  | .invalidInterrupt code => "invalid interrupt " ++ toString code.toNat
  | .invalidFileOperation code => "invalid file operation " ++ toString code.toNat
  | .inputExhausted => "Program requested input after the end of input"
  | .consoleBroken => "Console failed: broken console"
  | .fileInaccessible name reason =>
    "File `" ++ name ++ "` could not be accessed: " ++ reason.message
  | .notRunnable status => "Cannot execute while " ++ status.name

end Cause

end TeachingCpu
