import TeachingCpu.Text.Blank

/-!
# The instruction set

Thirty-six instructions with dense opcodes. The number of operands decides the length of an
instruction, one byte and two more for each operand, and what it costs to run.
-/

namespace TeachingCpu

/-- The instructions. -/
inductive Opcode where
  | nop | halt | mov
  | add | sub | mul | div | mod | and | or | xor | not | shl | shr | inc | dec | cmp
  | jmp | je | jne | jl | jg | jle | jge | jc | jo
  | call | ret | push | pop | int | sti | cli | tron | troff | lea
deriving DecidableEq, Repr

namespace Opcode

/-- Every instruction, in the order of their opcodes. -/
def all : List Opcode :=
  [.nop, .halt, .mov,
    .add, .sub, .mul, .div, .mod, .and, .or, .xor, .not, .shl, .shr, .inc, .dec, .cmp,
    .jmp, .je, .jne, .jl, .jg, .jle, .jge, .jc, .jo,
    .call, .ret, .push, .pop, .int, .sti, .cli, .tron, .troff, .lea]

/-- The byte that an instruction starts with. -/
def code : Opcode → UInt8
  | .nop => 0x00 | .halt => 0x01 | .mov => 0x02 | .add => 0x03 | .sub => 0x04 | .mul => 0x05
  | .div => 0x06 | .mod => 0x07 | .and => 0x08 | .or => 0x09 | .xor => 0x0a | .not => 0x0b
  | .shl => 0x0c | .shr => 0x0d | .inc => 0x0e | .dec => 0x0f | .cmp => 0x10 | .jmp => 0x11
  | .je => 0x12 | .jne => 0x13 | .jl => 0x14 | .jg => 0x15 | .jle => 0x16 | .jge => 0x17
  | .jc => 0x18 | .jo => 0x19 | .call => 0x1a | .ret => 0x1b | .push => 0x1c | .pop => 0x1d
  | .int => 0x1e | .sti => 0x1f | .cli => 0x20 | .tron => 0x21 | .troff => 0x22 | .lea => 0x23

/-- The name of an instruction in source text. -/
def mnemonic : Opcode → String
  | .nop => "nop" | .halt => "halt" | .mov => "mov" | .add => "add" | .sub => "sub"
  | .mul => "mul" | .div => "div" | .mod => "mod" | .and => "and" | .or => "or"
  | .xor => "xor" | .not => "not" | .shl => "shl" | .shr => "shr" | .inc => "inc"
  | .dec => "dec" | .cmp => "cmp" | .jmp => "jmp" | .je => "je" | .jne => "jne"
  | .jl => "jl" | .jg => "jg" | .jle => "jle" | .jge => "jge" | .jc => "jc" | .jo => "jo"
  | .call => "call" | .ret => "ret" | .push => "push" | .pop => "pop" | .int => "int"
  | .sti => "sti" | .cli => "cli" | .tron => "tron" | .troff => "troff" | .lea => "lea"

/-- The number of operands. -/
def arity : Opcode → Nat
  | .nop | .halt | .ret | .int | .sti | .cli | .tron | .troff => 0
  | .not | .inc | .dec | .jmp | .je | .jne | .jl | .jg | .jle | .jge | .jc | .jo
  | .call | .push | .pop => 1
  | .mov | .add | .sub | .mul | .div | .mod | .and | .or | .xor | .shl | .shr | .cmp | .lea => 2

/-- Length in bytes: the opcode and two bytes for each operand. -/
def length (op : Opcode) : Nat := 1 + 2 * op.arity

/-- Cost of running an instruction. -/
def cycles (op : Opcode) : Nat := 1 + 2 * op.arity

/-- The instruction that a byte starts, if it starts one. -/
def ofCode? (code : UInt8) : Option Opcode := all[code.toNat]?

/-- The instruction with a name, in any letter case. -/
def ofMnemonic? (s : String) : Option Opcode :=
  let wanted := Text.lower s
  all.find? (·.mnemonic == wanted)

theorem ofCode?_code (op : Opcode) : ofCode? op.code = some op := by
  cases op <;> rfl

end Opcode

/-- Length in bytes of a statement with a number of tokens: a mnemonic and at most two
operands. -/
def statementLength? (tokens : Nat) : Option Nat :=
  if 1 ≤ tokens ∧ tokens ≤ 3 then some (1 + 2 * (tokens - 1)) else none

theorem statementLength?_of_le {operands : Nat} (h : operands ≤ 2) :
    statementLength? (operands + 1) = some (1 + 2 * operands) :=
  if_pos ⟨Nat.succ_pos operands, Nat.succ_le_succ h⟩

theorem statementLength?_of_gt {operands : Nat} (h : 2 < operands) :
    statementLength? (operands + 1) = none :=
  if_neg fun htokens => Nat.not_le_of_lt h (Nat.le_of_succ_le_succ htokens.2)

end TeachingCpu
