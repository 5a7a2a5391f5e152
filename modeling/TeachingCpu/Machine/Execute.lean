import TeachingCpu.Debugger.Session
import TeachingCpu.Machine.Fetch
import TeachingCpu.Service.Dispatch

/-!
# Effects of instructions

What each instruction does once it is fetched. The width of most accesses is that of the first
operand that is a register, else a byte.
-/

namespace TeachingCpu

/-- What an instruction does. -/
inductive Effect where
  | nothing
  | halt
  | move
  | arithmetic (operation : Operation)
  | compare
  | complement
  /-- An operation on one operand and the number 1. -/
  | countBy (operation : Operation)
  | jump (condition : Condition)
  | call
  | ret
  | push
  | pop
  | interrupt
  | setFlag (flag : Flag) (value : Bool)
  | loadAddress
deriving DecidableEq, Repr

/-- The effect of an instruction. -/
def Opcode.effect : Opcode → Effect
  | .nop => .nothing
  | .halt => .halt
  | .mov => .move
  | .add => .arithmetic .add
  | .sub => .arithmetic .sub
  | .mul => .arithmetic .mul
  | .div => .arithmetic .div
  | .mod => .arithmetic .mod
  | .and => .arithmetic .and
  | .or => .arithmetic .or
  | .xor => .arithmetic .xor
  | .shl => .arithmetic .shl
  | .shr => .arithmetic .shr
  | .cmp => .compare
  | .not => .complement
  | .inc => .countBy .add
  | .dec => .countBy .sub
  | .jmp => .jump .always
  | .je => .jump .equal
  | .jne => .jump .notEqual
  | .jl => .jump .less
  | .jg => .jump .greater
  | .jle => .jump .lessOrEqual
  | .jge => .jump .greaterOrEqual
  | .jc => .jump .carry
  | .jo => .jump .overflow
  | .call => .call
  | .ret => .ret
  | .push => .push
  | .pop => .pop
  | .int => .interrupt
  | .sti => .setFlag .interrupt true
  | .cli => .setFlag .interrupt false
  | .tron => .setFlag .trap true
  | .troff => .setFlag .trap false
  | .lea => .loadAddress

/-- The width of the accesses of an instruction with some operands. -/
def accessWidth (operands : List Operand) : Width :=
  ((operands.findSome? Operand.register?).map Register.width).getD .byte

namespace Cpu

/-- The register that an operand names. -/
def registerOf (o : Operand) : Attempt Cpu Register :=
  match o.register? with
  | some r => pure r
  | none => Attempt.fail (.registerIdUnknown o.value)

/-- Reads a byte or a word from memory. -/
def load (address : Nat) : Width → Attempt Cpu UInt16
  | .byte => do
    let b ← readMemory (·.readByte address)
    return b.toUInt16
  | .word => readMemory (·.readWord address)

/-- Writes a byte or a word to memory. -/
def store (address : Nat) (value : UInt16) : Width → Attempt Cpu Unit
  | .byte => writeMemory (·.writeByte address value.toUInt8)
  | .word => writeMemory (·.writeWord address value)

/-- Reads an operand. Labels and string literals read as their addresses. -/
def readOperand (o : Operand) (w : Width) : Attempt Cpu UInt16 :=
  match o.mode with
  | .register => do
    let r ← registerOf o
    let cpu ← get
    return cpu.reg r
  | .direct | .data => load o.value.toNat w
  | .indirect => do
    let pointer ← readMemory (·.readWord o.value.toNat)
    load pointer.toNat w
  | .immediate | .label | .str => return o.value.toUInt16

/-- Writes an operand. -/
def writeOperand (o : Operand) (w : Width) (value : UInt16) : Attempt Cpu Unit :=
  match o.mode with
  | .register => do
    let r ← registerOf o
    writeRegister r value.toNat
  | .direct | .data => store o.value.toNat value w
  | .indirect => do
    let pointer ← readMemory (·.readWord o.value.toNat)
    store pointer.toNat value w
  | .immediate | .label | .str => Attempt.fail (.operandNotWritable o)

/-- The address that an operand names in memory. -/
def addressOf (o : Operand) : Attempt Cpu UInt16 :=
  match o.mode with
  | .direct | .data | .str => return o.value.toUInt16
  | .indirect => readMemory (·.readWord o.value.toNat)
  | .register | .immediate | .label => Attempt.fail (.operandWithoutAddress o)

/-- The result of an operation on two values, which are cut to a width. Sets the flags. -/
def compute (operation : Operation) (w : Width) (a b : UInt16) : Attempt Cpu UInt16 := do
  let a := a.toNat % w.size
  let b := b.toNat % w.size
  match operation.apply w a b with
  | none => Attempt.fail (.divisionByZero a)
  | some result =>
    modify fun cpu =>
      ((cpu.setResultFlags w result.value).setFlag .carry result.carry).setFlag .overflow
        result.overflow
    return result.value.toUInt16

/-- An operation on two operands, whose result goes to the first. -/
def arithmetic (operation : Operation) (w : Width) (target source : Operand) :
    Attempt Cpu Unit := do
  let a ← readOperand target w
  let b ← readOperand source w
  let result ← compute operation w a b
  writeOperand target w result

/-- An operation on an operand and the number 1, whose result goes to the operand. -/
def countBy (operation : Operation) (w : Width) (target : Operand) : Attempt Cpu Unit := do
  let a ← readOperand target w
  let result ← compute operation w a 1
  writeOperand target w result

/-- A subtraction for its flags. -/
def compare (w : Width) (left right : Operand) : Attempt Cpu Unit := do
  let a ← readOperand left w
  let b ← readOperand right w
  let _ ← compute .sub w a b
  return ()

/-- Inverts every bit of an operand. -/
def complement (w : Width) (target : Operand) : Attempt Cpu Unit := do
  let a ← readOperand target w
  let result := w.max - a.toNat % w.size
  modify fun cpu =>
    ((cpu.setResultFlags w result).setFlag .carry false).setFlag .overflow false
  writeOperand target w result.toUInt16

/-- Copies an operand to another. -/
def move (w : Width) (target source : Operand) : Attempt Cpu Unit := do
  let value ← readOperand source w
  writeOperand target w value

/-- Goes to an address if the flags meet a condition. -/
def jump (condition : Condition) (target : Operand) : Attempt Cpu Unit := do
  let cpu ← get
  if condition.holds cpu.flags then
    let address ← readOperand target .word
    modify (·.setPc address)

/-- Goes to an address and remembers the way back. -/
def call (target : Operand) : Attempt Cpu Unit := do
  let address ← readOperand target .word
  let cpu ← get
  enterCall cpu.pc
  modify (·.setPc address)

/-- Goes back to where the innermost call came from. -/
def ret : Attempt Cpu Unit := do
  let address ← leaveCall
  modify (·.setPc address)

/-- Puts an operand on the stack. -/
def pushOperand (source : Operand) : Attempt Cpu Unit := do
  let value ← readOperand source .word
  push value

/-- Takes an operand off the stack. -/
def popOperand (target : Operand) : Attempt Cpu Unit := do
  let value ← pop
  writeOperand target .word value

/-- Copies the address of an operand to another. -/
def loadAddress (target source : Operand) : Attempt Cpu Unit := do
  let address ← addressOf source
  writeOperand target .word address

/-- The effects that concern the processor alone. An instruction that is fetched has as many
operands as its effect needs. -/
def perform (effect : Effect) (operands : List Operand) : Attempt Cpu Unit :=
  let w := accessWidth operands
  match effect, operands with
  | .move, [target, source] => move w target source
  | .arithmetic operation, [target, source] => arithmetic operation w target source
  | .compare, [left, right] => compare w left right
  | .complement, [target] => complement w target
  | .countBy operation, [target] => countBy operation w target
  | .jump condition, [target] => jump condition target
  | .call, [target] => call target
  | .ret, [] => ret
  | .push, [source] => pushOperand source
  | .pop, [target] => popOperand target
  | .setFlag flag value, [] => modify (·.setFlag flag value)
  | .loadAddress, [target, source] => loadAddress target source
  | _, _ => pure ()

end Cpu

namespace Machine

/-- Opens the debugger. -/
def openDebugger : Attempt Machine Unit := do
  modify fun m => { m with debugged := true }
  let m ← get
  let resume ← Attempt.onPart Machine.bench (fun bench m => { m with bench })
    (Bench.onConsole (Debugger.session m.cpu))
  match resume with
  | .step => modify fun m => { m with breakPending := true }
  | .go => pure ()
  | .quit =>
    modify fun m => { m with status := .halted }.log .info fun _ =>
      "stopped from the debugger at 0x" ++ Text.hex 4 m.cpu.pc.toNat

/-- Serves an interrupt. -/
def interrupt : Attempt Machine Unit := do
  match ← Attempt.onPart Machine.bench (fun bench m => { m with bench }) Service.dispatch with
  | .handled | .invalid _ => pure ()
  | .debug => openDebugger

/-- Stops the program. -/
def halt : Attempt Machine Unit :=
  modify fun m => { m with status := .halted }.log .info fun _ =>
    "halted after " ++ toString m.instructions ++ " instructions (" ++ toString m.cycles ++
      " cycles)"

/-- Lets an instruction take effect. -/
def perform (i : Instruction) : Attempt Machine Unit :=
  match i.opcode.effect with
  | .halt => halt
  | .interrupt => interrupt
  | effect => onCpu (Cpu.perform effect i.operands)

end Machine

end TeachingCpu
