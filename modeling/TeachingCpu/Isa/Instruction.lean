import TeachingCpu.Isa.Opcode
import TeachingCpu.Isa.Operand

/-!
# Encoded instructions
-/

namespace TeachingCpu

/-- An instruction and its operands. -/
structure Instruction where
  opcode : Opcode
  operands : List Operand
deriving DecidableEq, Repr

namespace Instruction

/-- The bytes of an instruction: its opcode, then tag and value of each operand. -/
def toBytes (i : Instruction) : List UInt8 :=
  i.opcode.code :: i.operands.flatMap Operand.toBytes

/-- An instruction with the address it stands at, in the form of traces and listings. -/
def text (i : Instruction) (address : UInt16) : String :=
  Text.hex 4 address.toNat ++ "  " ++
    String.intercalate " " (i.opcode.mnemonic :: i.operands.map Operand.text)

end Instruction

end TeachingCpu
