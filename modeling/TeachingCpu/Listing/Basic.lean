import TeachingCpu.Image.Decode

/-!
# Listings

A listing is a program image together with the instructions of its code, each with its address.
`decodeRom` reads the instructions one after the other from the start of the code.
-/

namespace TeachingCpu

/-- An instruction and its code address, which has sixteen bits. -/
structure ListedInstruction where
  offset : UInt16
  instruction : Instruction
deriving DecidableEq, Repr

namespace ListedInstruction

/-- An instruction as listings and traces show it. -/
def text (l : ListedInstruction) : String := l.instruction.text l.offset

end ListedInstruction

/-- A program image and its instructions. -/
structure Listing where
  image : Image
  instructions : List ListedInstruction
deriving DecidableEq, Repr

namespace Listing

/-- The operands that pairs of bytes stand for. -/
def decodeOperands : List UInt8 → Except Error (List Operand)
  | tag :: value :: rest =>
    match Mode.ofTag? tag with
    | none => .error (.of (.unknownModeTag tag))
    | some mode => do
      let operands ← decodeOperands rest
      return ⟨mode, value⟩ :: operands
  | _ => .ok []

/-- The instructions of some code from an address on, after those of `done`, which is
reversed. -/
def decodeFrom (address : Nat) (rom : List UInt8) (done : List ListedInstruction) :
    Except Error (List ListedInstruction) :=
  match rom with
  | [] => .ok done.reverse
  | code :: rest =>
    match Opcode.ofCode? code with
    | none => .error (.of (.undefinedOpcode code))
    | some op =>
      let bytes := rest.take (2 * op.arity)
      if bytes.length < 2 * op.arity then .error (.of (.truncatedAt op address))
      else match decodeOperands bytes with
        | .error e => .error e
        | .ok operands =>
          decodeFrom (address + op.length) (rest.drop (2 * op.arity))
            (⟨address.toUInt16, op, operands⟩ :: done)
termination_by rom.length
decreasing_by
  simp only [List.length_drop, List.length_cons]
  omega

/-- The instructions of some code. -/
def decodeRom (rom : List UInt8) : Except Error (List ListedInstruction) := decodeFrom 0 rom []

/-- The listing of an image. -/
def ofImage (image : Image) : Except Error Listing := do
  let instructions ← decodeRom image.rom
  return ⟨image, instructions⟩

/-- Every operand of a listing, in order. -/
def operands (l : Listing) : List Operand :=
  l.instructions.flatMap (·.instruction.operands)

end Listing

/-- The listing of an image that is a row of bytes. -/
def disassemble (bytes : List UInt8) : Except Error Listing := do
  let image ← Image.ofBytes bytes
  Listing.ofImage image

end TeachingCpu
