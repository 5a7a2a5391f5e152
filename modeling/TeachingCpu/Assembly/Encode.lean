import TeachingCpu.Assembly.Draft
import TeachingCpu.Image.Basic

/-!
# Encoding a program

The second pass over a source turns the statements of a draft into instructions. String literals
that stand as operands are put into memory behind the data, each text once. `assemble` runs both
passes.
-/

namespace TeachingCpu

/-- The string literals that are in memory. -/
structure StringPool where
  memory : Memory
  /-- Where the next literal goes. -/
  next : Nat
  /-- Addresses of the literals, by their text. -/
  interned : SymbolTable := {}

namespace StringPool

/-- The address of a literal, which is put into memory at its first use. -/
def intern (text : String) : Attempt StringPool Nat := do
  let pool ← get
  match pool.interned.find? text with
  | some address => return address
  | none =>
    match Text.toBytes text with
    | .error _ => Attempt.fail (.stringWithoutBytes text)
    | .ok bytes =>
      let (terminator, memory) ← Attempt.ofExcept (pool.memory.storeString pool.next bytes)
      set { pool with
        memory
        next := terminator + 1
        interned := pool.interned.define text pool.next }
      return pool.next

end StringPool

namespace Draft

/-- The number of a register that is written by name or number. -/
def registerId (text : String) : Except Error Nat :=
  match Register.ofName? text with
  | some r => .ok r.id
  | none =>
    match Text.readInteger? text with
    | none => .error (.of (.notANumberOrRegister text))
    | some n =>
      match Register.ofId? n with
      | some r => .ok r.id
      | none => .error (.of (.notARegisterId text))

/-- A number, or the number of a register that is written by name. -/
def numberOrRegister (text : String) : Except Error Nat :=
  match Register.ofName? text with
  | some r => .ok r.id
  | none =>
    match Text.readInteger? text with
    | some n => .ok n
    | none => .error (.of (.notANumberOrRegister text))

/-- The value of an operand, which has to fit in a byte. -/
def operandByte (text : String) (n : Nat) : Except Error UInt8 :=
  if n ≤ 255 then .ok n.toUInt8 else .error (.of (.operandTooLarge text n))

/-- The name of a label where it is written with or without its dot. -/
def labelText (text : String) : String :=
  match text.toList with
  | '.' :: rest => String.ofList rest
  | _ => text

/-- The mode of an operand that is a word, and its value. -/
def wordOperand (draft : Draft) (text : String) : Except Error (Mode × Nat) :=
  let rest := String.ofList (text.toList.drop 1)
  match (text.toList.head?.map Mode.ofSigil).getD .label with
  | .register => (registerId rest).map (.register, ·)
  | .direct => (numberOrRegister rest).map (.direct, ·)
  | .indirect => (numberOrRegister rest).map (.indirect, ·)
  | .immediate => (numberOrRegister rest).map (.immediate, ·)
  | .data =>
    match draft.vars.find? rest with
    | some address => .ok (.data, address)
    | none => .error (.of (.variableNotDefined rest))
  | .label =>
    match draft.labels.find? (labelText text) with
    | some offset => .ok (.label, offset)
    | none => .error (.of (.labelNotDefined (labelText text)))
  | .str => .error (.of (.malformedStringOperand text))

/-- Encodes an operand. -/
def encodeOperand (draft : Draft) (t : Token) : Attempt StringPool Operand :=
  Attempt.mapError (·.atSpan t.span) do
    if t.kind = .str then
      let address ← StringPool.intern t.text
      let value ← Attempt.ofExcept (operandByte t.text address)
      return ⟨.str, value⟩
    else
      let (mode, n) ← Attempt.ofExcept (draft.wordOperand t.text)
      let value ← Attempt.ofExcept (operandByte t.text n)
      return ⟨mode, value⟩

/-- The instruction that a mnemonic names. -/
def opcode? (t : Token) : Option Opcode :=
  if t.kind = .word then Opcode.ofMnemonic? t.text else none

/-- Encodes a statement. -/
def encodeStatement (draft : Draft) (s : Statement) : Attempt StringPool Instruction :=
  Attempt.mapError (·.atLine s.line) do
    match opcode? s.mnemonic with
    | none =>
      throw ((Error.of (.unknownMnemonic s.mnemonic.text)).atSpan s.mnemonic.span)
    | some opcode =>
      if s.operands.length ≠ opcode.arity then
        throw ((Error.of (.operandCount opcode s.operands.length)).atSpan s.mnemonic.span)
      let operands ← s.operands.mapM draft.encodeOperand
      return ⟨opcode, operands⟩

/-- The code address of the label that execution starts from. An instruction has to follow it. -/
def entry (draft : Draft) : Except Error Nat :=
  match draft.labels.find? entryLabel with
  | none => .error (.of .entryLabelMissing)
  | some entry =>
    if draft.romLength ≤ entry then .error (.of .entryLabelAtEnd) else .ok entry

/-- The statements in source order. -/
def statementList (draft : Draft) : List Statement := draft.statements.reverse

/-- The pool of a draft before any literal is in it. -/
def emptyPool (draft : Draft) : StringPool :=
  { memory := draft.memory, next := draft.dataEnd }

/-- The second pass: the image of a draft, and the pool of its literals. -/
def encode (draft : Draft) : Except Error (Image × StringPool) := do
  let entry ← draft.entry
  match draft.statementList.mapM draft.encodeStatement draft.emptyPool with
  | .error e _ => throw e
  | .ok instructions pool =>
    return (⟨instructions.flatMap Instruction.toBytes, pool.memory.image, .bits16,
      entry.toUInt16⟩, pool)

end Draft

/-- Assembles a source for a machine. -/
def assemble (source : String) (config : Config) : Except Error Image := do
  let draft ← Draft.read source config
  let (image, _) ← draft.encode
  return image

end TeachingCpu
