import TeachingCpu.Listing.Basic
import TeachingCpu.Text.Latin1

/-!
# Source text of a listing

`Listing.source` writes a program that assembles to the same instructions. Names are made up: the
entry is `MAIN`, other targets of label operands are named for their code address, variables for
their memory address. Memory that no operand reaches is declared too, so that nothing is lost.
-/

namespace TeachingCpu

namespace Listing

/-- Whether a byte can be shown in a string literal: a printable character or one of the escapes
for a line feed, a tab and a carriage return. -/
def isTextByte (b : UInt8) : Bool :=
  (0x20 ≤ b && b ≤ 0x7e) || b == 0x0a || b == 0x09 || b == 0x0d

/-- The characters that write a byte inside a string literal. -/
def quotedByte (b : UInt8) : List Char :=
  if b = 0x22 then ['\\', '"']
  else if b = 0x5c then ['\\', '\\']
  else if b = 0x0a then ['\\', 'n']
  else if b = 0x09 then ['\\', 't']
  else if b = 0x0d then ['\\', 'r']
  else [Text.charOfByte b]

/-- The string literal for some bytes. -/
def quoted (bytes : List UInt8) : String :=
  String.ofList ('"' :: (bytes.flatMap quotedByte ++ ['"']))

/-- The values that declare some bytes: a string literal if all can be shown, else numbers. -/
def dataLiteral (bytes : List UInt8) : String :=
  if bytes.all isTextByte then quoted bytes
  else String.intercalate " " (bytes.map fun b => toString b.toNat)

/-- The memory of the image from an address up to the next zero byte. -/
def groupAt (l : Listing) (address : Nat) : List UInt8 :=
  (l.image.memory.drop address).takeWhile (· != 0)

/-- The addresses that operands of a mode name, in ascending order. -/
def addresses (l : Listing) (mode : Mode) : List Nat :=
  let used := (l.operands.filter (·.mode = mode)).map (·.value.toNat)
  (List.range 256).filter used.contains

/-- The code addresses that label operands name. -/
def targets (l : Listing) : List Nat := l.addresses .label

/-- The name of the label at a code address, if there is one: the entry, or the target of a label
operand. -/
def labelAt? (l : Listing) (targets : List Nat) (offset : UInt16) : Option String :=
  if offset = l.image.entry then some entryLabel
  else if targets.contains offset.toNat then some ("L_" ++ Text.hex 4 offset.toNat)
  else none

/-- A scan over memory for runs of bytes that are not zero: the address it is at, whether the byte
before it is in a run, and the addresses where runs start, the last first. -/
structure RunScan where
  address : Nat := 0
  inRun : Bool := false
  starts : List Nat := []

/-- Takes in one more byte of memory. -/
def RunScan.add (s : RunScan) (b : UInt8) : RunScan :=
  if b = 0 then { s with address := s.address + 1, inRun := false }
  else if s.inRun then { s with address := s.address + 1 }
  else ⟨s.address + 1, true, s.address :: s.starts⟩

/-- The addresses where runs of bytes that are not zero start, in ascending order. -/
def runStarts (bytes : List UInt8) : List Nat :=
  (bytes.foldl RunScan.add {}).starts.reverse

/-- The addresses of the runs of memory that no operand reaches, in ascending order. An operand
that names the start of a run reaches all of it; one that names a place further inside leaves the
front of the run to be declared, and with it the whole run. -/
def unreached (l : Listing) : List Nat :=
  let reached := l.addresses .data ++ l.addresses .str
  (runStarts l.image.memory).filter (!reached.contains ·)

/-- The name of the variable at the address of a data operand. -/
def variableName (address : Nat) : String := "data_" ++ Text.hex 4 address

/-- The variables to declare and their names, in ascending order of their addresses. -/
def declaredVariables (l : Listing) : List (Nat × String) :=
  List.merge ((l.addresses .data).map fun a => (a, variableName a))
    (l.unreached.map fun a => (a, "mem_" ++ Text.hex 4 a)) fun a b => a.1 ≤ b.1

/-- The lines that declare a variable. -/
def declaration (l : Listing) (declared : Nat × String) : List String :=
  let (address, name) := declared
  let group := l.groupAt address
  ["org " ++ toString address,
    if group.isEmpty then name else name ++ " " ++ dataLiteral group]

/-- The data block, and an empty line behind it. -/
def dataLines (l : Listing) : List String :=
  match l.declaredVariables with
  | [] => []
  | declared => ".DATA" :: (declared.flatMap l.declaration ++ ["end", ""])

/-- An operand in source text. -/
def operandSource (l : Listing) (targets : List Nat) (o : Operand) : String :=
  match o.mode with
  | .data => "@" ++ variableName o.value.toNat
  | .str => quoted (l.groupAt o.value.toNat)
  | .label => (l.labelAt? targets o.value.toUInt16).getD ("L_" ++ Text.hex 4 o.value.toNat)
  | _ => o.text

/-- The line that defines the label at a code address, if there is one. -/
def labelLines (l : Listing) (targets : List Nat) (offset : UInt16) : List String :=
  match l.labelAt? targets offset with
  | some name => ["." ++ name]
  | none => []

/-- The lines of an instruction: its label if it has one, then the statement. -/
def instructionLines (l : Listing) (targets : List Nat) (i : ListedInstruction) :
    List String :=
  let operands := i.instruction.operands.map (l.operandSource targets)
  l.labelLines targets i.offset ++
    ["    " ++ String.intercalate " " (i.instruction.opcode.mnemonic :: operands)]

/-- The comment line at the top. -/
def headLine (l : Listing) : String :=
  "; " ++ l.image.width.text ++ " program, " ++ toString l.image.rom.length ++
    " ROM bytes, entry 0x" ++ Text.hex 4 l.image.entry.toNat

/-- The lines of a program that assembles to the same instructions. A label may stand behind the
last one. -/
def sourceLines (l : Listing) : List String :=
  let targets := l.targets
  l.headLine :: (l.dataLines ++ l.instructions.flatMap (l.instructionLines targets) ++
    l.labelLines targets l.image.rom.length.toUInt16)

/-- Source text of a program that assembles to the same instructions. -/
def source (l : Listing) : String :=
  String.join (l.sourceLines.map (· ++ "\n"))

end Listing

end TeachingCpu
