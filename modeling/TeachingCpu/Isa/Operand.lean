import TeachingCpu.Isa.Register
import TeachingCpu.Text.Number

/-!
# Operands

An operand is stored as two bytes: a tag that says how to read it, and a value.
-/

namespace TeachingCpu

/-- How the value of an operand is read. -/
inductive Mode where
  /-- The value is the number of a register. -/
  | register
  /-- The value is an address. -/
  | direct
  /-- The value is the address of a word that holds an address. -/
  | indirect
  /-- The value itself. -/
  | immediate
  /-- The value is the address of a variable. -/
  | data
  /-- The value is the address of a string literal. -/
  | str
  /-- The value is the code address of a label. -/
  | label
deriving DecidableEq, Repr

namespace Mode

/-- Every mode, in the order of their tags. -/
def all : List Mode := [.register, .direct, .indirect, .immediate, .data, .str, .label]

/-- The byte stored in front of a value. -/
def tag : Mode → UInt8
  | .register => 1
  | .direct => 2
  | .indirect => 3
  | .immediate => 4
  | .data => 5
  | .str => 6
  | .label => 7

/-- The mode with a tag. -/
def ofTag? (tag : UInt8) : Option Mode := all.find? (·.tag == tag)

/-- The character in front of an operand of this mode in source text, if it has one. -/
def sigil? : Mode → Option Char
  | .register => some '%'
  | .direct => some '&'
  | .indirect => some '*'
  | .immediate => some '$'
  | .data => some '@'
  | .str => some '"'
  | .label => none

/-- The mode that the first character of an operand selects: a label where it is no sigil. -/
def ofSigil (c : Char) : Mode :=
  (all.find? (·.sigil? == some c)).getD .label

/-- The name of a mode. -/
def name : Mode → String
  | .register => "Register"
  | .direct => "Direct"
  | .indirect => "Indirect"
  | .immediate => "Immediate"
  | .data => "Data"
  | .str => "Str"
  | .label => "Label"

theorem ofTag?_tag (m : Mode) : ofTag? m.tag = some m := by
  cases m <;> rfl

end Mode

/-- An operand as it is stored. -/
structure Operand where
  mode : Mode
  value : UInt8
deriving DecidableEq, Repr

namespace Operand

/-- The register that an operand names, if it names one. -/
def register? (o : Operand) : Option Register :=
  match o.mode with
  | .register => Register.ofId? o.value.toNat
  | _ => none

/-- The two bytes of an operand. -/
def toBytes (o : Operand) : List UInt8 := [o.mode.tag, o.value]

/-- An operand with its addresses as numbers, as traces and listings show it. -/
def text (o : Operand) : String :=
  let value := toString o.value.toNat
  match o.mode with
  | .register =>
    match o.register? with
    | some r => "%" ++ r.name
    | none => "%" ++ value
  | .direct => "&" ++ value
  | .indirect => "*" ++ value
  | .immediate => "$" ++ value
  | .data => "@[" ++ value ++ "]"
  | .str => "str@" ++ value
  | .label => "0x" ++ Text.hex 4 o.value.toNat

end Operand

end TeachingCpu
