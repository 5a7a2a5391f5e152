import TeachingCpu.Cpu.Basic
import TeachingCpu.Text.Latin1
import TeachingCpu.Text.Styled

/-!
# Reports on the processor

The tables that the debugger shows: registers, flags, memory and active calls.
-/

namespace TeachingCpu.Report

open Text

/-- A report in its final form: the plain form has no control sequences. -/
def finish (display : Display) (text : String) : String :=
  if display.minimal then decolored text else text

/-- The frame at the side of the register table. -/
def side (display : Display) : String := Style.paint .dimmed display "│"

/-- A row of the register table: name, value in three forms, and what follows. -/
def registerRow (display : Display) (cpu : Cpu) (r : Register) (rest : String) : String :=
  let value := cpu.reg r
  side display ++ " " ++ Style.paint .bold display r.name ++
    "  0x" ++ hex 4 value.toNat ++
    "  " ++ padLeft 6 ' ' (toString value.toNat) ++
    "  " ++ padLeft 6 ' ' (toString (signed value)) ++ rest ++ side display ++ "\n"

/-- The halves of a pair in the register table. -/
def halvesColumns (cpu : Cpu) (pair : Register) : String :=
  let (low, high) := pair.halves?.getD (pair, pair)
  "   0x" ++ hex 2 (cpu.reg high).toNat ++ "  0x" ++ hex 2 (cpu.reg low).toNat ++ " "

/-- The horizontal line of the register table between two corners. -/
def rule (display : Display) (left right : String) : String :=
  Style.paint .dimmed display
    (left ++ String.join (List.replicate 42 "─") ++ right) ++ "\n"

/-- The head of the register table. -/
def registerHead (display : Display) : String :=
  side display ++ "      " ++
    Style.paint .italic display "hex      uint     int   high  low  " ++ side display ++ "\n"

/-- The table of registers: the pairs with their halves, then the dedicated registers. The plain
form has a line with name and value for each register. -/
def registers (display : Display) (cpu : Cpu) : String :=
  if display.minimal then
    String.join (Register.all.map fun r =>
      r.name ++ " " ++ toString (cpu.reg r).toNat ++ "\n")
  else
    rule display "┌" "┐" ++ registerHead display ++
      String.join (Register.pairs.map fun r =>
        registerRow display cpu r (halvesColumns cpu r)) ++
      String.join (Register.dedicated.map fun r =>
        registerRow display cpu r "               ") ++
      rule display "└" "┘"

/-- The letter of a flag, a capital where the flag is set. -/
def flagLetter (display : Display) (flags : Flags) (flag : Flag) : String :=
  if flags.get flag then Style.paint .bold display flag.letter.toString
  else Style.paint .dimmed display flag.letter.toLower.toString

/-- The letters of the flags, and the flags as a number. -/
def flags (display : Display) (flags : Flags) : String :=
  finish display
    ("flags " ++ String.join (Flag.all.map (flagLetter display flags)) ++
      " (0b" ++ binary 7 flags.toNat ++ ")\n")

/-- Bytes in a row of a memory dump. -/
def dumpWidth : Nat := 16

/-- The character that shows a byte in a memory dump. -/
def dumpChar (b : UInt8) : Char :=
  if 0x20 ≤ b ∧ b ≤ 0x7e then charOfByte b else '.'

/-- A row of a memory dump: address, bytes and characters. -/
def dumpRow (display : Display) (address : Nat) (bytes : List UInt8) : String :=
  let columns := String.intercalate " " (bytes.map fun b => hex 2 b.toNat)
  Style.paint .bold display ("0x" ++ hex 4 address) ++
    "  " ++ padRight (dumpWidth * 3 - 1) columns ++
    "  " ++ Style.paint .dimmed display (String.ofList (bytes.map dumpChar)) ++ "\n"

/-- A dump of memory in rows of sixteen bytes. -/
def memory (display : Display) (m : Memory) (address length : Nat) : Except Error String := do
  let _ ← m.slice address length
  let rows := (List.range ((length + dumpWidth - 1) / dumpWidth)).map fun k =>
    dumpRow display (address + dumpWidth * k)
      (m.bytesAt (address + dumpWidth * k) (min dumpWidth (length - dumpWidth * k)))
  return finish display (String.join rows)

/-- The stack registers, and the return addresses of the active calls, the innermost first. -/
def callStack (display : Display) (cpu : Cpu) : String :=
  let head :=
    "sp 0x" ++ hex 4 (cpu.reg .sp).toNat ++ "  segment 0x" ++ hex 4 (cpu.reg .ss).toNat ++
      "..=0x" ++ hex 4 (cpu.reg .se).toNat ++ "\n"
  let calls :=
    if cpu.calls.isEmpty then Style.paint .dimmed display "(no active calls)" ++ "\n"
    else String.join (cpu.calls.mapIdx fun depth address =>
      "#" ++ padRight 3 (toString depth) ++ " return to 0x" ++ hex 4 address.toNat ++ "\n")
  finish display (head ++ calls)

end TeachingCpu.Report
