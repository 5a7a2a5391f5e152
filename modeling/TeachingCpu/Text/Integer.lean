/-!
# Integers in source text and commands

A number is written in decimal, or in hexadecimal after `0x` or `0X`, and is below 2³². The
hexadecimal digits may follow a `+`.
-/

namespace TeachingCpu.Text

/-- Numbers in source text are below this bound. -/
def integerBound : Nat := 0x1_0000_0000

/-- The value of a digit in a base of at most sixteen, in either letter case. -/
def digit? (base : Nat) (c : Char) : Option Nat :=
  let value :=
    if '0' ≤ c ∧ c ≤ '9' then some (c.toNat - '0'.toNat)
    else if 'a' ≤ c ∧ c ≤ 'f' then some (c.toNat - 'a'.toNat + 10)
    else if 'A' ≤ c ∧ c ≤ 'F' then some (c.toNat - 'A'.toNat + 10)
    else none
  value.filter (· < base)

/-- One more digit after a number read so far. -/
def appendDigit? (base : Nat) (n : Nat) (c : Char) : Option Nat :=
  match digit? base c with
  | some d => if base * n + d < integerBound then some (base * n + d) else none
  | none => none

/-- The number that one or more digits denote, if it is below the bound. -/
def readDigits? (base : Nat) (digits : List Char) : Option Nat :=
  if digits.isEmpty then none else digits.foldlM (appendDigit? base) 0

/-- Hexadecimal digits, after a `+` or on their own. -/
def readHex? : List Char → Option Nat
  | '+' :: digits => readDigits? 16 digits
  | digits => readDigits? 16 digits

/-- Whether a text starts as a hexadecimal number does. -/
def startsHex (cs : List Char) : Bool :=
  match cs with
  | '0' :: 'x' :: _ => true
  | '0' :: 'X' :: _ => true
  | _ => false

/-- The number that the characters of a text denote. -/
def readIntegerChars? (cs : List Char) : Option Nat :=
  if startsHex cs then readHex? (cs.drop 2) else readDigits? 10 cs

/-- The number that a text denotes: decimal digits, or hexadecimal ones after `0x` or `0X`. -/
def readInteger? (s : String) : Option Nat :=
  readIntegerChars? s.toList

end TeachingCpu.Text
