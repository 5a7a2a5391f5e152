/-!
# Written numbers

Padded hexadecimal, binary and decimal text, as it stands in messages, dumps and listings.
A number wider than its padding is written in full.
-/

namespace TeachingCpu.Text

/-- A text moved right by `fill` until it is `width` characters long. -/
def padLeft (width : Nat) (fill : Char) (s : String) : String :=
  String.ofList (s.toList.leftpad width fill)

/-- A text followed by spaces until it is `width` characters long. -/
def padRight (width : Nat) (s : String) : String :=
  String.ofList (s.toList.rightpad width ' ')

/-- Lower-case hexadecimal digits with leading zeros up to `width`. -/
def hex (width : Nat) (n : Nat) : String :=
  String.ofList ((Nat.toDigits 16 n).leftpad width '0')

/-- Binary digits with leading zeros up to `width`. -/
def binary (width : Nat) (n : Nat) : String :=
  String.ofList ((Nat.toDigits 2 n).leftpad width '0')

/-- The number that a word denotes in two's complement. -/
def signed (v : UInt16) : Int :=
  if v.toNat < 0x8000 then (v.toNat : Int) else (v.toNat : Int) - 0x10000

end TeachingCpu.Text
