/-!
# One byte, one character

Strings in memory hold one character per byte: byte `n` is the character with code point `n`.
Only the characters up to U+00FF have a byte.
-/

namespace TeachingCpu.Text

/-- The character that a byte stands for. -/
def charOfByte (b : UInt8) : Char :=
  Char.ofNat b.toNat

/-- The text that a run of bytes stands for. -/
def ofBytes (bytes : List UInt8) : String :=
  String.ofList (bytes.map charOfByte)

/-- The byte that stands for a character, if there is one. -/
def byteOfChar? (c : Char) : Option UInt8 :=
  if c.toNat ≤ 0xff then some c.toNat.toUInt8 else none

/-- The bytes that stand for a text, or its first character that has no byte. -/
def toBytes (s : String) : Except Char (List UInt8) :=
  s.toList.mapM fun c =>
    match byteOfChar? c with
    | some b => .ok b
    | none => .error c

end TeachingCpu.Text
