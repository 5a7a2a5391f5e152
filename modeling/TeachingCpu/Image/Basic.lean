import TeachingCpu.Isa.Architecture
import TeachingCpu.Isa.Instruction

/-!
# Program images

An assembled program: its code, the contents of memory it starts with, and where it starts. As a
file it is one row of bytes,

    code, 0xFF, memory, 0xFE, width marker, low byte of the entry, high byte of the entry
-/

namespace TeachingCpu

/-- An assembled program. -/
structure Image where
  /-- Encoded instructions. -/
  rom : List UInt8
  /-- Memory from address 0 on. -/
  memory : List UInt8
  width : ArchWidth
  /-- Code address that execution starts from. -/
  entry : UInt16
deriving DecidableEq, Repr

namespace Image

/-- The byte behind the code. No instruction starts with it. -/
def romEnd : UInt8 := 0xff

/-- The byte behind the memory. -/
def memoryEnd : UInt8 := 0xfe

/-- The bytes behind the memory: width marker and entry. -/
def metadata (image : Image) : List UInt8 :=
  [image.width.marker, image.entry.toUInt8, (image.entry >>> 8).toUInt8]

/-- An image as a row of bytes. -/
def toBytes (image : Image) : List UInt8 :=
  image.rom ++ romEnd :: (image.memory ++ memoryEnd :: image.metadata)

end Image

end TeachingCpu
