import TeachingCpu.Error.Basic
import TeachingCpu.Image.Basic

/-!
# Reading program images

The code of an image ends at the first end marker that stands where an instruction would start,
so a byte with its value inside an operand ends nothing. `Image.ofBytes` takes apart what
`Image.toBytes` puts together.
-/

namespace TeachingCpu.Image

/-- Takes the code of a machine off the front of some bytes: the bytes of its instructions, which
follow those of `done` in reverse order, and what stands behind its end marker. -/
def splitRom (machine : Architecture) (body : List UInt8) (done : List UInt8) :
    Except Error (List UInt8 × List UInt8) :=
  match body with
  | [] => .error (.of .textEndMissing)
  | code :: rest =>
    if code = romEnd then .ok (done.reverse, rest)
    else match machine.ofCode? code with
      | none => .error (.of (.undefinedOpcode code))
      | some op =>
        let operands := rest.take (2 * op.arity)
        if operands.length < 2 * op.arity then .error (.of (.truncatedAtRomEnd op))
        else splitRom machine (rest.drop (2 * op.arity)) (operands.reverse ++ code :: done)
termination_by body.length
decreasing_by
  simp only [List.length_drop, List.length_cons]
  omega

/-- The word with a low and a high byte. -/
def word (low high : UInt8) : UInt16 := low.toUInt16 + 256 * high.toUInt16

/-- Takes the end of the memory and the metadata off the back of some bytes: what stands in front
of them, the width marker and the entry. -/
def splitMetadata (bytes : List UInt8) : Except Error (List UInt8 × UInt8 × UInt16) :=
  match bytes.reverse with
  | high :: low :: marker :: last :: front@(_ :: _) =>
    if last = memoryEnd then .ok (front.reverse, marker, word low high)
    else .error (.of .memoryEndMissing)
  | _ => .error (.of (.imageTooShort bytes.length))

/-- The image that a row of bytes stands for. -/
def ofBytes (bytes : List UInt8) : Except Error Image := do
  let (body, marker, entry) ← splitMetadata bytes
  let some width := ArchWidth.ofMarker? marker
    | throw (.of (.unknownArchitecture marker))
  let some machine := Architecture.ofWidth? width
    | throw (.of (.architectureNotImplemented width))
  let (rom, memory) ← splitRom machine body []
  if rom.length ≤ entry.toNat then
    throw (.of (.entryOutsideRom entry rom.length))
  return ⟨rom, memory, width, entry⟩

end TeachingCpu.Image
