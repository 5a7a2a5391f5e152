/-!
# Places in source text
-/

namespace TeachingCpu

/-- A stretch of source text, in bytes. The length is kept in sixteen bits. -/
structure Span where
  offset : UInt32
  length : UInt16
deriving DecidableEq, Repr

/-- The stretch of `length` bytes from `offset`. -/
def Span.of (offset length : Nat) : Span := ⟨offset.toUInt32, length.toUInt16⟩

end TeachingCpu
