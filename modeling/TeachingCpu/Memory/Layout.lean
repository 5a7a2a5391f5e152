import TeachingCpu.Error.Basic

/-!
# Memory layout

Memory has three parts. Programs put their data at the bottom, the data segment lies above it,
and the stack is at the top and grows downwards:

    0 .. dataStart            data of the program
    dataStart .. stackStart   data segment
    stackStart .. size        stack

The two segments are shares of the size in percent; each holds at least one byte and leaves at
least one.
-/

namespace TeachingCpu

/-- The boundaries of the segments. Addresses have sixteen bits. -/
structure Layout where
  size : Nat
  dataStart : UInt16
  stackStart : UInt16
deriving DecidableEq, Repr

namespace Layout

/-- Smallest memory with room for both segments. -/
def minSize : Nat := 16

/-- The size of a segment that takes a share of the memory. -/
def segmentSize (size percent : Nat) : Nat :=
  max 1 (min (size * percent / 100) (size - 1))

/-- The layout of a memory whose size is at most `max`, with two shares in percent. -/
def ofShares (size stackPercent dataPercent max : Nat) : Except Error Layout :=
  let stack := segmentSize size stackPercent
  let data := segmentSize size dataPercent
  if size < minSize ∨ max < size then
    .error (.of (.memorySize size max))
  else if 100 < stackPercent ∨ 100 < dataPercent then
    .error (.of (.segmentShares stackPercent dataPercent))
  else if size < stack + data then
    .error (.of (.segmentsOverlap stackPercent dataPercent size))
  else
    .ok ⟨size, (size - stack - data).toUInt16, (size - stack).toUInt16⟩

/-- The largest address of the memory. -/
def lastAddressable (l : Layout) : UInt16 := (l.size - 1).toUInt16

end Layout

end TeachingCpu
