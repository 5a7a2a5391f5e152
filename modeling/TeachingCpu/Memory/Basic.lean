import TeachingCpu.Memory.Layout

/-!
# Memory

A row of bytes that every access checks against the layout. `Memory.byteAt` is the view of a
memory: the byte at an address, zero outside. `byteAt_replace` says what a change does to it. An
access that fails gives an error and leaves the memory as it was.
-/

namespace TeachingCpu

/-- The bytes of a memory, as many as its layout says. -/
structure Memory where
  layout : Layout
  cells : ByteArray
  size_cells : cells.size = layout.size

namespace Memory

/-- Replaces the bytes from an address on by those of a list. -/
def overwrite (cells : ByteArray) (address : Nat) : List UInt8 → ByteArray
  | [] => cells
  | b :: bytes => overwrite (cells.set! address b) (address + 1) bytes

@[simp] theorem size_set! (cells : ByteArray) (i : Nat) (b : UInt8) :
    (cells.set! i b).size = cells.size := by
  cases cells
  simp [ByteArray.set!, ByteArray.size]

@[simp] theorem size_overwrite (cells : ByteArray) (address : Nat) (bytes : List UInt8) :
    (overwrite cells address bytes).size = cells.size := by
  induction bytes generalizing cells address with
  | nil => rfl
  | cons b bytes ih => simp [overwrite, ih]

/-- A memory of zeros. -/
def zeroed (layout : Layout) : Memory :=
  ⟨layout, ⟨Array.replicate layout.size 0⟩, Array.size_replicate⟩

/-- The byte at an address, zero outside the memory. -/
def byteAt (m : Memory) (address : Nat) : UInt8 :=
  if h : address < m.cells.size then m.cells.get address h else 0

/-- The bytes from an address on. -/
def bytesAt (m : Memory) (address length : Nat) : List UInt8 :=
  (List.range length).map fun i => m.byteAt (address + i)

/-- The memory with the bytes from an address on replaced, as far as they lie inside. -/
def replace (m : Memory) (address : Nat) (bytes : List UInt8) : Memory :=
  ⟨m.layout, overwrite m.cells address bytes, by simp [m.size_cells]⟩

@[simp] theorem layout_replace (m : Memory) (address : Nat) (bytes : List UInt8) :
    (m.replace address bytes).layout = m.layout := rfl

theorem get_set! (cells : ByteArray) (i k : Nat) (b : UInt8) (h : k < cells.size)
    (h' : k < (cells.set! i b).size) :
    (cells.set! i b).get k h' = if i = k then b else cells.get k h := by
  cases cells with
  | mk data => exact Array.getElem_setIfInBounds h

theorem get_overwrite (cells : ByteArray) (address k : Nat) (bytes : List UInt8)
    (h : k < cells.size) (h' : k < (overwrite cells address bytes).size) :
    (overwrite cells address bytes).get k h' =
      if address ≤ k then bytes.getD (k - address) (cells.get k h) else cells.get k h := by
  induction bytes generalizing cells address with
  | nil => exact (ite_self _).symm
  | cons b bytes ih =>
    have hs : k < (cells.set! address b).size := by simpa using h
    refine (ih (cells.set! address b) (address + 1) hs h').trans ?_
    rw [get_set! cells address k b h hs]
    generalize cells.get k h = old
    rcases Nat.lt_trichotomy address k with hlt | rfl | hgt
    · obtain ⟨d, rfl⟩ : ∃ d, k = address + 1 + d := ⟨k - (address + 1), by omega⟩
      rw [show address + 1 + d - address = d + 1 by omega,
        show address + 1 + d - (address + 1) = d by omega]
      simp [Nat.le_of_lt hlt, Nat.ne_of_lt hlt]
    · rw [if_neg (Nat.not_succ_le_self address)]
      simp
    · simp [show ¬ address + 1 ≤ k by omega, show ¬ address ≤ k by omega, Nat.ne_of_gt hgt]

theorem byteAt_of_lt {m : Memory} {k : Nat} (h : k < m.cells.size) :
    m.byteAt k = m.cells.get k h := dif_pos h

theorem byteAt_of_size_le {m : Memory} {k : Nat} (h : m.layout.size ≤ k) : m.byteAt k = 0 :=
  dif_neg (by rw [m.size_cells]; omega)

@[simp] theorem byteAt_zeroed (layout : Layout) (k : Nat) : (zeroed layout).byteAt k = 0 := by
  by_cases h : k < (zeroed layout).cells.size
  · exact (byteAt_of_lt h).trans (Array.getElem_replicate ..)
  · exact dif_neg h

/-- A byte behind a replacement: the new one where there is one, else the old one. -/
theorem byteAt_replace (m : Memory) (address k : Nat) (bytes : List UInt8) :
    (m.replace address bytes).byteAt k =
      if address ≤ k ∧ k < m.layout.size then bytes.getD (k - address) (m.byteAt k)
      else m.byteAt k := by
  by_cases hl : k < m.layout.size
  · have h : k < m.cells.size := m.size_cells ▸ hl
    have h' : k < (m.replace address bytes).cells.size :=
      (m.replace address bytes).size_cells ▸ hl
    rw [byteAt_of_lt h', byteAt_of_lt h]
    refine (get_overwrite m.cells address k bytes h h').trans ?_
    generalize m.cells.get k h = old
    simp [hl]
  · have hk : m.layout.size ≤ k := Nat.le_of_not_lt hl
    rw [if_neg (fun h => hl h.2), byteAt_of_size_le hk]
    exact byteAt_of_size_le hk

/-- Every byte in order. -/
def toList (m : Memory) : List UInt8 := m.cells.data.toList

/-- The memory with every byte zero. -/
def clear (m : Memory) : Memory := zeroed m.layout

/-- Refuses an address beyond the last one. -/
def check (m : Memory) (address : Nat) : Except Error Unit :=
  if address ≤ m.layout.lastAddressable.toNat then .ok ()
  else .error (.of (.addressOutside address m.layout.lastAddressable))

/-- The byte at an address. -/
def readByte (m : Memory) (address : Nat) : Except Error UInt8 := do
  m.check address
  return m.byteAt address

/-- Stores a byte at an address. -/
def writeByte (m : Memory) (address : Nat) (value : UInt8) : Except Error Memory := do
  m.check address
  return m.replace address [value]

/-- The word whose low byte is at an address and whose high byte is at the next. -/
def wordAt (m : Memory) (address : Nat) : UInt16 :=
  (m.byteAt address).toUInt16 + 256 * (m.byteAt (address + 1)).toUInt16

/-- The low and the high byte of a word. -/
def wordBytes (value : UInt16) : List UInt8 := [value.toUInt8, (value >>> 8).toUInt8]

/-- The word at an address. The address of its high byte is checked first. -/
def readWord (m : Memory) (address : Nat) : Except Error UInt16 := do
  m.check (address + 1)
  m.check address
  return m.wordAt address

/-- Stores a word at an address. -/
def writeWord (m : Memory) (address : Nat) (value : UInt16) : Except Error Memory := do
  m.check address
  m.check (address + 1)
  return m.replace address (wordBytes value)

/-- Reads on to the next zero byte, after the bytes of `done`, which is reversed. -/
def readStringFrom (m : Memory) (address : Nat) (done : List UInt8) :
    Except Error (List UInt8) :=
  if address ≤ m.layout.lastAddressable.toNat then
    if m.byteAt address = 0 then .ok done.reverse
    else readStringFrom m (address + 1) (m.byteAt address :: done)
  else .error (.of (.addressOutside address m.layout.lastAddressable))
termination_by m.layout.lastAddressable.toNat + 1 - address

/-- The bytes from an address up to the next zero byte. -/
def readString (m : Memory) (address : Nat) : Except Error (List UInt8) :=
  m.readStringFrom address []

/-- Stores bytes and a zero byte after them, and gives the address of the zero byte. -/
def storeString (m : Memory) (address : Nat) (bytes : List UInt8) :
    Except Error (Nat × Memory) := do
  let terminator := address + bytes.length
  m.check terminator
  return (terminator, m.replace address (bytes ++ [0]))

/-- Stores bytes and a zero byte after them. -/
def writeString (m : Memory) (address : Nat) (bytes : List UInt8) : Except Error Memory := do
  let (_, memory) ← m.storeString address bytes
  return memory

/-- Stores bytes from an address on. No bytes can be stored anywhere. -/
def load (m : Memory) (address : Nat) (bytes : List UInt8) : Except Error Memory := do
  if bytes.isEmpty then return m
  m.check (address + bytes.length - 1)
  return m.replace address bytes

/-- The bytes from an address on. No bytes can be taken from anywhere. -/
def slice (m : Memory) (address length : Nat) : Except Error (List UInt8) := do
  if length = 0 then return []
  m.check address
  m.check (address + length - 1)
  return m.bytesAt address length

/-- The contents without the zero bytes at the end. -/
def image (m : Memory) : List UInt8 :=
  (m.toList.reverse.dropWhile (· == 0)).reverse

end Memory

end TeachingCpu
