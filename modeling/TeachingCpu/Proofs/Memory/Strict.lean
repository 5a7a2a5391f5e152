import TeachingCpu.Proofs.Attempt.Strict
import TeachingCpu.Proofs.Memory.Cells

/-!
# Strict accesses to memory

A strict access takes every byte from its cell and breaks off where there is none, and the last
address and the boundaries of a layout are narrowed to words. A memory of at least one byte whose
addresses have sixteen bits never breaks off: every access checks the addresses that it goes to.
-/

namespace TeachingCpu

namespace Layout.Strict

/-- The largest address of a memory. -/
def lastAddressable (l : Layout) : Strict UInt16 := do
  let last ← Strict.minus l.size 1
  Strict.narrow last

/-- The layout of a memory, whose boundaries are words. -/
def ofShares (size stackPercent dataPercent max : Nat) : Strict Layout := do
  let stack := segmentSize size stackPercent
  let data := segmentSize size dataPercent
  if size < minSize ∨ max < size then
    Except.error (Error.of (.memorySize size max))
  else if 100 < stackPercent ∨ 100 < dataPercent then
    Except.error (Error.of (.segmentShares stackPercent dataPercent))
  else do
    let stackStart ← Strict.minus size stack
    if size < stack + data then
      Except.error (Error.of (.segmentsOverlap stackPercent dataPercent size))
    else do
      let dataStart ← Strict.narrow (stackStart - data)
      let stackStart ← Strict.narrow stackStart
      return ⟨size, dataStart, stackStart⟩

theorem lastAddressable_eq {l : Layout} (hmin : 0 < l.size) (hmax : l.size ≤ 65535) :
    lastAddressable l = some (.ok l.lastAddressable) :=
  (Strict.bind_of_ok (Strict.minus_of hmin)).trans (Strict.narrow_of (by omega))

theorem segmentSize_lt {size : Nat} (h : 2 ≤ size) (percent : Nat) :
    segmentSize size percent < size := by
  unfold segmentSize
  omega

theorem ofShares_eq {max : Nat} (hmax : max ≤ 65535) (size stackPercent dataPercent : Nat) :
    ofShares size stackPercent dataPercent max =
      some (Layout.ofShares size stackPercent dataPercent max) := by
  unfold ofShares Layout.ofShares
  dsimp only
  split
  · rfl
  · next hsize =>
    split
    · rfl
    · rw [minSize] at hsize
      have hstack : segmentSize size stackPercent < size := segmentSize_lt (by omega) stackPercent
      rw [Strict.bind_of_ok (Strict.minus_of (Nat.le_of_lt hstack))]
      split
      · rfl
      · rw [Strict.bind_of_ok (Strict.narrow_of (by omega)),
          Strict.bind_of_ok (Strict.narrow_of (by omega))]
        rfl

end Layout.Strict

namespace Memory.Strict

/-- Refuses an address beyond the last one. -/
def check (m : Memory) (address : Nat) : Strict Unit := do
  let _ ← Layout.Strict.lastAddressable m.layout
  m.check address

/-- The byte in a cell. -/
def cell (m : Memory) (address : Nat) : Strict UInt8 := Strict.index m.toList[address]?

/-- Replaces the bytes of as many cells as there are bytes. -/
def setCells (m : Memory) (address : Nat) (bytes : List UInt8) : Strict Memory := do
  Strict.demand (address + bytes.length ≤ m.toList.length)
  return m.replace address bytes

/-- The byte at an address. -/
def readByte (m : Memory) (address : Nat) : Strict UInt8 := do
  check m address
  cell m address

/-- Stores a byte at an address. -/
def writeByte (m : Memory) (address : Nat) (value : UInt8) : Strict Memory := do
  check m address
  setCells m address [value]

/-- The word at an address. -/
def readWord (m : Memory) (address : Nat) : Strict UInt16 := do
  check m (address + 1)
  let low ← readByte m address
  let high ← readByte m (address + 1)
  return low.toUInt16 + 256 * high.toUInt16

/-- Stores a word at an address. -/
def writeWord (m : Memory) (address : Nat) (value : UInt16) : Strict Memory := do
  check m address
  check m (address + 1)
  let m ← setCells m address [value.toUInt8]
  setCells m (address + 1) [(value >>> 8).toUInt8]

/-- Reads on to the next zero byte, after the bytes of `done`, which is reversed. -/
def readStringFrom (m : Memory) (address : Nat) (done : List UInt8) : Strict (List UInt8) := do
  let b ← readByte m address
  -- behind the read the address is no larger than the last one: the loop ends for this reason
  if _h : address ≤ m.layout.lastAddressable.toNat ∧ b ≠ 0 then
    readStringFrom m (address + 1) (b :: done)
  else return done.reverse
termination_by m.layout.lastAddressable.toNat + 1 - address
decreasing_by omega

/-- The bytes from an address up to the next zero byte. -/
def readString (m : Memory) (address : Nat) : Strict (List UInt8) := readStringFrom m address []

/-- Stores bytes from an address on. -/
def load (m : Memory) (address : Nat) (bytes : List UInt8) : Strict Memory := do
  if bytes.isEmpty then return m
  let last ← Strict.minus (address + bytes.length) 1
  check m last
  setCells m address bytes

/-- Stores bytes and a zero byte after them, and gives the address of the zero byte. -/
def storeString (m : Memory) (address : Nat) (bytes : List UInt8) : Strict (Nat × Memory) := do
  let terminator := address + bytes.length
  check m terminator
  let m ← load m address bytes
  let m ← setCells m terminator [0]
  return (terminator, m)

/-- Stores bytes and a zero byte after them. -/
def writeString (m : Memory) (address : Nat) (bytes : List UInt8) : Strict Memory := do
  let (_, m) ← storeString m address bytes
  return m

/-- The bytes from an address on. -/
def slice (m : Memory) (address length : Nat) : Strict (List UInt8) := do
  if length = 0 then return []
  check m address
  let last ← Strict.minus (address + length) 1
  check m last
  Strict.demand (address + length ≤ m.toList.length)
  return (m.toList.drop address).take length

end Memory.Strict

namespace Memory

variable {m : Memory} {address : Nat}

theorem replace_append (m : Memory) (address : Nat) (bytes bytes' : List UInt8) :
    m.replace address (bytes ++ bytes') =
      (m.replace address bytes).replace (address + bytes.length) bytes' := by
  have hcells : ∀ (cells : ByteArray) (address : Nat), overwrite cells address (bytes ++ bytes') =
      overwrite (overwrite cells address bytes) (address + bytes.length) bytes' := by
    induction bytes with
    | nil => exact fun _ _ => rfl
    | cons b bytes ih =>
      intro cells address
      rw [List.length_cons, Nat.add_left_comm, Nat.add_comm bytes.length]
      exact ih _ _
  unfold replace
  simp only [hcells]

namespace Strict

variable (hmin : 0 < m.layout.size) (hmax : m.layout.size ≤ 65535)

include hmin hmax in
theorem check_eq (address : Nat) : check m address = some (m.check address) :=
  Strict.bind_of_ok (Layout.Strict.lastAddressable_eq hmin hmax)

theorem cell_of_lt (h : address < m.layout.size) :
    cell m address = some (.ok (m.byteAt address)) := by
  have hcell : address < m.toList.length := m.length_toList ▸ h
  refine Strict.index_of ?_
  rw [List.getElem?_eq_getElem hcell, ← List.getD_eq_getElem _ 0, getD_toList]

theorem setCells_of_le {bytes : List UInt8} (h : address + bytes.length ≤ m.layout.size) :
    setCells m address bytes = some (.ok (m.replace address bytes)) :=
  Strict.bind_of_ok (Strict.demand_of (m.length_toList ▸ h))

include hmin hmax

theorem readByte_eq (address : Nat) : readByte m address = some (m.readByte address) := by
  refine Strict.bind_of (check_eq hmin hmax address) fun _ hcheck => ?_
  rw [check_eq_ok_iff, le_lastAddressable_iff hmin hmax] at hcheck
  exact cell_of_lt hcheck

theorem writeByte_eq (address : Nat) (value : UInt8) :
    writeByte m address value = some (m.writeByte address value) := by
  refine Strict.bind_of (check_eq hmin hmax address) fun _ hcheck => ?_
  rw [check_eq_ok_iff, le_lastAddressable_iff hmin hmax] at hcheck
  exact setCells_of_le hcheck

theorem readByte_of_lt (h : address < m.layout.size) :
    readByte m address = some (.ok (m.byteAt address)) := by
  rw [readByte_eq hmin hmax, (readByte_eq_ok_iff hmin hmax).mpr ⟨h, rfl⟩]

theorem readWord_eq (address : Nat) : readWord m address = some (m.readWord address) := by
  refine Strict.bind_of (check_eq hmin hmax (address + 1)) fun _ hcheck => ?_
  rw [check_eq_ok_iff, le_lastAddressable_iff hmin hmax] at hcheck
  have hlow := readByte_of_lt hmin hmax (Nat.lt_of_succ_lt hcheck)
  have hhigh := readByte_of_lt hmin hmax hcheck
  have hword : (m.check address >>= fun _ => pure (m.wordAt address)) = .ok (m.wordAt address) :=
    (check_bind_eq_ok_iff hmin hmax).mpr ⟨Nat.lt_of_succ_lt hcheck, rfl⟩
  rw [hword, Strict.bind_of_ok hlow, Strict.bind_of_ok hhigh]
  rfl

theorem writeWord_eq (address : Nat) (value : UInt16) :
    writeWord m address value = some (m.writeWord address value) := by
  refine Strict.bind_of (check_eq hmin hmax address) fun _ _ => ?_
  refine Strict.bind_of (check_eq hmin hmax (address + 1)) fun _ hcheck => ?_
  rw [check_eq_ok_iff, le_lastAddressable_iff hmin hmax] at hcheck
  rw [Strict.bind_of_ok (setCells_of_le (Nat.le_of_lt hcheck))]
  exact setCells_of_le hcheck

theorem readStringFrom_eq (address : Nat) (done : List UInt8) :
    readStringFrom m address done = some (m.readStringFrom address done) := by
  fun_induction m.readStringFrom address done with
  | case1 address done hlast hzero =>
    rw [le_lastAddressable_iff hmin hmax] at hlast
    rw [readStringFrom, Strict.bind_of_ok (readByte_of_lt hmin hmax hlast),
      dif_neg fun h => h.2 hzero]
    rfl
  | case2 address done hlast hne ih =>
    have hlt := (le_lastAddressable_iff hmin hmax).mp hlast
    rw [readStringFrom, Strict.bind_of_ok (readByte_of_lt hmin hmax hlt), dif_pos ⟨hlast, hne⟩]
    exact ih
  | case3 address done hlast =>
    have hrefused : m.check address = .error _ := if_neg hlast
    rw [readStringFrom, readByte_eq hmin hmax, Memory.readByte, hrefused]
    rfl

theorem readString_eq (address : Nat) : readString m address = some (m.readString address) :=
  readStringFrom_eq hmin hmax address []

theorem load_eq (address : Nat) (bytes : List UInt8) :
    load m address bytes = some (m.load address bytes) := by
  cases bytes with
  | nil => rfl
  | cons b bytes =>
    have hlength : (b :: bytes).length = bytes.length + 1 := rfl
    refine (Strict.bind_of_ok (Strict.minus_of (by omega))).trans ?_
    refine Strict.bind_of (check_eq hmin hmax _) fun _ hcheck => ?_
    rw [check_eq_ok_iff, le_lastAddressable_iff hmin hmax] at hcheck
    exact setCells_of_le (by omega)

theorem storeString_eq (address : Nat) (bytes : List UInt8) :
    storeString m address bytes = some (m.storeString address bytes) := by
  refine Strict.bind_of (check_eq hmin hmax _) fun _ hcheck => ?_
  have hload : m.load address bytes = .ok (m.replace address bytes) :=
    load_eq_replace (Nat.le_succ_of_le (check_eq_ok_iff.mp hcheck))
  rw [check_eq_ok_iff, le_lastAddressable_iff hmin hmax] at hcheck
  rw [load_eq hmin hmax, hload, replace_append]
  exact Strict.bind_of_ok (setCells_of_le hcheck)

theorem writeString_eq (address : Nat) (bytes : List UInt8) :
    writeString m address bytes = some (m.writeString address bytes) :=
  Strict.bind_of (storeString_eq hmin hmax address bytes) fun _ _ => rfl

theorem slice_eq (address length : Nat) :
    slice m address length = some (m.slice address length) := by
  cases length with
  | zero => rfl
  | succ length =>
    refine Strict.bind_of (check_eq hmin hmax address) fun _ _ => ?_
    refine (Strict.bind_of_ok (Strict.minus_of (by omega))).trans ?_
    refine Strict.bind_of (check_eq hmin hmax _) fun _ hcheck => ?_
    rw [check_eq_ok_iff, le_lastAddressable_iff hmin hmax] at hcheck
    have hinside : address + (length + 1) ≤ m.layout.size := by omega
    rw [bytesAt_eq_take hinside]
    exact Strict.bind_of_ok (Strict.demand_of (m.length_toList.symm ▸ hinside))

end Strict

end Memory

end TeachingCpu
