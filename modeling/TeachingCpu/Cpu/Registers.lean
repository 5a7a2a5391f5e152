import TeachingCpu.Isa.Register

/-!
# The register file

A register file has a slot for each of the twenty-four registers. A pair and its two halves have
slots of their own; `Registers.write` changes them together, so the pair always holds its high
half times 256 plus its low half.
-/

namespace TeachingCpu

/-- The values of the registers. -/
structure Registers where
  slots : Vector UInt16 24
deriving DecidableEq

namespace Registers

/-- Every register zero. -/
def zeroed : Registers := ⟨Vector.replicate 24 0⟩

/-- The value of a register. -/
def get (rs : Registers) (r : Register) : UInt16 := rs.slots[r.id]

/-- Stores a value in the slot of one register. -/
def setSlot (rs : Registers) (r : Register) (value : UInt16) : Registers :=
  ⟨rs.slots.set r.id value⟩

/-- Stores a value in a register, and with it in the halves of a pair or the pair of a half. The
value fits the register. -/
def write (rs : Registers) (r : Register) (value : UInt16) : Registers :=
  let rs' := rs.setSlot r value
  match r.halves? with
  | some (low, high) => (rs'.setSlot low (value % 256)).setSlot high (value / 256)
  | none =>
    match r.owningPair? with
    | some (pair, true) => rs'.setSlot pair (rs.get pair % 256 + 256 * value)
    | some (pair, false) => rs'.setSlot pair (256 * (rs.get pair / 256) + value)
    | none => rs'

/-- The values of all registers, in the order of their numbers. -/
def toList (rs : Registers) : List UInt16 := Register.all.map rs.get

@[simp] theorem get_zeroed (r : Register) : zeroed.get r = 0 := by
  simp [get, zeroed]

@[simp] theorem get_setSlot_self (rs : Registers) (r : Register) (value : UInt16) :
    (rs.setSlot r value).get r = value := by
  simp [get, setSlot]

theorem get_setSlot_of_ne (rs : Registers) {r s : Register} (h : r ≠ s) (value : UInt16) :
    (rs.setSlot r value).get s = rs.get s := by
  have hid : r.id ≠ s.id := fun e => h (Register.id_injective e)
  have hval : (r.id : Nat) ≠ (s.id : Nat) := fun e => hid (Fin.ext e)
  simp [get, setSlot, hval]

end Registers

end TeachingCpu
