import TeachingCpu.Isa.Opcode

/-!
# Machine widths

A program image names the width of the machine it was made for. Four widths have a marker; only
the sixteen-bit machine exists.
-/

namespace TeachingCpu

/-- The widths that a program image can name. -/
inductive ArchWidth where
  | bits8
  | bits16
  | bits32
  | bits64
deriving DecidableEq, Repr

namespace ArchWidth

/-- Number of bits, stored in a program image as the marker of the width. -/
def bits : ArchWidth → Nat
  | .bits8 => 8
  | .bits16 => 16
  | .bits32 => 32
  | .bits64 => 64

/-- The marker of a width. -/
def marker (w : ArchWidth) : UInt8 := w.bits.toUInt8

/-- The width with a marker. -/
def ofMarker? (marker : UInt8) : Option ArchWidth :=
  [bits8, bits16, bits32, bits64].find? (·.marker == marker)

/-- The text that shows a width. -/
def text (w : ArchWidth) : String := toString w.bits ++ "-bit"

end ArchWidth

/-- What the assembler, the loader and the engine need to know about a machine. -/
structure Architecture where
  width : ArchWidth
  /-- Largest memory that the address registers span. -/
  maxMemory : Nat
  instructions : List Opcode
deriving Repr

namespace Architecture

/-- The sixteen-bit machine. -/
def sixteen : Architecture where
  width := .bits16
  maxMemory := 65535
  instructions := Opcode.all

/-- The machine of a width, if it exists. -/
def ofWidth? : ArchWidth → Option Architecture
  | .bits16 => some sixteen
  | _ => none

/-- The instruction of a machine that a byte starts, if it starts one. -/
def ofCode? (machine : Architecture) (code : UInt8) : Option Opcode :=
  machine.instructions.find? (·.code == code)

theorem code_of_ofCode? {machine : Architecture} {code : UInt8} {op : Opcode}
    (h : machine.ofCode? code = some op) : code = op.code := by
  have hcode := List.find?_some h
  exact (beq_iff_eq.mp hcode).symm

/-- The table of all instructions has what a search of the sixteen-bit machine comes to. -/
theorem sixteen_ofCode? (code : UInt8) : sixteen.ofCode? code = Opcode.ofCode? code := by
  cases h : sixteen.ofCode? code with
  | some op => rw [code_of_ofCode? h, Opcode.ofCode?_code]
  | none =>
    -- an instruction stands at the place of its opcode, so the search would have come to it
    have hplaces : ∀ i : Fin 36, (Opcode.all.get i).code = UInt8.ofNat i := by decide
    refine (List.getElem?_eq_none (Nat.le_of_not_lt fun hlt => ?_)).symm
    have hmem : Opcode.all.get ⟨code.toNat, hlt⟩ ∈ sixteen.instructions := List.get_mem ..
    have hcode : (Opcode.all.get ⟨code.toNat, hlt⟩).code = code :=
      (hplaces ⟨code.toNat, hlt⟩).trans UInt8.ofNat_toNat
    exact List.find?_eq_none.mp h _ hmem (beq_iff_eq.mpr hcode)

end Architecture

end TeachingCpu
