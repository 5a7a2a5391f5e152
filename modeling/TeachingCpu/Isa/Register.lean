import TeachingCpu.Text.Blank

/-!
# Registers

The machine has twenty-four registers, numbered in this order: twelve byte registers, the six
pairs that they are the halves of, and six dedicated word registers.
-/

namespace TeachingCpu

/-- Width of a register or of a memory access. -/
inductive Width where
  | byte
  | word
deriving DecidableEq, Repr

namespace Width

/-- Number of bits. -/
def bits : Width → Nat
  | .byte => 8
  | .word => 16

/-- Number of values. -/
def size (w : Width) : Nat := 1 <<< w.bits

/-- Largest value. -/
def max (w : Width) : Nat := w.size - 1

/-- Weight of the most significant bit. -/
def signBit (w : Width) : Nat := 1 <<< (w.bits - 1)

end Width

/-- The registers. `pc` is the program counter, `sp` the stack pointer, `ss` and `se` the first
and last address of the stack segment, `di` and `dp` the index registers of the interrupts. -/
inductive Register where
  | al | ah | bl | bh | cl | ch | dl | dh | el | eh | fl | fh
  | ax | bx | cx | dx | ex | fx
  | pc | sp | ss | se | di | dp
deriving DecidableEq, Repr

namespace Register

/-- Every register in the order of their numbers. -/
def all : List Register :=
  [.al, .ah, .bl, .bh, .cl, .ch, .dl, .dh, .el, .eh, .fl, .fh,
    .ax, .bx, .cx, .dx, .ex, .fx, .pc, .sp, .ss, .se, .di, .dp]

/-- The six pairs. -/
def pairs : List Register := [.ax, .bx, .cx, .dx, .ex, .fx]

/-- The word registers that are not pairs. -/
def dedicated : List Register := [.pc, .sp, .ss, .se, .di, .dp]

/-- The number of a register, by which operands name it. -/
def id : Register → Fin 24
  | .al => 0 | .ah => 1 | .bl => 2 | .bh => 3 | .cl => 4 | .ch => 5
  | .dl => 6 | .dh => 7 | .el => 8 | .eh => 9 | .fl => 10 | .fh => 11
  | .ax => 12 | .bx => 13 | .cx => 14 | .dx => 15 | .ex => 16 | .fx => 17
  | .pc => 18 | .sp => 19 | .ss => 20 | .se => 21 | .di => 22 | .dp => 23

/-- The name of a register in source text, without its `%`. -/
def name : Register → String
  | .al => "al" | .ah => "ah" | .bl => "bl" | .bh => "bh" | .cl => "cl" | .ch => "ch"
  | .dl => "dl" | .dh => "dh" | .el => "el" | .eh => "eh" | .fl => "fl" | .fh => "fh"
  | .ax => "ax" | .bx => "bx" | .cx => "cx" | .dx => "dx" | .ex => "ex" | .fx => "fx"
  | .pc => "pc" | .sp => "sp" | .ss => "ss" | .se => "se" | .di => "di" | .dp => "dp"

/-- The register with a number. -/
def ofId? (n : Nat) : Option Register := all[n]?

/-- The register with a name, in any letter case. -/
def ofName? (s : String) : Option Register :=
  let wanted := Text.lower s
  all.find? (·.name == wanted)

/-- The width of a register. -/
def width : Register → Width
  | .al | .ah | .bl | .bh | .cl | .ch | .dl | .dh | .el | .eh | .fl | .fh => .byte
  | _ => .word

/-- The low and the high half of a pair. -/
def halves? : Register → Option (Register × Register)
  | .ax => some (.al, .ah)
  | .bx => some (.bl, .bh)
  | .cx => some (.cl, .ch)
  | .dx => some (.dl, .dh)
  | .ex => some (.el, .eh)
  | .fx => some (.fl, .fh)
  | _ => none

/-- The pair that a byte register belongs to, and whether it is the high half. -/
def owningPair? : Register → Option (Register × Bool)
  | .al => some (.ax, false) | .ah => some (.ax, true)
  | .bl => some (.bx, false) | .bh => some (.bx, true)
  | .cl => some (.cx, false) | .ch => some (.cx, true)
  | .dl => some (.dx, false) | .dh => some (.dx, true)
  | .el => some (.ex, false) | .eh => some (.ex, true)
  | .fl => some (.fx, false) | .fh => some (.fx, true)
  | _ => none

theorem ofId?_id (r : Register) : ofId? r.id = some r := by
  cases r <;> rfl

theorem id_injective {r s : Register} (h : r.id = s.id) : r = s := by
  have := ofId?_id r
  rw [h, ofId?_id] at this
  exact (Option.some.inj this).symm

end Register

end TeachingCpu
