import TeachingCpu.Proofs.Cpu.Footprint
import TeachingCpu.Proofs.Machine.Arithmetic

/-!
# Signed overflow

The overflow flag of an addition, a subtraction, a comparison or a count tells whether the exact
result of the operands, read as signed numbers, leaves the range of the width. That of a
multiplication goes with the unsigned product instead, like the carry flag (`overflow_iff`), and
misses signed products past the sign bit (`overflow_clear_pastSignBit`).
-/

namespace TeachingCpu

open Attempt

/-- The exact result of an instruction that can overflow, on signed numbers. -/
def Opcode.signedResult? : Opcode → Option (Int → Int → Int)
  | .add | .inc => some (· + ·)
  | .sub | .dec | .cmp => some (· - ·)
  | .mul => some (· * ·)
  | _ => none

/-- The operation that sets the flags of an effect. -/
def Effect.operation? : Effect → Option Operation
  | .arithmetic operation | .countBy operation => some operation
  | .compare => some .sub
  | _ => none

namespace Operation

variable {w : Width} {a b : Nat}

theorem overflow_addNumbers_iff (ha : a < w.size) (hb : b < w.size) :
    (addNumbers w a b).overflow = true ↔ ¬ w.FitsSigned (w.signed a + w.signed b) := by
  have hvalue : (a + b) % w.size = if a + b < w.size then a + b else a + b - w.size := by
    split
    · next hlt => exact Nat.mod_eq_of_lt hlt
    · next hge =>
      rw [Nat.mod_eq_sub_mod (by omega), Nat.mod_eq_of_lt (by omega)]
  rw [Width.fitsSigned_iff, Width.signed_eq ha, Width.signed_eq hb]
  change (isNegative w a == isNegative w b &&
    isNegative w ((a + b) % w.size) != isNegative w a) = true ↔ _
  rw [hvalue, Bool.and_eq_true, beq_iff_eq, bne_iff_ne]
  unfold isNegative
  rw [decide_eq_decide, Ne, decide_eq_decide]
  have hhalves := w.size_eq_signBit_add
  generalize w.signBit = half at *
  split <;> split <;> split <;> omega

theorem overflow_mulNumbers_iff : (mulNumbers w a b).overflow = true ↔ 2 ^ w.bits ≤ a * b := by
  change decide (w.size ≤ a * b) = true ↔ _
  rw [decide_eq_true_iff, w.size_eq]

end Operation

namespace Cpu

variable {cpu cpu' : Cpu} {o target left right : Operand} {w : Width} {value : UInt16}

/-- The flags stay while an operand is written. -/
theorem overflow_of_writeOperand (h : writeOperand o w value cpu = .ok () cpu') :
    cpu'.flags.overflow = cpu.flags.overflow := by
  refine (confined_writeOperand h).flags .overflow ?_
  rw [flags_placeFootprint]
  exact List.not_mem_nil

/-- An operation on one operand that can be read and the number 1. -/
theorem overflow_of_countBy {operation : TeachingCpu.Operation}
    (h : countBy operation w target cpu = .ok () cpu') :
    ∃ a r, cpu.number? w target = some a ∧ operation.apply w a 1 = some r ∧
      cpu'.flags.overflow = r.overflow := by
  obtain ⟨x, cpu₁, htarget, h⟩ := bind_eq_ok.mp h
  cases (reads_readOperand target w).ok htarget
  obtain ⟨value, cpu₁, hcompute, h⟩ := bind_eq_ok.mp h
  have hone : (1 : UInt16).toNat % w.size = 1 := by cases w <;> rfl
  rw [compute_eq, hone] at hcompute
  split at hcompute
  · next r hr =>
    cases hcompute
    exact ⟨_, r, number?_eq_some_iff.mpr ⟨x, htarget, rfl⟩, hr, overflow_of_writeOperand h⟩
  · cases hcompute

theorem overflow_of_arithmetic {operation : TeachingCpu.Operation} {source : Operand}
    (h : arithmetic operation w target source cpu = .ok () cpu') :
    ∃ a b r, cpu.number? w target = some a ∧ cpu.number? w source = some b ∧
      operation.apply w a b = some r ∧ cpu'.flags.overflow = r.overflow := by
  obtain ⟨a, b, ha, hb⟩ := exists_numbers_of_arithmetic h
  rw [arithmetic_eq ha hb] at h
  split at h
  · next r hr => exact ⟨a, b, r, ha, hb, hr, overflow_of_writeOperand h⟩
  · cases h

end Cpu

namespace Opcode

variable {op : Opcode} {operation : Operation} {exact : Int → Int → Int} {w : Width} {a b : Nat}
  {r : ArithmeticResult}

/-- What an operation that does not multiply says of its overflow is true of the signed numbers. -/
theorem overflow_of_apply (hresult : op.signedResult? = some exact)
    (hoperation : op.effect.operation? = some operation) (hmul : op ≠ .mul) (ha : a < w.size)
    (hb : b < w.size) (hr : operation.apply w a b = some r) :
    r.overflow = true ↔ ¬ w.FitsSigned (exact (w.signed a) (w.signed b)) := by
  cases op with
  | add | inc =>
    cases hresult
    cases hoperation
    cases hr
    exact Operation.overflow_addNumbers_iff ha hb
  | sub | dec | cmp =>
    cases hresult
    cases hoperation
    cases hr
    exact Operation.overflow_subNumbers_iff ha hb
  | mul => exact absurd rfl hmul
  | _ => cases hresult

end Opcode

namespace Instruction

variable {i : Instruction} {cpu cpu' : Cpu} {exact : Int → Int → Int} {a b : Nat}

theorem numbers?_of_pair {target source : Operand} (hoperands : i.operands = [target, source])
    (ha : cpu.number? (accessWidth i.operands) target = some a)
    (hb : cpu.number? (accessWidth i.operands) source = some b) :
    i.numbers? cpu = some (a, b) := by
  unfold numbers?
  rw [hoperands] at ha hb ⊢
  simp only [ha, hb]

theorem numbers?_of_single {target : Operand} (hoperands : i.operands = [target])
    (ha : cpu.number? (accessWidth i.operands) target = some a) :
    i.numbers? cpu = some (a, 1) := by
  unfold numbers?
  rw [hoperands] at ha ⊢
  simp only [ha]

/-- The overflow flag is that of the operation on the numbers of the instruction. -/
theorem overflow_of_perform (hcomplete : i.Complete)
    (hresult : i.opcode.signedResult? = some exact)
    (h : Cpu.perform i.opcode.effect i.operands cpu = .ok () cpu') :
    ∃ operation a b r, i.opcode.effect.operation? = some operation ∧
      i.numbers? cpu = some (a, b) ∧ a < (accessWidth i.operands).size ∧
      b < (accessWidth i.operands).size ∧
      operation.apply (accessWidth i.operands) a b = some r ∧
      cpu'.flags.overflow = r.overflow := by
  obtain ⟨opcode, operands⟩ := i
  cases opcode with
  | add | sub | mul =>
    obtain ⟨target, source, rfl⟩ := List.length_eq_two.mp hcomplete
    obtain ⟨a, b, r, ha, hb, hr, hflag⟩ := Cpu.overflow_of_arithmetic h
    exact ⟨_, a, b, r, rfl, numbers?_of_pair rfl ha hb, Cpu.number?_lt ha, Cpu.number?_lt hb, hr,
      hflag⟩
  | cmp =>
    obtain ⟨left, right, rfl⟩ := List.length_eq_two.mp hcomplete
    obtain ⟨a, b, ha, hb, rfl⟩ := Cpu.compare_eq_ok_iff.mp h
    exact ⟨_, a, b, _, rfl, numbers?_of_pair rfl ha hb, Cpu.number?_lt ha, Cpu.number?_lt hb, rfl,
      rfl⟩
  | inc | dec =>
    obtain ⟨target, rfl⟩ := List.length_eq_one_iff.mp hcomplete
    obtain ⟨a, r, ha, hr, hflag⟩ := Cpu.overflow_of_countBy h
    refine ⟨_, a, 1, r, rfl, numbers?_of_single rfl ha, Cpu.number?_lt ha, ?_, hr, hflag⟩
    generalize accessWidth _ = w
    cases w <;> decide
  | _ => cases hresult

end Instruction

namespace Machine

variable {m m₁ m₂ : Machine} {i : Instruction} {exact : Int → Int → Int}

/-- Behind an instruction that can overflow and completes, the overflow flag tells whether the exact
result of its two numbers, read as signed ones, does not fit the width. Only behind a
multiplication it tells whether the unsigned product does not fit. -/
theorem overflow_iff (hnext : m.next? = some (i, m₁))
    (hresult : i.opcode.signedResult? = some exact) (hcompletes : perform i m₁ = .ok () m₂) :
    ∃ a b, i.numbers? m₁.cpu = some (a, b) ∧
      (i.opcode ≠ .mul → ((stepInstruction.finalState m).cpu.flags.overflow = true ↔
        ¬ (accessWidth i.operands).FitsSigned
          (exact ((accessWidth i.operands).signed a) ((accessWidth i.operands).signed b)))) ∧
      (i.opcode = .mul → ((stepInstruction.finalState m).cpu.flags.overflow = true ↔
        2 ^ (accessWidth i.operands).bits ≤ a * b)) := by
  rw [cpu_of_perform_ok hnext hcompletes]
  have hperformed : Cpu.perform i.opcode.effect i.operands m₁.cpu = .ok () m₂.cpu := by
    rcases perform_cases hcompletes with ⟨hint, -⟩ | hcpu
    · rw [hint] at hresult
      cases hresult
    · exact hcpu
  obtain ⟨operation, a, b, r, hoperation, hnumbers, ha, hb, hr, hflag⟩ :=
    Instruction.overflow_of_perform (complete_of_next? hnext) hresult hperformed
  refine ⟨a, b, hnumbers, fun hmul => ?_, fun hmul => ?_⟩
  · rw [hflag]
    exact Opcode.overflow_of_apply hresult hoperation hmul ha hb hr
  · rw [hmul] at hoperation
    cases hoperation
    cases hr
    rw [hflag]
    exact Operation.overflow_mulNumbers_iff

/-- A program that doubles 64 and counts the result down: `mov %al $64`, `mul %al $2`,
`dec %al`. -/
def doublesPastSignBit : Image where
  rom := [0x02, 0x01, 0x00, 0x04, 0x40, 0x05, 0x01, 0x00, 0x04, 0x02, 0x0f, 0x01, 0x00]
  memory := []
  width := .bits16
  entry := 0

/-- The machine before the multiplication. -/
def beforeDouble : Machine := ((load doublesPastSignBit).finalState smallest).after 1

/-- The machine behind it. -/
def behindDouble : Machine := stepInstruction.finalState beforeDouble

/-- As a signed byte the double of 64 is -128, and the number below does not fit. -/
theorem overflow_iff_behindDouble :
    ∃ i m₁ m₂, behindDouble.next? = some (i, m₁) ∧ i.opcode = .dec ∧ perform i m₁ = .ok () m₂ ∧
      i.numbers? m₁.cpu = some (128, 1) ∧ ¬ Width.byte.FitsSigned (-128 - 1) ∧
      (stepInstruction.finalState behindDouble).cpu.flags.overflow = true := by
  have hnext : behindDouble.next? = some (⟨.dec, [⟨.register, 0⟩]⟩,
      fetchNext.finalState behindDouble.starting) := next?_eq_some_iff.mpr ⟨rfl, rfl⟩
  have hcompletes : perform ⟨.dec, [⟨.register, 0⟩]⟩
      (fetchNext.finalState behindDouble.starting) = .ok () _ := rfl
  have hfits : ¬ Width.byte.FitsSigned (-128 - 1) := by
    rw [Width.fitsSigned_iff]
    decide
  obtain ⟨a, b, hnumbers, hflag, -⟩ := overflow_iff hnext rfl hcompletes
  cases hnumbers
  exact ⟨_, _, _, hnext, rfl, hcompletes, rfl, hfits, (hflag (by decide)).mpr hfits⟩

/-- The double of 64 does not fit a signed byte, but the overflow flag is clear. -/
theorem overflow_clear_pastSignBit :
    ∃ i m₁ m₂, Reachable smallest.config beforeDouble ∧ beforeDouble.next? = some (i, m₁) ∧
      i.opcode = .mul ∧ accessWidth i.operands = .byte ∧ perform i m₁ = .ok () m₂ ∧
      i.numbers? m₁.cpu = some (64, 2) ∧
      ¬ Width.byte.FitsSigned (Width.byte.signed 64 * Width.byte.signed 2) ∧
      (stepInstruction.finalState beforeDouble).cpu.flags.overflow = false := by
  have hload : serve smallest (.load doublesPastSignBit) =
      some (.ok .done, (load doublesPastSignBit).finalState smallest) := rfl
  have hstep : serve ((load doublesPastSignBit).finalState smallest) .stepInstruction =
      some (.ok (.status .running), beforeDouble) := rfl
  have hnext : beforeDouble.next? = some (⟨.mul, [⟨.register, 0⟩, ⟨.immediate, 2⟩]⟩,
      fetchNext.finalState beforeDouble.starting) := next?_eq_some_iff.mpr ⟨rfl, rfl⟩
  have hcompletes : perform ⟨.mul, [⟨.register, 0⟩, ⟨.immediate, 2⟩]⟩
      (fetchNext.finalState beforeDouble.starting) = .ok () _ := rfl
  have hfits : ¬ Width.byte.FitsSigned (Width.byte.signed 64 * Width.byte.signed 2) := by
    rw [Width.fitsSigned_iff]
    decide
  exact ⟨_, _, _, .serve (.serve reachable_smallest hload) hstep, hnext, rfl, rfl, hcompletes, rfl,
    hfits, rfl⟩

end Machine

end TeachingCpu
