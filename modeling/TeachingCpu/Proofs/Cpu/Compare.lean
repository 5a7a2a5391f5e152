import TeachingCpu.Proofs.Attempt.Matches
import TeachingCpu.Proofs.Cpu.Evolution

/-!
# Comparisons

A comparison subtracts for the flags. The numbers that it subtracts are operand values cut to a
width. They are compared as they stand, or as signed numbers in two's complement (`Width.signed`).
The condition of each conditional jump holds of the flags of `a - b` exactly if the jump's relation
holds of `a` and `b` (`holds_condition_iff`).
-/

namespace TeachingCpu

open Attempt

namespace Width

variable {w : Width} {n : Nat}

theorem size_eq (w : Width) : w.size = 2 ^ w.bits := by
  cases w <;> rfl

theorem signBit_eq (w : Width) : w.signBit = 2 ^ (w.bits - 1) := by
  cases w <;> rfl

theorem size_eq_signBit_add (w : Width) : w.size = w.signBit + w.signBit := by
  cases w <;> rfl

theorem size_pos (w : Width) : 0 < w.size := by
  cases w <;> decide

theorem size_le (w : Width) : w.size ≤ 65536 := by
  cases w <;> decide

/-- The signed value of a number in two's complement. -/
def signed (w : Width) (n : Nat) : Int := (BitVec.ofNat w.bits n).toInt

/-- Whether an integer is the signed value of some number of a width. -/
def FitsSigned (w : Width) (x : Int) : Prop := -2 ^ (w.bits - 1) ≤ x ∧ x < 2 ^ (w.bits - 1)

theorem fitsSigned_iff {x : Int} : w.FitsSigned x ↔ -w.signBit ≤ x ∧ x < w.signBit := by
  rw [FitsSigned, signBit_eq]
  push_cast
  rfl

/-- Numbers without the most significant bit count as they stand, the others from below zero. -/
theorem signed_eq (h : n < w.size) :
    w.signed n = if n < w.signBit then (n : Int) else n - w.size := by
  rw [signed, BitVec.toInt_eq_toNat_cond, BitVec.toNat_ofNat, ← size_eq, Nat.mod_eq_of_lt h]
  have hhalves := size_eq_signBit_add w
  split <;> split <;> omega

example : byte.signed 0x80 = -128 := by decide

end Width

/-! ## Flags of a result -/

/-- The flags with those of a result. -/
def Flags.describing (f : Flags) (w : Width) (r : ArithmeticResult) : Flags :=
  ((f.ofResult w r.value).set .carry r.carry).set .overflow r.overflow

namespace Flags

variable (f : Flags) (w : Width) (r : ArithmeticResult)

@[simp] theorem carry_describing : (f.describing w r).carry = r.carry := rfl

@[simp] theorem overflow_describing : (f.describing w r).overflow = r.overflow := rfl

@[simp] theorem zero_describing : (f.describing w r).zero = (r.value == 0) := rfl

/-- The negative flag is the most significant bit. -/
@[simp] theorem negative_describing :
    (f.describing w r).negative = r.value.testBit (w.bits - 1) := by
  rw [Nat.testBit_eq_decide_div_mod_eq, ← Width.signBit_eq]
  rfl

end Flags

/-! ## Subtraction for its flags -/

namespace Operation

variable {w : Width} {a b n : Nat}

theorem testBit_eq_isNegative (h : n < w.size) : n.testBit (w.bits - 1) = isNegative w n := by
  rw [Nat.testBit_eq_decide_div_mod_eq, ← Width.signBit_eq, isNegative, decide_eq_decide]
  rw [Width.size_eq_signBit_add] at h
  have hpos : 0 < w.signBit := by cases w <;> decide
  constructor
  · intro hbit
    by_contra hlt
    rw [Nat.div_eq_of_lt (by omega)] at hbit
    cases hbit
  · intro hle
    have hone : n / w.signBit = 1 := Nat.div_eq_of_lt_le (by omega) (by omega)
    rw [hone]

/-- The difference lies on the circle of the numbers, `b` steps below the first. -/
theorem value_subNumbers (ha : a < w.size) (hb : b < w.size) :
    (subNumbers w a b).value = if b ≤ a then a - b else a + w.size - b := by
  change (a + w.size - b) % w.size = _
  split
  · rw [show a + w.size - b = a - b + w.size by omega, Nat.add_mod_right,
      Nat.mod_eq_of_lt (by omega)]
  · exact Nat.mod_eq_of_lt (by omega)

theorem value_subNumbers_lt (w : Width) (a b : Nat) : (subNumbers w a b).value < w.size :=
  Nat.mod_lt _ w.size_pos

theorem value_subNumbers_eq_zero_iff (ha : a < w.size) (hb : b < w.size) :
    (subNumbers w a b).value = 0 ↔ a = b := by
  rw [value_subNumbers ha hb]
  split <;> omega

theorem overflow_subNumbers_iff (ha : a < w.size) (hb : b < w.size) :
    (subNumbers w a b).overflow = true ↔ ¬ w.FitsSigned (w.signed a - w.signed b) := by
  have hvalue := value_subNumbers ha hb
  rw [Width.fitsSigned_iff, Width.signed_eq ha, Width.signed_eq hb]
  change (isNegative w a != isNegative w b &&
    isNegative w (subNumbers w a b).value != isNegative w a) = true ↔ _
  rw [hvalue, Bool.and_eq_true, bne_iff_ne, bne_iff_ne]
  unfold isNegative
  rw [Ne, decide_eq_decide, Ne, decide_eq_decide]
  have hhalves := w.size_eq_signBit_add
  generalize w.signBit = half at *
  split <;> split <;> split <;> omega

/-- Where the difference does not fit, its sign is the wrong one. -/
theorem negative_ne_overflow_iff (ha : a < w.size) (hb : b < w.size) :
    ((subNumbers w a b).value.testBit (w.bits - 1) != (subNumbers w a b).overflow) = true ↔
      w.signed a < w.signed b := by
  rw [testBit_eq_isNegative (value_subNumbers_lt w a b), bne_iff_ne, ne_eq, Bool.eq_iff_iff,
    overflow_subNumbers_iff ha hb, Width.fitsSigned_iff, value_subNumbers ha hb,
    Width.signed_eq ha, Width.signed_eq hb]
  unfold isNegative
  rw [decide_eq_true_iff]
  have hhalves := w.size_eq_signBit_add
  generalize w.signBit = half at *
  split <;> split <;> split <;> omega

end Operation

/-- What a conditional jump wants to be true of two numbers that were compared. -/
def Opcode.relation? : Opcode → Option (Width → Nat → Nat → Prop)
  | .je => some fun _ a b => a = b
  | .jne => some fun _ a b => a ≠ b
  | .jc => some fun _ a b => a < b
  | .jl => some fun w a b => w.signed a < w.signed b
  | .jg => some fun w a b => w.signed b < w.signed a
  | .jle => some fun w a b => w.signed a ≤ w.signed b
  | .jge => some fun w a b => w.signed b ≤ w.signed a
  | .jo => some fun w a b => ¬ w.FitsSigned (w.signed a - w.signed b)
  | _ => none

section Condition

open Operation (subNumbers)

variable {w : Width} {a b : Nat} (f : Flags)

theorem holds_equal_iff (ha : a < w.size) (hb : b < w.size) :
    Condition.equal.holds (f.describing w (subNumbers w a b)) = true ↔ a = b := by
  rw [← Operation.value_subNumbers_eq_zero_iff ha hb, Condition.holds, Flags.zero_describing,
    beq_iff_eq]

theorem holds_less_iff (ha : a < w.size) (hb : b < w.size) :
    Condition.less.holds (f.describing w (subNumbers w a b)) = true ↔
      w.signed a < w.signed b := by
  rw [Condition.holds, Flags.negative_describing, Flags.overflow_describing]
  exact Operation.negative_ne_overflow_iff ha hb

/-- The other conditions on signed numbers are put together from these two. -/
theorem holds_condition_split (f : Flags) :
    Condition.notEqual.holds f = !Condition.equal.holds f ∧
      Condition.greaterOrEqual.holds f = !Condition.less.holds f ∧
      Condition.lessOrEqual.holds f = (Condition.equal.holds f || Condition.less.holds f) ∧
      Condition.greater.holds f = (!Condition.equal.holds f && !Condition.less.holds f) := by
  simp [Condition.holds, bne]

theorem Width.signed_inj (ha : a < w.size) (hb : b < w.size) (h : w.signed a = w.signed b) :
    a = b := by
  rw [signed_eq ha, signed_eq hb] at h
  split at h <;> split at h <;> omega

/-- The condition of a conditional jump holds behind a comparison exactly if the numbers are so
related. -/
theorem holds_condition_iff {op : Opcode} {R : Width → Nat → Nat → Prop}
    (hop : op.relation? = some R) (ha : a < w.size) (hb : b < w.size) :
    ∃ c, op.effect = .jump c ∧
      (c.holds (f.describing w (subNumbers w a b)) = true ↔ R w a b) := by
  have hequal := holds_equal_iff f ha hb
  have hless := holds_less_iff f ha hb
  have hsame : a = b → w.signed a = w.signed b := congrArg w.signed
  have hinj := Width.signed_inj ha hb
  obtain ⟨hnotEqual, hgreaterOrEqual, hlessOrEqual, hgreater⟩ :=
    holds_condition_split (f.describing w (subNumbers w a b))
  cases op with
  | je =>
    cases hop
    exact ⟨.equal, rfl, hequal⟩
  | jne =>
    cases hop
    refine ⟨.notEqual, rfl, ?_⟩
    rw [hnotEqual, Bool.not_eq_true', ← Bool.not_eq_true, hequal]
  | jc =>
    cases hop
    exact ⟨.carry, rfl, decide_eq_true_iff⟩
  | jl =>
    cases hop
    exact ⟨.less, rfl, hless⟩
  | jg =>
    cases hop
    refine ⟨.greater, rfl, ?_⟩
    rw [hgreater, Bool.and_eq_true, Bool.not_eq_true', Bool.not_eq_true', ← Bool.not_eq_true,
      ← Bool.not_eq_true, hequal, hless]
    omega
  | jle =>
    cases hop
    refine ⟨.lessOrEqual, rfl, ?_⟩
    rw [hlessOrEqual, Bool.or_eq_true, hequal, hless]
    omega
  | jge =>
    cases hop
    refine ⟨.greaterOrEqual, rfl, ?_⟩
    rw [hgreaterOrEqual, Bool.not_eq_true', ← Bool.not_eq_true, hless, not_lt]
  | jo =>
    cases hop
    exact ⟨.overflow, rfl, Operation.overflow_subNumbers_iff ha hb⟩
  | _ => cases hop

end Condition

namespace Cpu

/-- The processor with the flags of a result. -/
def describing (cpu : Cpu) (w : Width) (r : ArithmeticResult) : Cpu :=
  { cpu with flags := cpu.flags.describing w r }

/-- An operation sets the flags of its result. Without one, it changes nothing. -/
theorem compute_eq (operation : Operation) (w : Width) (a b : UInt16) (cpu : Cpu) :
    compute operation w a b cpu =
      match operation.apply w (a.toNat % w.size) (b.toNat % w.size) with
      | some r => .ok r.value.toUInt16 (cpu.describing w r)
      | none => .error (.of (.divisionByZero (a.toNat % w.size))) cpu := by
  unfold compute
  cases operation.apply w (a.toNat % w.size) (b.toNat % w.size) <;> rfl

/-- The number that an operand stands for: its value, cut to a width. -/
def number? (cpu : Cpu) (w : Width) (o : Operand) : Option Nat :=
  match (readOperand o w).outcome cpu with
  | .ok value => some (value.toNat % w.size)
  | .error _ => none

theorem number?_eq_some_iff {cpu : Cpu} {w : Width} {o : Operand} {n : Nat} :
    cpu.number? w o = some n ↔
      ∃ value, readOperand o w cpu = .ok value cpu ∧ value.toNat % w.size = n := by
  unfold number? outcome
  cases hread : readOperand o w cpu with
  | ok value cpu' =>
    cases (reads_readOperand o w).ok hread
    simp
  | error e cpu' => simp

theorem number?_lt {cpu : Cpu} {w : Width} {o : Operand} {n : Nat}
    (h : cpu.number? w o = some n) : n < w.size := by
  obtain ⟨value, -, rfl⟩ := number?_eq_some_iff.mp h
  exact Nat.mod_lt _ w.size_pos

/-- Processors that differ in their flags at most. -/
def SameButFlags (s t : Cpu) : Prop := ∃ flags, t = { s with flags }

theorem matches_readMemory {α : Type} (access : Memory → Except Error α) :
    Matches SameButFlags (readMemory access) (readMemory access) := by
  refine matches_get_bind ?_
  rintro cpu _ ⟨flags, rfl⟩
  dsimp only
  cases access cpu.memory with
  | ok a => exact .ok a ⟨flags, rfl⟩
  | error e => exact .error e ⟨flags, rfl⟩

theorem matches_load (address : Nat) (w : Width) :
    Matches SameButFlags (load address w) (load address w) := by
  cases w with
  | byte => exact matches_bind (matches_readMemory _) fun _ => matches_pure _
  | word => exact matches_readMemory (·.readWord address)

theorem matches_readRegister (r : Register) :
    Matches SameButFlags (do let cpu ← get; return cpu.reg r)
      (do let cpu ← get; return cpu.reg r) := by
  refine matches_get_bind ?_
  rintro cpu _ ⟨flags, rfl⟩
  exact .ok _ ⟨flags, rfl⟩

theorem matches_readOperand (o : Operand) (w : Width) :
    Matches SameButFlags (readOperand o w) (readOperand o w) := by
  unfold readOperand
  split
  · refine matches_bind ?_ matches_readRegister
    unfold registerOf
    split
    · exact matches_pure _
    · exact matches_fail _
  · exact matches_load _ _
  · exact matches_load _ _
  · exact matches_bind (matches_readMemory _) fun _ => matches_load _ _
  all_goals exact matches_pure _

/-- Operands are read past the flags. -/
theorem number?_withFlags (flags : Flags) (cpu : Cpu) (w : Width) (o : Operand) :
    ({ cpu with flags } : Cpu).number? w o = cpu.number? w o := by
  have hread := outcome_eq_of_sameResult (matches_readOperand o w (s := cpu) ⟨flags, rfl⟩)
  unfold number?
  rw [hread]

/-- A comparison completes exactly if both operands can be read, and sets the flags of the
difference. -/
theorem compare_eq_ok_iff {w : Width} {left right : Operand} {cpu cpu' : Cpu} :
    compare w left right cpu = .ok () cpu' ↔
      ∃ a b, cpu.number? w left = some a ∧ cpu.number? w right = some b ∧
        cpu' = cpu.describing w (Operation.subNumbers w a b) := by
  constructor
  · intro h
    obtain ⟨a, cpu₁, hleft, h⟩ := bind_eq_ok.mp h
    cases (reads_readOperand left w).ok hleft
    obtain ⟨b, cpu₂, hright, h⟩ := bind_eq_ok.mp h
    cases (reads_readOperand right w).ok hright
    rw [bind_of_ok (compute_eq .sub w a b cpu)] at h
    cases h
    exact ⟨_, _, number?_eq_some_iff.mpr ⟨a, hleft, rfl⟩,
      number?_eq_some_iff.mpr ⟨b, hright, rfl⟩, rfl⟩
  · rintro ⟨_, _, hleft, hright, rfl⟩
    obtain ⟨a, hreadLeft, rfl⟩ := number?_eq_some_iff.mp hleft
    obtain ⟨b, hreadRight, rfl⟩ := number?_eq_some_iff.mp hright
    unfold compare
    rw [bind_of_ok hreadLeft, bind_of_ok hreadRight, bind_of_ok (compute_eq .sub w a b cpu)]
    rfl

end Cpu

end TeachingCpu
