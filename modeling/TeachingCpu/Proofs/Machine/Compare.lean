import TeachingCpu.Proofs.Cpu.Compare
import TeachingCpu.Proofs.Machine.Steps

/-!
# Jumps behind a comparison

A comparison that completes leaves everything but the flags as it was. As long as the flags stay,
each conditional jump goes to its target exactly if its relation holds of the two numbers that were
compared (`jumps_decide_comparison`), however many other instructions were executed in between.
-/

namespace TeachingCpu

open Attempt

namespace Cpu

theorem jump_of_holds {c : Condition} {target : Operand} {cpu : Cpu}
    (h : c.holds cpu.flags = true) :
    jump c target cpu = (do
      let address ← readOperand target .word
      modify (·.setPc address) : Attempt Cpu Unit) cpu := by
  unfold jump
  rw [get_bind_apply, if_pos h]

theorem jump_of_not_holds {c : Condition} {target : Operand} {cpu : Cpu}
    (h : ¬ c.holds cpu.flags = true) : jump c target cpu = .ok () cpu := by
  unfold jump
  rw [get_bind_apply, if_neg h]
  rfl

end Cpu

namespace Machine

variable {m m₁ m₂ n n₁ : Machine} {i j : Instruction}

/-- Goes to the address that an operand stands for. -/
def goTo (target : Operand) : Attempt Machine Unit :=
  onCpu do
    let address ← Cpu.readOperand target .word
    modify (·.setPc address)

theorem onCpu_congr {act act' : Attempt Cpu Unit} (h : act m.cpu = act' m.cpu) :
    onCpu act m = onCpu act' m :=
  onPart_congr (onPart_congr h)

theorem exists_operand (h : m.next? = some (i, m₁)) (harity : i.opcode.arity = 1) :
    ∃ target, i.operands = [target] :=
  List.length_eq_one_iff.mp ((complete_of_next? h).trans harity)

theorem exists_operands (h : m.next? = some (i, m₁)) (harity : i.opcode.arity = 2) :
    ∃ left right, i.operands = [left, right] :=
  List.length_eq_two.mp ((complete_of_next? h).trans harity)

theorem arity_of_jump {op : Opcode} {c : Condition} (h : op.effect = .jump c) : op.arity = 1 := by
  cases op <;> first | rfl | cases h

/-- A jump goes to its target if its condition holds, and else goes on. -/
theorem perform_jump {c : Condition} {target : Operand} (hjump : j.opcode.effect = .jump c)
    (htarget : j.operands = [target]) :
    perform j n₁ = if c.holds n₁.cpu.flags then goTo target n₁ else .ok () n₁ := by
  have hperform : perform j = onCpu (Cpu.jump c target) := by
    rw [perform_eq_onCpu (by simp [hjump]) (by simp [hjump]), hjump, htarget]
    rfl
  rw [hperform]
  split
  · next h => exact onCpu_congr (Cpu.jump_of_holds h)
  · next h =>
    have hstays : Cpu.jump c target n₁.cpu = (pure () : Attempt Cpu Unit) n₁.cpu :=
      Cpu.jump_of_not_holds h
    exact onCpu_congr hstays

/-- A comparison that completes has compared two numbers. -/
theorem exists_compared (hnext : m.next? = some (i, m₁)) (hcmp : i.opcode = .cmp)
    (hcompletes : perform i m₁ = .ok () m₂) :
    ∃ left right a b, i.operands = [left, right] ∧
      m₁.cpu.number? (accessWidth i.operands) left = some a ∧
      m₁.cpu.number? (accessWidth i.operands) right = some b ∧
      (stepInstruction.finalState m).cpu =
        m₁.cpu.describing (accessWidth i.operands)
          (Operation.subNumbers (accessWidth i.operands) a b) := by
  obtain ⟨left, right, hoperands⟩ := exists_operands hnext (by rw [hcmp]; rfl)
  obtain ⟨hint, -⟩ | hperform := perform_cases hcompletes
  · rw [hcmp] at hint
    cases hint
  · rw [hcmp, hoperands] at hperform
    obtain ⟨a, b, hleft, hright, hcpu⟩ := Cpu.compare_eq_ok_iff.mp hperform
    rw [hoperands]
    exact ⟨left, right, a, b, rfl, hleft, hright,
      (cpu_of_perform_ok hnext hcompletes).trans hcpu⟩

/-- A comparison of two operands that can be read leaves them and all else but the flags. Whatever
is executed next, as long as the flags are those of the comparison, a conditional jump goes to its
target exactly if its relation holds of the two numbers. -/
theorem jumps_decide_comparison (hnext : m.next? = some (i, m₁)) (hcmp : i.opcode = .cmp)
    (hcompletes : perform i m₁ = .ok () m₂) :
    ∃ left right a b, i.operands = [left, right] ∧
      m₁.cpu.number? (accessWidth i.operands) left = some a ∧
      m₁.cpu.number? (accessWidth i.operands) right = some b ∧
      (∃ flags, (stepInstruction.finalState m).cpu = { m₁.cpu with flags }) ∧
      (stepInstruction.finalState m).cpu.number? (accessWidth i.operands) left = some a ∧
      (stepInstruction.finalState m).cpu.number? (accessWidth i.operands) right = some b ∧
      ∀ (n n₁ : Machine) (j : Instruction) R,
        n.cpu.flags = (stepInstruction.finalState m).cpu.flags →
        n.next? = some (j, n₁) → j.opcode.relation? = some R →
          ∃ target, j.operands = [target] ∧
            (R (accessWidth i.operands) a b → perform j n₁ = goTo target n₁) ∧
            (¬ R (accessWidth i.operands) a b → perform j n₁ = .ok () n₁) := by
  obtain ⟨left, right, a, b, hoperands, hleft, hright, hcpu⟩ :=
    exists_compared hnext hcmp hcompletes
  refine ⟨left, right, a, b, hoperands, hleft, hright, ⟨_, hcpu⟩, ?_, ?_, ?_⟩
  · rw [hcpu]
    exact (Cpu.number?_withFlags _ _ _ _).trans hleft
  · rw [hcpu]
    exact (Cpu.number?_withFlags _ _ _ _).trans hright
  · intro n n₁ j R hflags hjump hR
    obtain ⟨c, heffect, hiff⟩ := holds_condition_iff m₁.cpu.flags hR (Cpu.number?_lt hleft)
      (Cpu.number?_lt hright)
    obtain ⟨target, htarget⟩ := exists_operand hjump (arity_of_jump heffect)
    -- the fetch of the jump moves `pc` and leaves the flags
    obtain ⟨pc, hfetched⟩ := exists_pc_of_next? hjump
    have hsame : n₁.cpu.flags = m₁.cpu.flags.describing (accessWidth i.operands)
        (Operation.subNumbers (accessWidth i.operands) a b) := by
      rw [hfetched]
      exact hflags.trans (congrArg Cpu.flags hcpu)
    refine ⟨target, htarget, fun h => ?_, fun h => ?_⟩
    · rw [perform_jump heffect htarget, hsame, if_pos (hiff.mpr h)]
    · rw [perform_jump heffect htarget, hsame, if_neg (fun hholds => h (hiff.mp hholds))]

/-- A program that compares a byte below zero with zero: `cmp $128 %al`, `jl 0`. -/
def comparesSigned : Image where
  rom := [0x10, 0x04, 0x80, 0x01, 0x00, 0x14, 0x07, 0x00]
  memory := []
  width := .bits16
  entry := 0

/-- The machine before the comparison. -/
def beforeCompare : Machine := (load comparesSigned).finalState smallest

/-- As a signed byte 128 is below zero, so the jump goes to its target. -/
theorem jumps_decide_comparison_comparesSigned :
    ∃ i m₁ m₂ j n₁, beforeCompare.next? = some (i, m₁) ∧ i.opcode = .cmp ∧
      perform i m₁ = .ok () m₂ ∧
      (stepInstruction.finalState beforeCompare).next? = some (j, n₁) ∧ j.opcode = .jl ∧
      perform j n₁ = goTo ⟨.label, 0⟩ n₁ := by
  have hnext : beforeCompare.next? = some (⟨.cmp, [⟨.immediate, 0x80⟩, ⟨.register, 0⟩]⟩,
      fetchNext.finalState beforeCompare.starting) :=
    next?_eq_some_iff.mpr ⟨rfl, rfl⟩
  have hcompletes : perform ⟨.cmp, [⟨.immediate, 0x80⟩, ⟨.register, 0⟩]⟩
      (fetchNext.finalState beforeCompare.starting) = .ok () _ := rfl
  have hjump : (stepInstruction.finalState beforeCompare).next? =
      some (⟨.jl, [⟨.label, 0⟩]⟩,
        fetchNext.finalState (stepInstruction.finalState beforeCompare).starting) :=
    next?_eq_some_iff.mpr ⟨rfl, rfl⟩
  obtain ⟨left, right, a, b, hoperands, hleft, hright, -, -, -, hjumps⟩ :=
    jumps_decide_comparison hnext rfl hcompletes
  cases hoperands
  cases hleft
  cases hright
  obtain ⟨target, htarget, htaken, -⟩ := hjumps _ _ _ _ rfl hjump rfl
  cases htarget
  exact ⟨_, _, _, _, _, hnext, rfl, hcompletes, hjump, rfl, htaken (by decide)⟩

end Machine

end TeachingCpu
