import TeachingCpu.Proofs.Cpu.Arithmetic
import TeachingCpu.Proofs.Machine.Compare

/-!
# What the instructions on numbers do

An instruction on numbers that completes leaves the exact result modulo the number of values where
its first operand says, and sets the flags that belong to it. A division fails for its divisor
exactly if this is zero, and then nothing has changed (`calculates`).
-/

namespace TeachingCpu

open Attempt

variable {exact : Nat → Nat → Int}

/-- The instructions on numbers are operations on two operands, counting and the complement. -/
theorem Opcode.effect_of_calculation? {op : Opcode} (h : op.calculation? = some exact) :
    (op.arity = 2 ∧ ∃ operation, op.effect = .arithmetic operation) ∨
      (op.arity = 1 ∧ ∃ operation, op.effect = .countBy operation) ∨ op = .not := by
  cases op with
  | add | sub | mul | div | mod | and | or | xor | shl | shr => exact .inl ⟨rfl, _, rfl⟩
  | inc | dec => exact .inr (.inl ⟨rfl, _, rfl⟩)
  | not => exact .inr (.inr rfl)
  | _ => cases h

namespace Instruction

variable {i : Instruction} {cpu cpu' : Cpu} {a b : Nat}

/-- On the processor, an instruction on numbers yields what it should. -/
theorem yields_of_perform (hs : cpu.Sized) (hcomplete : i.Complete)
    (hcalculation : i.opcode.calculation? = some exact)
    (h : Cpu.perform i.opcode.effect i.operands cpu = .ok () cpu') :
    ∃ a b place, i.numbers? cpu = some (a, b) ∧ i.place? cpu = some place ∧
      i.opcode.Yields exact (accessWidth i.operands) a b
        (cpu'.contents (accessWidth i.operands) place) cpu'.flags := by
  obtain ⟨harity, operation, heffect⟩ | ⟨harity, operation, heffect⟩ | hnot :=
    Opcode.effect_of_calculation? hcalculation
  · obtain ⟨target, source, hoperands⟩ := List.length_eq_two.mp (hcomplete.trans harity)
    rw [heffect, hoperands] at h
    obtain ⟨a, b, place, ha, hb, hplace, hyields⟩ :=
      Cpu.yields_of_arithmetic hs hcalculation heffect h
    unfold numbers? place?
    rw [hoperands]
    simp only [ha, hb]
    exact ⟨a, b, place, rfl, hplace, hyields⟩
  · obtain ⟨target, hoperands⟩ := List.length_eq_one_iff.mp (hcomplete.trans harity)
    rw [heffect, hoperands] at h
    obtain ⟨a, place, ha, hplace, hyields⟩ := Cpu.yields_of_countBy hs hcalculation heffect h
    unfold numbers? place?
    rw [hoperands]
    simp only [ha]
    exact ⟨a, 1, place, rfl, hplace, hyields⟩
  · have harity : i.opcode.arity = 1 := by rw [hnot]; rfl
    obtain ⟨target, hoperands⟩ := List.length_eq_one_iff.mp (hcomplete.trans harity)
    rw [hnot] at hcalculation ⊢
    rw [hnot, hoperands] at h
    cases hcalculation
    obtain ⟨a, place, ha, hplace, hyields⟩ := Cpu.yields_of_complement hs h
    unfold numbers? place?
    rw [hoperands]
    simp only [ha]
    exact ⟨a, 1, place, rfl, hplace, hyields⟩

/-! ## Divisions -/

/-- The failure is not that of a division by zero. -/
def NotDivision (cause : Cause) : Prop := cause.kind ≠ .divisionByZero

instance : Cause.CoversAccess NotDivision where
  addressOutside _ _ := nofun
  registerOverflow _ _ := nofun
  programCounterProtected := nofun
  operandNotWritable _ := nofun
  consoleBroken := nofun

theorem number?_of_numbers? {target source : Operand} (hoperands : i.operands = [target, source])
    (h : i.numbers? cpu = some (a, b)) :
    cpu.number? (accessWidth i.operands) target = some a ∧
      cpu.number? (accessWidth i.operands) source = some b := by
  unfold numbers? at h
  rw [hoperands] at h ⊢
  dsimp only at h
  split at h
  · next ha hb =>
    cases h
    exact ⟨ha, hb⟩
  · cases h

/-- A division is an operation on two operands. -/
theorem exists_operation_of_division (hcomplete : i.Complete)
    (hdivision : i.opcode ∈ [.div, .mod]) :
    ∃ operation target source, (operation = .div ∨ operation = .mod) ∧
      i.operands = [target, source] ∧ i.opcode.effect = .arithmetic operation := by
  obtain hop | hop : i.opcode = .div ∨ i.opcode = .mod := by simpa using hdivision
  · obtain ⟨target, source, hoperands⟩ := List.length_eq_two.mp (hcomplete.trans (by rw [hop]; rfl))
    exact ⟨.div, target, source, .inl rfl, hoperands, by rw [hop]; rfl⟩
  · obtain ⟨target, source, hoperands⟩ := List.length_eq_two.mp (hcomplete.trans (by rw [hop]; rfl))
    exact ⟨.mod, target, source, .inr rfl, hoperands, by rw [hop]; rfl⟩

/-- A division by zero fails with nothing changed. A division by another number may fail to be
written, but not for its divisor. -/
theorem perform_division (hcomplete : i.Complete) (hdivision : i.opcode ∈ [.div, .mod])
    (h : i.numbers? cpu = some (a, b)) :
    (b = 0 → Cpu.perform i.opcode.effect i.operands cpu = .error (.of (.divisionByZero a)) cpu) ∧
      (b ≠ 0 → ∀ e cpu', Cpu.perform i.opcode.effect i.operands cpu = .error e cpu' →
        NotDivision e.cause) := by
  obtain ⟨operation, target, source, hop, hoperands, heffect⟩ :=
    exists_operation_of_division hcomplete hdivision
  obtain ⟨ha, hb⟩ := number?_of_numbers? hoperands h
  have hperform : Cpu.perform i.opcode.effect i.operands =
      Cpu.arithmetic operation (accessWidth i.operands) target source := by
    rw [heffect, hoperands]
    rfl
  rw [hperform, Cpu.arithmetic_eq ha hb]
  constructor
  · rintro rfl
    rw [apply_eq_none_iff.mpr ⟨hop, rfl⟩]
  · intro hne e cpu' hfails
    split at hfails
    · exact Cpu.raises_writeOperand (fun _ _ => nofun) _ _ _ _ _ hfails
    · next hnone => exact absurd (apply_eq_none_iff.mp hnone).2 hne

end Instruction

namespace Machine

variable {config : Config} {m m₁ : Machine} {i : Instruction}

/-- The processor of a reachable machine that has fetched an instruction. -/
theorem Reachable.sized_of_next? (h : Reachable config m) (hnext : m.next? = some (i, m₁)) :
    m₁.cpu.Sized := by
  obtain ⟨pc, hcpu⟩ := exists_pc_of_next? hnext
  have hsized : m.cpu.Sized := .of_config h.builtFrom.layout
  rw [hcpu]
  exact hsized.setPc pc

theorem cpu_error_of_perform_error {e : Error} {m₂ : Machine} (hdivision : i.opcode ∈ [.div, .mod])
    (h : perform i m₁ = .error e m₂) :
    ∃ cpu', Cpu.perform i.opcode.effect i.operands m₁.cpu = .error e cpu' := by
  have heffect : i.opcode.effect ≠ .halt ∧ i.opcode.effect ≠ .interrupt := by
    obtain hop | hop : i.opcode = .div ∨ i.opcode = .mod := by simpa using hdivision
    · rw [hop]
      decide
    · rw [hop]
      decide
  rw [perform_eq_onCpu heffect.1 heffect.2] at h
  obtain ⟨b, hbench, -⟩ := onPart_eq_error.mp h
  obtain ⟨cpu', hcpu, -⟩ := onPart_eq_error.mp hbench
  exact ⟨cpu', hcpu⟩

/-- A division whose operands can be read fails for its divisor exactly if this is zero. -/
theorem divisionByZero_iff {a b : Nat} (hnext : m.next? = some (i, m₁))
    (hdivision : i.opcode ∈ [.div, .mod]) (h : i.numbers? m₁.cpu = some (a, b)) :
    ((∃ e m', stepInstruction m = .error e m' ∧ e.kind = .divisionByZero) ↔ b = 0) ∧
      (b = 0 → (stepInstruction.finalState m).cpu = m₁.cpu) := by
  have hcomplete := complete_of_next? hnext
  by_cases hb : b = 0
  · subst hb
    obtain ⟨m₂, hperform, hcpu⟩ :=
      perform_of_cpu_error ((Instruction.perform_division hcomplete hdivision h).1 rfl)
    have hstep := stepInstruction_of_perform_error hnext hperform
    refine ⟨iff_of_true ⟨_, _, hstep, rfl⟩ rfl, fun _ => ?_⟩
    rw [finalState_of_error hstep]
    exact hcpu
  · refine ⟨iff_of_false ?_ hb, fun hzero => absurd hzero hb⟩
    rintro ⟨e, m', hstep, hkind⟩
    rw [stepInstruction_of_next? hnext] at hstep
    split at hstep
    · cases hstep
    · next e' m₂ hact =>
      cases hstep
      cases hperform : perform i m₁ with
      | ok _ m₃ =>
        rw [bind_of_ok hperform] at hact
        exact raises_breakIfWanted (P := Instruction.NotDivision) m₃ e m₂ hact hkind
      | error e'' m₃ =>
        rw [bind_of_error hperform] at hact
        cases hact
        obtain ⟨cpu', hcpu⟩ := cpu_error_of_perform_error hdivision hperform
        exact (Instruction.perform_division hcomplete hdivision h).2 hb e cpu' hcpu hkind

/-- An instruction on numbers that completes leaves the exact result, cut to its width, where its
first operand says, and the flags that belong to it. A division whose operands can be read fails for
its divisor exactly if this is zero, and then only `pc` was counted up. -/
theorem calculates {exact : Nat → Nat → Int} (hreachable : Reachable config m)
    (hnext : m.next? = some (i, m₁)) (hcalculation : i.opcode.calculation? = some exact) :
    (∃ pc, m₁.cpu = m.cpu.setPc pc) ∧
      (∀ m₂, perform i m₁ = .ok () m₂ →
        ∃ a b place, i.numbers? m₁.cpu = some (a, b) ∧ i.place? m₁.cpu = some place ∧
          i.opcode.Yields exact (accessWidth i.operands) a b
            ((stepInstruction.finalState m).cpu.contents (accessWidth i.operands) place)
            (stepInstruction.finalState m).cpu.flags) ∧
      (i.opcode ∈ [.div, .mod] → ∀ a b, i.numbers? m₁.cpu = some (a, b) →
        ((∃ e m', stepInstruction m = .error e m' ∧ e.kind = .divisionByZero) ↔ b = 0) ∧
          (b = 0 → (stepInstruction.finalState m).cpu = m₁.cpu)) := by
  refine ⟨exists_pc_of_next? hnext, fun m₂ hperform => ?_, fun hdivision a b h => ?_⟩
  · rw [cpu_of_perform_ok hnext hperform]
    obtain ⟨hint, -⟩ | hcpu := perform_cases hperform
    · rw [hint] at hcalculation
      cases hcalculation
    · exact Instruction.yields_of_perform (hreachable.sized_of_next? hnext)
        (complete_of_next? hnext) hcalculation hcpu
  · exact divisionByZero_iff hnext hdivision h

/-- A program that counts a byte below zero and divides it by zero: `sub %al $1`, `div %al $0`. -/
def dividesByZero : Image where
  rom := [0x04, 0x01, 0x00, 0x04, 0x01, 0x06, 0x01, 0x00, 0x04, 0x00]
  memory := []
  width := .bits16
  entry := 0

/-- The machine before the subtraction. -/
def beforeSub : Machine := (load dividesByZero).finalState smallest

/-- The machine before the division. -/
def beforeDiv : Machine := stepInstruction.finalState beforeSub

theorem reachable_beforeSub : Reachable smallest.config beforeSub := by
  have hload : serve smallest (.load dividesByZero) = some (.ok .done, beforeSub) := rfl
  exact .serve reachable_smallest hload

theorem reachable_beforeDiv : Reachable smallest.config beforeDiv := by
  have hstep : serve beforeSub .stepInstruction = some (.ok (.status .running), beforeDiv) := rfl
  exact .serve reachable_beforeSub hstep

/-- Zero less one is 255 and sets the carry flag, and 255 cannot be divided by zero. -/
theorem calculates_dividesByZero :
    ∃ i m₁ m₂ j n₁, Reachable smallest.config beforeSub ∧ beforeSub.next? = some (i, m₁) ∧
      i.opcode = .sub ∧ perform i m₁ = .ok () m₂ ∧
      beforeDiv.cpu.contents .byte (.register .al) = 255 ∧ beforeDiv.cpu.flags.carry = true ∧
      Reachable smallest.config beforeDiv ∧ beforeDiv.next? = some (j, n₁) ∧
      j.opcode = .div ∧ j.numbers? n₁.cpu = some (255, 0) ∧
      ∃ e m', stepInstruction beforeDiv = .error e m' ∧ e.kind = .divisionByZero := by
  have hsub : beforeSub.next? = some (⟨.sub, [⟨.register, 0⟩, ⟨.immediate, 1⟩]⟩,
      fetchNext.finalState beforeSub.starting) := next?_eq_some_iff.mpr ⟨rfl, rfl⟩
  have hcompletes : perform ⟨.sub, [⟨.register, 0⟩, ⟨.immediate, 1⟩]⟩
      (fetchNext.finalState beforeSub.starting) = .ok () _ := rfl
  have hdiv : beforeDiv.next? = some (⟨.div, [⟨.register, 0⟩, ⟨.immediate, 0⟩]⟩,
      fetchNext.finalState beforeDiv.starting) := next?_eq_some_iff.mpr ⟨rfl, rfl⟩
  obtain ⟨-, hyields, -⟩ := calculates reachable_beforeSub hsub rfl
  obtain ⟨a, b, place, hnumbers, hplace, hresult⟩ := hyields _ hcompletes
  cases hnumbers
  cases hplace
  have hcontents : beforeDiv.cpu.contents .byte (.register .al) = 255 :=
    Int.natCast_inj.mp hresult.value
  obtain ⟨-, -, hdivision⟩ := calculates reachable_beforeDiv hdiv rfl
  have hzero := (hdivision (by decide) 255 0 rfl).1.mpr rfl
  exact ⟨_, _, _, _, _, reachable_beforeSub, hsub, rfl, hcompletes, hcontents,
    hresult.carry.mpr Nat.zero_lt_one, reachable_beforeDiv, hdiv, rfl, rfl, hzero⟩

end Machine

end TeachingCpu
