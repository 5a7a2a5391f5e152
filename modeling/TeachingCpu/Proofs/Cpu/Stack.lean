import TeachingCpu.Proofs.Cpu.Writes

/-!
# The stack segment

On a processor whose stack registers lie as its layout says (`StackConfined`), a word is refused
exactly where the segment has no room for it or holds none, and the bytes that are written and read
lie in the segment. `push_eq` and `pop_eq` say all that the stack does then; both keep the stack
registers in place, and so does every effect that writes none of them.
-/

namespace TeachingCpu

open Attempt

/-- The stack segment has at least one byte. -/
theorem Layout.stackStart_lt {size stackPercent dataPercent max : Nat} {layout : Layout}
    (h : ofShares size stackPercent dataPercent max = .ok layout) (hsize : layout.size ≤ 65535) :
    layout.stackStart.toNat < layout.size := by
  unfold ofShares at h
  dsimp only at h
  split at h
  · cases h
  · next hmin =>
    rw [minSize] at hmin
    split at h
    · cases h
    · split at h
      · cases h
      · cases h
        dsimp only at hsize ⊢
        have hone : 1 ≤ segmentSize size stackPercent := Nat.le_max_left _ _
        rw [Nat.toNat_toUInt16_of_le (by omega)]
        omega

theorem Config.stackStart_lt {config : Config} {layout : Layout}
    (h : config.layout = .ok layout) : layout.stackStart.toNat < layout.size := by
  obtain ⟨machine, -, hshares⟩ := Except.bind_eq_ok_iff.mp h
  exact Layout.stackStart_lt hshares (size_of_layout h).2.2

namespace Memory

variable {m : Memory} {address : Nat}

theorem writeWord_eq (h : address + 1 ≤ m.layout.lastAddressable.toNat) (value : UInt16) :
    m.writeWord address value = .ok (m.replace address (wordBytes value)) := by
  unfold writeWord
  rw [check_eq_ok_iff.mpr (Nat.le_of_succ_le h), check_eq_ok_iff.mpr h]
  rfl

theorem readWord_eq (h : address + 1 ≤ m.layout.lastAddressable.toNat) :
    m.readWord address = .ok (m.wordAt address) := by
  unfold readWord
  rw [check_eq_ok_iff.mpr (Nat.le_of_succ_le h), check_eq_ok_iff.mpr h]
  rfl

end Memory

namespace Cpu

/-! ## Where the stack lies -/

/-- The stack registers lie as the layout says, and whole words are on the stack. -/
structure StackConfined (cpu : Cpu) : Prop where
  ss : cpu.reg .ss = cpu.layout.stackStart
  se : (cpu.reg .se).toNat = cpu.layout.size - 1
  low : cpu.layout.stackStart.toNat ≤ (cpu.reg .sp).toNat
  high : (cpu.reg .sp).toNat ≤ cpu.layout.size
  even : (cpu.layout.size - (cpu.reg .sp).toNat) % 2 = 0

/-- The layout of a processor is one that a configuration gives. -/
structure Sized (cpu : Cpu) : Prop where
  pos : cpu.layout.stackStart.toNat < cpu.layout.size
  le : cpu.layout.size ≤ 65535

theorem Sized.of_config {config : Config} {cpu : Cpu} (h : config.layout = .ok cpu.layout) :
    cpu.Sized :=
  ⟨Config.stackStart_lt h, (Config.size_of_layout h).2.2⟩

theorem Sized.setPc {cpu : Cpu} (h : cpu.Sized) (pc : UInt16) : (cpu.setPc pc).Sized :=
  ⟨h.pos, h.le⟩

variable {cpu cpu' : Cpu}

/-- A processor whose stack registers and layout are the same. -/
theorem StackConfined.of_regs (h : cpu.StackConfined) (hlayout : cpu'.layout = cpu.layout)
    (hregs : ∀ r ∈ [Register.sp, .ss, .se], cpu'.reg r = cpu.reg r) : cpu'.StackConfined := by
  have hsp := hregs .sp (by decide)
  have hss := hregs .ss (by decide)
  have hse := hregs .se (by decide)
  constructor
  · rw [hss, hlayout, h.ss]
  · rw [hse, hlayout, h.se]
  · rw [hsp, hlayout]
    exact h.low
  · rw [hsp, hlayout]
    exact h.high
  · rw [hsp, hlayout]
    exact h.even

/-- A processor whose stack pointer was moved by whole words within the segment. -/
theorem StackConfined.of_moved (h : cpu.StackConfined) {sp : UInt16}
    (hlayout : cpu'.layout = cpu.layout) (hsp : cpu'.reg .sp = sp)
    (hss : cpu'.reg .ss = cpu.reg .ss) (hse : cpu'.reg .se = cpu.reg .se)
    (hlow : cpu.layout.stackStart.toNat ≤ sp.toNat) (hhigh : sp.toNat ≤ cpu.layout.size)
    (heven : (cpu.layout.size - sp.toNat) % 2 = 0) : cpu'.StackConfined := by
  constructor
  · rw [hss, hlayout, h.ss]
  · rw [hse, hlayout, h.se]
  · rw [hsp, hlayout]
    exact hlow
  · rw [hsp, hlayout]
    exact hhigh
  · rw [hsp, hlayout]
    exact heven

theorem toNat_lastAddressable (hsized : cpu.Sized) :
    cpu.memory.layout.lastAddressable.toNat = cpu.layout.size - 1 :=
  Layout.lastAddressable_eq hsized.le

/-! ## Words on and off the stack -/

/-- The processor with a word on its stack. -/
def pushed (cpu : Cpu) (value : UInt16) : Cpu :=
  let address := (cpu.reg .sp).toNat - 2
  { cpu with memory := cpu.memory.replace address (Memory.wordBytes value) }.setSlot .sp
    address.toUInt16

/-- The processor with a word off its stack. -/
def popped (cpu : Cpu) : Cpu := cpu.setSlot .sp ((cpu.reg .sp).toNat + 2).toUInt16

/-- A word is put on the stack if the segment has room for it. -/
theorem push_eq (hstack : cpu.StackConfined) (hsized : cpu.Sized) (value : UInt16) :
    push value cpu =
      if (cpu.reg .sp).toNat < cpu.layout.stackStart.toNat + 2 then
        .error (.of (.stackOverflow cpu.layout.stackStart)) cpu
      else .ok () (cpu.pushed value) := by
  unfold push
  rw [get_bind_apply]
  rw [hstack.ss]
  split
  · rfl
  · next hroom =>
    have hhigh := hstack.high
    have hword : cpu.memory.writeWord ((cpu.reg .sp).toNat - 2) value =
        .ok (cpu.memory.replace ((cpu.reg .sp).toNat - 2) (Memory.wordBytes value)) := by
      refine Memory.writeWord_eq ?_ value
      rw [toNat_lastAddressable hsized]
      omega
    rw [bind_of_ok (writeMemory_eq_ok_iff.mpr ⟨_, hword, rfl⟩)]
    rfl

/-- A word is taken off the stack if the segment holds one. -/
theorem pop_eq (hstack : cpu.StackConfined) (hsized : cpu.Sized) :
    pop cpu =
      if cpu.layout.size < (cpu.reg .sp).toNat + 2 then .error (.of .stackUnderflow) cpu
      else .ok (cpu.memory.wordAt (cpu.reg .sp).toNat) cpu.popped := by
  have hpos := hsized.pos
  have hend : (cpu.reg .se).toNat + 1 = cpu.layout.size := by
    rw [hstack.se]
    omega
  unfold pop
  rw [get_bind_apply]
  rw [hend]
  split
  · rfl
  · next hholds =>
    have hword : cpu.memory.readWord (cpu.reg .sp).toNat =
        .ok (cpu.memory.wordAt (cpu.reg .sp).toNat) := by
      refine Memory.readWord_eq ?_
      rw [toNat_lastAddressable hsized]
      omega
    rw [bind_of_ok (readMemory_eq_ok_iff.mpr ⟨hword, rfl⟩)]
    rfl

theorem reg_setSlot_of_ne (cpu : Cpu) {r s : Register} (h : r ≠ s) (value : UInt16) :
    (cpu.setSlot r value).reg s = cpu.reg s := Registers.get_setSlot_of_ne _ h value

theorem reg_setSlot_self (cpu : Cpu) (r : Register) (value : UInt16) :
    (cpu.setSlot r value).reg r = value := Registers.get_setSlot_self _ _ _

theorem StackConfined.setPc (h : cpu.StackConfined) (pc : UInt16) :
    (cpu.setPc pc).StackConfined := by
  refine h.of_regs rfl fun r hr => reg_setSlot_of_ne _ ?_ _
  rintro rfl
  exact absurd hr (by decide)

/-- A word that was put on the stack lies in the segment. -/
theorem StackConfined.push (hstack : cpu.StackConfined) (hsized : cpu.Sized) {value : UInt16}
    (h : Cpu.push value cpu = .ok () cpu') :
    cpu' = cpu.pushed value ∧ cpu.layout.stackStart.toNat + 2 ≤ (cpu.reg .sp).toNat ∧
      cpu'.StackConfined := by
  rw [push_eq hstack hsized] at h
  split at h
  · cases h
  · next hroom =>
    cases h
    have hhigh := hstack.high
    have heven := hstack.even
    have hsize := hsized.le
    have hsp : ((cpu.reg .sp).toNat - 2).toUInt16.toNat = (cpu.reg .sp).toNat - 2 :=
      Nat.toNat_toUInt16_of_le (by omega)
    refine ⟨rfl, by omega, ?_⟩
    refine hstack.of_moved rfl (reg_setSlot_self _ .sp _) ?_ ?_ ?_ ?_ ?_
    · exact reg_setSlot_of_ne _ (by decide) _
    · exact reg_setSlot_of_ne _ (by decide) _
    all_goals
      rw [hsp]
      omega

theorem StackConfined.pop (hstack : cpu.StackConfined) (hsized : cpu.Sized) {value : UInt16}
    (h : Cpu.pop cpu = .ok value cpu') :
    value = cpu.memory.wordAt (cpu.reg .sp).toNat ∧ cpu' = cpu.popped ∧ cpu'.StackConfined := by
  rw [pop_eq hstack hsized] at h
  split at h
  · cases h
  · next hholds =>
    cases h
    have hlow := hstack.low
    have heven := hstack.even
    have hsize := hsized.le
    have hsp : ((cpu.reg .sp).toNat + 2).toUInt16.toNat = (cpu.reg .sp).toNat + 2 :=
      Nat.toNat_toUInt16_of_le (by omega)
    refine ⟨rfl, rfl, ?_⟩
    refine hstack.of_moved rfl (reg_setSlot_self _ .sp _) ?_ ?_ ?_ ?_ ?_
    · exact reg_setSlot_of_ne _ (by decide) _
    · exact reg_setSlot_of_ne _ (by decide) _
    all_goals
      rw [hsp]
      omega

/-- Memory is as it was, or a word was written to the stack segment. -/
def WritesToStack (s t : Cpu) : Prop :=
  t.memory = s.memory ∨ ∃ address value,
    t.memory = s.memory.replace address (Memory.wordBytes value) ∧
      s.layout.stackStart.toNat ≤ address ∧ address + 1 < s.layout.size

theorem StackConfined.writesToStack_push (hstack : cpu.StackConfined) (hsized : cpu.Sized)
    {value : UInt16} (h : Cpu.push value cpu = .ok () cpu') : cpu.WritesToStack cpu' := by
  obtain ⟨rfl, hroom, -⟩ := hstack.push hsized h
  have hhigh := hstack.high
  exact .inr ⟨(cpu.reg .sp).toNat - 2, value, rfl, by omega, by omega⟩

/-! ## Instructions that use the stack or go elsewhere -/

theorem pushOperand_eq_ok {source : Operand} (h : pushOperand source cpu = .ok () cpu') :
    ∃ value, readOperand source .word cpu = .ok value cpu ∧ push value cpu = .ok () cpu' := by
  obtain ⟨value, cpu₁, hread, h⟩ := bind_eq_ok.mp h
  cases (reads_readOperand source .word).ok hread
  exact ⟨value, hread, h⟩

theorem popOperand_eq_ok {target : Operand} (h : popOperand target cpu = .ok () cpu') :
    ∃ value cpu₁, pop cpu = .ok value cpu₁ ∧ writeOperand target .word value cpu₁ = .ok () cpu' :=
  bind_eq_ok.mp h

theorem jump_eq_ok {condition : Condition} {target : Operand}
    (h : jump condition target cpu = .ok () cpu') :
    cpu' = cpu ∨ ∃ address, readOperand target .word cpu = .ok address cpu ∧
      cpu' = cpu.setPc address := by
  unfold jump at h
  rw [get_bind_apply] at h
  split at h
  · obtain ⟨address, cpu₁, hread, h⟩ := bind_eq_ok.mp h
    cases (reads_readOperand target .word).ok hread
    cases h
    exact .inr ⟨address, hread, rfl⟩
  · cases h
    exact .inl rfl

theorem call_eq_ok {target : Operand} (h : call target cpu = .ok () cpu') :
    ∃ address cpu₁, readOperand target .word cpu = .ok address cpu ∧
      push cpu.pc cpu = .ok () cpu₁ ∧
        cpu' = { cpu₁ with calls := cpu.pc :: cpu₁.calls }.setPc address := by
  obtain ⟨address, cpu₁, hread, h⟩ := bind_eq_ok.mp h
  cases (reads_readOperand target .word).ok hread
  rw [get_bind_apply] at h
  obtain ⟨_, cpu₂, henter, h⟩ := bind_eq_ok.mp h
  obtain ⟨_, cpu₃, hpush, henter⟩ := bind_eq_ok.mp henter
  cases henter
  cases h
  exact ⟨address, cpu₃, hread, hpush, rfl⟩

theorem ret_eq_ok (h : ret cpu = .ok () cpu') :
    ∃ address cpu₁, pop cpu = .ok address cpu₁ ∧
      cpu' = { cpu₁ with calls := cpu₁.calls.tail }.setPc address := by
  obtain ⟨address, cpu₁, hleave, h⟩ := bind_eq_ok.mp h
  obtain ⟨_, cpu₂, hpop, hleave⟩ := bind_eq_ok.mp hleave
  cases hleave
  cases h
  exact ⟨address, cpu₂, hpop, rfl⟩

/-- Where no stack register is written through an operand, the stack registers stay in place. -/
theorem StackConfined.of_writes {target? : Option Register} (h : cpu.StackConfined)
    (hwrites : Writes target? cpu cpu')
    (hfree : ∀ r ∈ [Register.sp, .ss, .se], target? ≠ some r) : cpu'.StackConfined := by
  refine h.of_regs hwrites.layout fun r hr => hwrites.reg r fun target htarget => ?_
  have hdedicated : r ∈ Register.dedicated := by
    revert hr
    cases r <;> decide
  refine Register.notMem_overlapping hdedicated ?_
  rintro rfl
  exact hfree r hr htarget

theorem StackConfined.perform {effect : Effect} {operands : List Operand}
    (hstack : cpu.StackConfined) (hsized : cpu.Sized)
    (hfree : ∀ r ∈ [Register.sp, .ss, .se],
      (effect.target? operands).bind Operand.register? ≠ some r)
    (h : Cpu.perform effect operands cpu = .ok () cpu') : cpu'.StackConfined := by
  cases hdata : effect.isData with
  | true => exact hstack.of_writes ((leaves_perform_data hdata operands).ok h) hfree
  | false =>
    unfold Cpu.perform at h
    split at h
    -- only jumps and the effects on the stack are left
    any_goals cases hdata
    · rcases jump_eq_ok h with rfl | ⟨address, -, rfl⟩
      · exact hstack
      · exact hstack.setPc address
    · obtain ⟨address, cpu₁, -, hpush, rfl⟩ := call_eq_ok h
      obtain ⟨-, -, hstack₁⟩ := hstack.push hsized hpush
      refine StackConfined.setPc ?_ address
      exact hstack₁.of_regs rfl fun _ _ => rfl
    · obtain ⟨address, cpu₁, hpop, rfl⟩ := ret_eq_ok h
      obtain ⟨-, -, hstack₁⟩ := hstack.pop hsized hpop
      refine StackConfined.setPc ?_ address
      exact hstack₁.of_regs rfl fun _ _ => rfl
    · obtain ⟨value, -, hpush⟩ := pushOperand_eq_ok h
      exact (hstack.push hsized hpush).2.2
    · obtain ⟨value, cpu₁, hpop, hwrite⟩ := popOperand_eq_ok h
      obtain ⟨-, -, hstack₁⟩ := hstack.pop hsized hpop
      exact hstack₁.of_writes ((writes_operand _ _ _).ok hwrite) hfree
    · cases h
      exact hstack

/-- What `push` and `call` write lies in the stack segment. -/
theorem StackConfined.writesToStack {effect : Effect} {operands : List Operand}
    (hstack : cpu.StackConfined) (hsized : cpu.Sized) (heffect : effect = .push ∨ effect = .call)
    (h : Cpu.perform effect operands cpu = .ok () cpu') : cpu.WritesToStack cpu' := by
  match operands, h with
  | [operand], h =>
    rcases heffect with rfl | rfl
    · obtain ⟨value, -, hpush⟩ := pushOperand_eq_ok h
      exact hstack.writesToStack_push hsized hpush
    · obtain ⟨address, cpu₁, -, hpush, rfl⟩ := call_eq_ok h
      have hwrites := hstack.writesToStack_push hsized hpush
      exact hwrites
  -- without its one operand the instruction does nothing
  | [], h | _ :: _ :: _, h =>
    rcases heffect with rfl | rfl <;> cases h <;> exact .inl rfl

end Cpu

/-! ## Refusals -/

/-- An instruction that the stack itself refuses, for want of room or of a word. -/
inductive RefusedByStack (cpu : Cpu) (e : Error) : Instruction → Prop where
  | push {source : Operand} {value : UInt16}
    (hread : Cpu.readOperand source .word cpu = .ok value cpu)
    (h : Cpu.push value cpu = .error e cpu) : RefusedByStack cpu e ⟨.push, [source]⟩
  | call {target : Operand} {address : UInt16}
    (hread : Cpu.readOperand target .word cpu = .ok address cpu)
    (h : Cpu.push cpu.pc cpu = .error e cpu) : RefusedByStack cpu e ⟨.call, [target]⟩
  | pop {target : Operand} (h : Cpu.pop cpu = .error e cpu) : RefusedByStack cpu e ⟨.pop, [target]⟩
  | ret (h : Cpu.pop cpu = .error e cpu) : RefusedByStack cpu e ⟨.ret, []⟩

namespace RefusedByStack

variable {cpu : Cpu} {e : Error} {i : Instruction}

/-- The instruction fails, and the processor stays as it is. -/
theorem perform (h : RefusedByStack cpu e i) :
    Cpu.perform i.opcode.effect i.operands cpu = .error e cpu := by
  cases h with
  | push hread h => exact (bind_of_ok hread).trans h
  | call hread h =>
    refine (bind_of_ok hread).trans ?_
    rw [get_bind_apply]
    exact bind_of_error (bind_of_error h)
  | pop h => exact bind_of_error h
  | ret h => exact bind_of_error (bind_of_error h)

/-- The stack refuses for want of room or for want of a word. -/
theorem kind (h : RefusedByStack cpu e i) (hstack : cpu.StackConfined) (hsized : cpu.Sized) :
    e.kind = if i.opcode = .push ∨ i.opcode = .call then .stackOverflow else .stackUnderflow := by
  have hpush : ∀ {value : UInt16}, Cpu.push value cpu = .error e cpu → e.kind = .stackOverflow := by
    intro value hpush
    rw [Cpu.push_eq hstack hsized] at hpush
    split at hpush
    · cases hpush
      rfl
    · cases hpush
  have hpop : Cpu.pop cpu = .error e cpu → e.kind = .stackUnderflow := by
    intro hpop
    rw [Cpu.pop_eq hstack hsized] at hpop
    split at hpop
    · cases hpop
      rfl
    · cases hpop
  cases h with
  | push _ h => exact hpush h
  | call _ h => exact hpush h
  | pop h => exact hpop h
  | ret h => exact hpop h

end RefusedByStack

end TeachingCpu
