import TeachingCpu.Proofs.Machine.Steps

/-!
# The stack over whole runs

A program that is loaded finds its stack empty at the top of memory. As long as it writes no stack
register through an operand, the stack registers stay where the layout puts them: one instruction
keeps them (`stackConfined_stepInstruction`), so every number of instructions does
(`stackConfined_after`). Then the stack is refused nothing but for want of room or of a word, and
it never grows into the data segment (`stackSafe_of_load`).
-/

namespace TeachingCpu

open Attempt

namespace Machine

variable {config : Config} {m m₁ : Machine} {i : Instruction}

/-- The register that the next instruction writes through an operand, if it takes effect. -/
def writtenRegister? (m : Machine) : Option Register :=
  match m.next? with
  | some (i, m₁) =>
    match perform i m₁ with
    | .ok _ _ => i.writtenRegister?
    | .error _ _ => none
  | none => none

/-- The next instruction writes no stack register through an operand. -/
def SparesStackRegisters (m : Machine) : Prop :=
  ∀ r ∈ [Register.sp, .ss, .se], m.writtenRegister? ≠ some r

instance (m : Machine) : Decidable m.SparesStackRegisters :=
  inferInstanceAs (Decidable (∀ r ∈ [Register.sp, .ss, .se], m.writtenRegister? ≠ some r))

/-! ## One instruction -/

/-- A failure leaves the stack registers, but for a word that was taken off. -/
theorem stackConfined_of_failsOn {cpu cpu' : Cpu} (hstack : cpu.StackConfined)
    (hsized : cpu.Sized) (h : i.FailsOn cpu cpu') : cpu'.StackConfined := by
  cases h with
  | spared _ hflags =>
    obtain ⟨flags, rfl, -⟩ := hflags
    exact hstack.of_regs rfl fun _ _ => rfl
  | @popped sp hunwritable hsp =>
    obtain ⟨-, _, value, cpu₁, _, _, -, hpop, -⟩ := hunwritable
    obtain ⟨-, rfl, hpopped⟩ := hstack.pop hsized hpop
    have hsame : ((cpu.reg .sp).toNat + 2).toUInt16 = sp := by
      rw [← hsp, Nat.toUInt16_eq, UInt16.ofNat_toNat]
    unfold Cpu.popped at hpopped
    rw [hsame] at hpopped
    exact hpopped

/-- The stack is in place for the instruction that was fetched. -/
theorem stackConfined_of_next? (hsized : m.cpu.Sized) (hstack : m.cpu.StackConfined)
    (hnext : m.next? = some (i, m₁)) : m₁.cpu.StackConfined ∧ m₁.cpu.Sized := by
  obtain ⟨pc, hcpu⟩ := exists_pc_of_next? hnext
  rw [hcpu]
  exact ⟨hstack.setPc pc, hsized.setPc pc⟩

/-- An instruction that writes no stack register through an operand keeps the stack in place. -/
theorem stackConfined_stepInstruction (hsized : m.cpu.Sized) (hstack : m.cpu.StackConfined)
    (hspares : m.SparesStackRegisters) :
    (stepInstruction.finalState m).cpu.StackConfined := by
  have hstepped := stepped_stepInstruction m
  generalize (stepInstruction.finalState m).cpu = cpu at hstepped ⊢
  cases hstepped with
  | stopped => exact hstack
  | unfetched _ hfetch =>
    obtain ⟨⟨pc, hcpu⟩, -⟩ := leaves_fetchNext.error hfetch
    rw [hcpu]
    exact hstack.setPc pc
  | @failed i m₁ m₂ e hnext hperform =>
    obtain ⟨hstack₁, hsized₁⟩ := stackConfined_of_next? hsized hstack hnext
    have hfails := (failsOn_of_perform_error hsized₁.le hperform).2
    exact stackConfined_of_failsOn hstack₁ hsized₁ hfails
  | @completed i m₁ m₂ hnext hperform =>
    obtain ⟨hstack₁, hsized₁⟩ := stackConfined_of_next? hsized hstack hnext
    have hwritten : m.writtenRegister? = i.writtenRegister? := by
      unfold writtenRegister?
      rw [hnext]
      dsimp only
      rw [hperform]
    rcases perform_cases hperform with ⟨-, hinterrupted⟩ | heffect
    · refine hstack₁.of_regs hinterrupted.layout fun r hr => hinterrupted.reg r ?_
      revert hr
      cases r <;> decide
    · refine hstack₁.perform hsized₁ (fun r hr => ?_) heffect
      exact fun hsome => hspares r hr (hwritten.trans hsome)

/-- What a `push` or a `call` writes lies in the stack segment. -/
theorem writesToStack_stepInstruction (hsized : m.cpu.Sized) (hstack : m.cpu.StackConfined)
    (hnext : m.next? = some (i, m₁)) (hi : i.opcode = .push ∨ i.opcode = .call) :
    m.cpu.WritesToStack (stepInstruction.finalState m).cpu := by
  obtain ⟨pc, hcpu⟩ := exists_pc_of_next? hnext
  obtain ⟨hstack₁, hsized₁⟩ := stackConfined_of_next? hsized hstack hnext
  -- the fetch leaves memory alone
  suffices hwrites : m₁.cpu.WritesToStack (stepInstruction.finalState m).cpu by
    rw [hcpu] at hwrites
    exact hwrites
  cases hperform : perform i m₁ with
  | ok _ m₂ =>
    rw [cpu_of_perform_ok hnext hperform]
    have heffect : i.opcode.effect = .push ∨ i.opcode.effect = .call := by
      rcases hi with hi | hi <;> rw [hi]
      · exact .inl rfl
      · exact .inr rfl
    rcases perform_cases hperform with ⟨hint, -⟩ | hperformed
    · rcases hi with hi | hi <;> cases hi.symm.trans hint
    · exact hstack₁.writesToStack hsized₁ heffect hperformed
  | error e m₂ =>
    rw [finalState_of_error (stepInstruction_of_perform_error hnext hperform)]
    exact .inl (failsOn_of_perform_error hsized₁.le hperform).2.memory

/-- What the stack refuses fails for want of room or of a word. -/
theorem stepInstruction_of_refusedByStack (hsized : m.cpu.Sized) (hstack : m.cpu.StackConfined)
    (hnext : m.next? = some (i, m₁)) {e : Error} (h : RefusedByStack m₁.cpu e i) :
    (∃ m', stepInstruction m = .error e m') ∧
      e.kind = if i.opcode = .push ∨ i.opcode = .call then .stackOverflow else .stackUnderflow := by
  obtain ⟨hstack₁, hsized₁⟩ := stackConfined_of_next? hsized hstack hnext
  refine ⟨?_, h.kind hstack₁ hsized₁⟩
  obtain ⟨m₂, hperform, -⟩ := perform_of_cpu_error h.perform
  exact ⟨_, stepInstruction_of_perform_error hnext hperform⟩

/-! ## Runs -/

theorem builtFrom_after (h : BuiltFrom config m) (k : Nat) : BuiltFrom config (m.after k) := by
  induction k with
  | zero => exact h
  | succ k ih =>
    rw [after_succ]
    exact ih.of_kept (kept_stepInstruction.finalState _)

theorem stackConfined_after (hbuilt : BuiltFrom config m) (hstack : m.cpu.StackConfined) {k : Nat}
    (hspares : ∀ j < k, (m.after j).SparesStackRegisters) : (m.after k).cpu.StackConfined := by
  induction k with
  | zero => exact hstack
  | succ k ih =>
    rw [after_succ]
    refine stackConfined_stepInstruction ?_ (ih fun j hj => hspares j (Nat.lt_succ_of_lt hj))
      (hspares k (Nat.lt_succ_self k))
    exact .of_config (builtFrom_after hbuilt k).layout

/-- The stack of a program that was just loaded is empty. -/
theorem stackConfined_loaded (hsized : m.cpu.Sized) (image : Image) :
    (m.loaded image).cpu.StackConfined := by
  have hsize := hsized.le
  have hpos := hsized.pos
  have hsp : ((m.loaded image).cpu.reg .sp).toNat = m.cpu.layout.size := by
    change m.cpu.layout.size.toUInt16.toNat = m.cpu.layout.size
    exact Nat.toNat_toUInt16_of_le hsize
  have hlayout : (m.loaded image).cpu.layout = m.cpu.layout :=
    (kept_loaded m image).cpu.keeps.1
  constructor
  · rfl
  · exact Layout.lastAddressable_eq hsize
  · rw [hsp, hlayout]
    exact Nat.le_of_lt hpos
  · rw [hsp, hlayout]
  · rw [hsp, hlayout, Nat.sub_self]

/-- The stack lies where the configuration puts it, is refused nothing but for want of room or of
a word, and does not grow into the data. -/
structure StackSafe (config : Config) (m : Machine) : Prop where
  layout : config.layout = .ok m.cpu.layout
  size : m.cpu.layout.size = config.memorySize
  confined : m.cpu.StackConfined
  refused : ∀ i m₁ e, m.next? = some (i, m₁) → RefusedByStack m₁.cpu e i →
    (∃ m', stepInstruction m = .error e m') ∧
      e.kind = if i.opcode = .push ∨ i.opcode = .call then .stackOverflow else .stackUnderflow
  written : ∀ i m₁, m.next? = some (i, m₁) → i.opcode = .push ∨ i.opcode = .call →
    m.cpu.WritesToStack (stepInstruction.finalState m).cpu

theorem stackSafe_after (hbuilt : BuiltFrom config m) (hstack : m.cpu.StackConfined) {k : Nat}
    (hspares : ∀ j < k, (m.after j).SparesStackRegisters) : StackSafe config (m.after k) := by
  have hlayout := (builtFrom_after hbuilt k).layout
  have hsized := Cpu.Sized.of_config hlayout
  have hconfined := stackConfined_after hbuilt hstack hspares
  refine ⟨hlayout, (Config.size_of_layout hlayout).1, hconfined, ?_, ?_⟩
  · exact fun i m₁ e hnext h => stepInstruction_of_refusedByStack hsized hconfined hnext h
  · exact fun i m₁ hnext hi => writesToStack_stepInstruction hsized hconfined hnext hi

/-- A program is loaded on a machine that was built from a configuration and driven by whatever
calls, and it is let run by whatever calls. It passes through the machines behind so many
instructions, and as long as none of them wrote `sp`, `ss` or `se` through an operand, the stack is
safe on all of these. -/
theorem stackSafe_of_load {n m₀ : Machine} {image : Image} (hn : Reachable config n)
    (hload : load image n = .ok () m₀) :
    (∀ calls replies m, (∀ call ∈ calls, call.runs = true) →
      m₀.serveAll calls = some (replies, m) → ∃ k, m = m₀.after k) ∧
    ∀ k, (∀ j < k, (m₀.after j).SparesStackRegisters) → StackSafe config (m₀.after k) := by
  have hbuilt := hn.builtFrom
  obtain rfl : m₀ = n.loaded image := eq_loaded_of_load hbuilt.size_le hload
  refine ⟨fun calls replies m hcalls hserve => exists_after_of_serveAll hcalls hserve, ?_⟩
  intro k hspares
  have hstack := stackConfined_loaded (.of_config hbuilt.layout) image
  exact stackSafe_after (hbuilt.of_kept (kept_loaded n image)) hstack hspares

/-- The program pushes a word, and fails to pop it into a number. -/
theorem stackSafe_popsIntoNumber :
    ∃ m₀, Reachable smallest.config smallest ∧ load popsIntoNumber smallest = .ok () m₀ ∧
      (∀ j < 2, (m₀.after j).SparesStackRegisters) ∧ StackSafe smallest.config (m₀.after 2) := by
  have hload := load_eq (m := smallest) (by decide) popsIntoNumber
  have hspares : ∀ j < 2, ((smallest.loaded popsIntoNumber).after j).SparesStackRegisters := by
    decide +kernel
  exact ⟨_, reachable_smallest, hload, hspares,
    (stackSafe_of_load reachable_smallest hload).2 2 hspares⟩

end Machine

end TeachingCpu
