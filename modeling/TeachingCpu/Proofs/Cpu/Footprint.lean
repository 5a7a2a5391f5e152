import TeachingCpu.Proofs.Cpu.Arithmetic
import TeachingCpu.Proofs.Listing.Decode

/-!
# What an instruction may change on the processor

Each instruction has a footprint (`Instruction.footprint`): the registers and the flags that it may
change, the stretch of memory that it may write, and whether it may touch the record of calls or
move `pc`. It is known before the instruction takes effect, and all outside of it stays as it was
(`Instruction.confined_perform`).
-/

namespace TeachingCpu

open Attempt

theorem Memory.eq_replace_of_writeWord {m m' : Memory} {address : Nat} {value : UInt16}
    (h : m.writeWord address value = .ok m') : m' = m.replace address (wordBytes value) := by
  obtain ⟨_, -, h⟩ := Except.bind_eq_ok_iff.mp h
  obtain ⟨_, -, h⟩ := Except.bind_eq_ok_iff.mp h
  cases h
  rfl

/-- The number of bytes of an access. -/
def Width.byteCount : Width → Nat
  | .byte => 1
  | .word => 2

namespace Cpu

/-! ## Footprints -/

/-- What an action may change. -/
structure Footprint where
  /-- The registers, except for `pc`. -/
  registers : List Register := []
  movesPc : Bool := false
  flags : List Flag := []
  /-- Where bytes are written. -/
  start : Nat := 0
  /-- How many bytes are written. -/
  length : Nat := 0
  calls : Bool := false
deriving DecidableEq, Repr

/-- All that the first footprint allows, the second allows too. -/
structure Footprint.Within (f g : Footprint) : Prop where
  registers : f.registers ⊆ g.registers
  movesPc : f.movesPc = true → g.movesPc = true
  flags : f.flags ⊆ g.flags
  memory : f.length = 0 ∨ f.start = g.start ∧ f.length = g.length
  calls : f.calls = true → g.calls = true

/-- Nothing is changed outside of a footprint. -/
structure Confined (f : Footprint) (s t : Cpu) : Prop where
  registers : ∀ r ∉ f.registers, r ≠ .pc → t.reg r = s.reg r
  pc : f.movesPc = false → t.pc = s.pc
  flags : ∀ flag ∉ f.flags, t.flags.get flag = s.flags.get flag
  memory : ∀ address, address < f.start ∨ f.start + f.length ≤ address →
    t.memory.byteAt address = s.memory.byteAt address
  calls : f.calls = false → t.calls = s.calls
  layout : t.layout = s.layout
  allowPcWrite : t.allowPcWrite = s.allowPcWrite

variable {f g : Footprint} {s t cpu cpu' : Cpu} {o : Operand} {w : Width} {value : UInt16}

instance : IsPreorder Cpu (Confined f) where
  refl _ := ⟨fun _ _ _ => rfl, fun _ => rfl, fun _ _ => rfl, fun _ _ => rfl, fun _ => rfl, rfl, rfl⟩
  trans _ _ _ h h' :=
    { registers := fun r hr hpc => (h'.registers r hr hpc).trans (h.registers r hr hpc)
      pc := fun hpc => (h'.pc hpc).trans (h.pc hpc)
      flags := fun flag hflag => (h'.flags flag hflag).trans (h.flags flag hflag)
      memory := fun address hout => (h'.memory address hout).trans (h.memory address hout)
      calls := fun hcalls => (h'.calls hcalls).trans (h.calls hcalls)
      layout := h'.layout.trans h.layout
      allowPcWrite := h'.allowPcWrite.trans h.allowPcWrite }

theorem Confined.mono (h : Confined f s t) (hfg : f.Within g) : Confined g s t where
  registers r hr hpc := h.registers r (fun hmem => hr (hfg.registers hmem)) hpc
  pc hpc := h.pc (Bool.eq_false_iff.mpr fun hmoves => Bool.eq_false_iff.mp hpc (hfg.movesPc hmoves))
  flags flag hflag := h.flags flag fun hmem => hflag (hfg.flags hmem)
  memory address hout := by
    refine h.memory address ?_
    rcases hfg.memory with hnone | ⟨hstart, hlength⟩
    · omega
    · rwa [hstart, hlength]
  calls hcalls :=
    h.calls (Bool.eq_false_iff.mpr fun htouched => Bool.eq_false_iff.mp hcalls (hfg.calls htouched))
  layout := h.layout
  allowPcWrite := h.allowPcWrite

/-! ## Single changes -/

theorem Reflagged.confined (h : Reflagged s t) : Confined { flags := resultFlags } s t := by
  obtain ⟨flags, rfl, hflags⟩ := h
  exact ⟨fun _ _ _ => rfl, fun _ => rfl, hflags, fun _ _ => rfl, fun _ => rfl, rfl, rfl⟩

theorem confined_setFlag (cpu : Cpu) (flag : Flag) (value : Bool) :
    Confined { flags := [flag] } cpu (cpu.setFlag flag value) := by
  refine ⟨fun _ _ _ => rfl, fun _ => rfl, fun other hother => ?_, fun _ _ => rfl, fun _ => rfl, rfl,
    rfl⟩
  exact Flags.get_set_of_ne _ (List.ne_of_not_mem_cons hother).symm value

theorem confined_setSp (cpu : Cpu) (sp : UInt16) :
    Confined { registers := [.sp] } cpu (cpu.setSlot .sp sp) := by
  refine ⟨fun r hr _ => ?_, fun _ => ?_, fun _ _ => rfl, fun _ _ => rfl, fun _ => rfl, rfl, rfl⟩
  · exact reg_setSlot_of_ne _ (List.ne_of_not_mem_cons hr).symm _
  · exact reg_setSlot_of_ne _ (by decide) _

theorem confined_setPc (cpu : Cpu) (pc : UInt16) :
    Confined { movesPc := true } cpu (cpu.setPc pc) := by
  refine ⟨fun r _ hr => ?_, nofun, fun _ _ => rfl, fun _ _ => rfl, fun _ => rfl, rfl, rfl⟩
  exact reg_setSlot_of_ne _ hr.symm _

theorem confined_calls (cpu : Cpu) (calls : List UInt16) :
    Confined { calls := true } cpu { cpu with calls } :=
  ⟨fun _ _ _ => rfl, fun _ => rfl, fun _ _ => rfl, fun _ _ => rfl, nofun, rfl, rfl⟩

theorem confined_replace (cpu : Cpu) {address n : Nat} {bytes : List UInt8}
    (hlength : bytes.length = n) :
    Confined { start := address, length := n } cpu
      { cpu with memory := cpu.memory.replace address bytes } where
  registers _ _ _ := rfl
  pc _ := rfl
  flags _ _ := rfl
  memory _ hout := Memory.byteAt_replace_outside (hlength ▸ hout)
  calls _ := rfl
  layout := rfl
  allowPcWrite := rfl

/-! ## Operands -/

/-- What a write to a place may change. -/
def placeFootprint (cpu : Cpu) (w : Width) : Option Place → Footprint
  | some (.register r) => { registers := r.overlapping, movesPc := r == .pc && cpu.allowPcWrite }
  | some (.memory address) => { start := address, length := w.byteCount }
  | none => {}

theorem flags_placeFootprint (cpu : Cpu) (w : Width) (place? : Option Place) :
    (cpu.placeFootprint w place?).flags = [] := by
  unfold placeFootprint
  split <;> rfl

theorem confined_writeRegister {r : Register} {n : Nat}
    (h : writeRegister r n cpu = .ok () cpu') :
    Confined (cpu.placeFootprint w (some (.register r))) cpu cpu' := by
  rw [writeRegister_eq] at h
  split at h
  · cases h
  · next hallowed =>
    split at h
    · cases h
    · cases h
      have hkeeps : ∀ other ∉ r.overlapping,
          (cpu.registers.write r n.toUInt16).get other = cpu.registers.get other :=
        fun other hother => Registers.get_write_of_notMem hother
      refine ⟨fun other hother _ => hkeeps other hother, fun hpc => ?_, fun _ _ => rfl,
        fun _ _ => rfl, fun _ => rfl, rfl, rfl⟩
      have hne : Register.pc ≠ r := by
        rintro rfl
        have hprotected : cpu.allowPcWrite = false := by simpa [placeFootprint] using hpc
        exact hallowed ⟨rfl, hprotected⟩
      exact hkeeps .pc (Register.notMem_overlapping (by decide) hne)

theorem confined_store {address : Nat} (h : store address value w cpu = .ok () cpu') :
    Confined (cpu.placeFootprint w (some (.memory address))) cpu cpu' := by
  unfold store at h
  cases w with
  | byte =>
    obtain ⟨memory, hwrite, rfl⟩ := writeMemory_eq_ok_iff.mp h
    obtain ⟨_, -, hwrite⟩ := Except.bind_eq_ok_iff.mp hwrite
    cases hwrite
    exact confined_replace cpu rfl
  | word =>
    obtain ⟨memory, hwrite, rfl⟩ := writeMemory_eq_ok_iff.mp h
    cases Memory.eq_replace_of_writeWord hwrite
    exact confined_replace cpu rfl

/-- A write to an operand stays within the place that the operand names. -/
theorem confined_writeOperand (h : writeOperand o w value cpu = .ok () cpu') :
    Confined (cpu.placeFootprint w (cpu.place? o)) cpu cpu' := by
  unfold writeOperand at h
  unfold place?
  cases hmode : o.mode with
  | register =>
    simp only [hmode] at h ⊢
    obtain ⟨r, cpu₁, hregister, h⟩ := bind_eq_ok.mp h
    unfold registerOf at hregister
    cases hr : o.register? with
    | none =>
      rw [hr] at hregister
      cases hregister
    | some target =>
      rw [hr] at hregister
      cases hregister
      exact confined_writeRegister h
  | direct | data =>
    simp only [hmode] at h ⊢
    exact confined_store h
  | indirect =>
    simp only [hmode] at h ⊢
    obtain ⟨pointer, cpu₁, hread, h⟩ := bind_eq_ok.mp h
    obtain ⟨hpointer, rfl⟩ := readMemory_eq_ok_iff.mp hread
    rw [hpointer]
    exact confined_store h
  | immediate | label | str =>
    simp only [hmode] at h
    cases h

/-! ## Effects -/

/-- Behind a change of flags, an operand is written. -/
theorem confined_of_reflagged {cpu₁ : Cpu} (hflags : Reflagged cpu cpu₁)
    (h : writeOperand o w value cpu₁ = .ok () cpu') :
    Confined { cpu.placeFootprint w (cpu.place? o) with flags := resultFlags } cpu cpu' := by
  have hbefore := hflags.confined
  obtain ⟨flags, rfl, -⟩ := hflags
  have hwrites := confined_writeOperand h
  change Confined (cpu.placeFootprint w (cpu.place? o)) _ cpu' at hwrites
  refine trans_of (Confined _) (hbefore.mono ?_) (hwrites.mono ?_)
  · exact ⟨List.nil_subset _, nofun, List.Subset.refl _, .inl rfl, nofun⟩
  · refine ⟨List.Subset.refl _, id, ?_, .inr ⟨rfl, rfl⟩, id⟩
    rw [flags_placeFootprint]
    exact List.nil_subset _

theorem confined_move {target source : Operand} (h : move w target source cpu = .ok () cpu') :
    Confined (cpu.placeFootprint w (cpu.place? target)) cpu cpu' := by
  obtain ⟨value, cpu₁, hread, h⟩ := bind_eq_ok.mp h
  cases (reads_readOperand source w).ok hread
  exact confined_writeOperand h

theorem confined_arithmetic {operation : Operation} {target source : Operand}
    (h : arithmetic operation w target source cpu = .ok () cpu') :
    Confined { cpu.placeFootprint w (cpu.place? target) with flags := resultFlags } cpu cpu' := by
  obtain ⟨a, cpu₁, hread, h⟩ := bind_eq_ok.mp h
  cases (reads_readOperand target w).ok hread
  obtain ⟨b, cpu₁, hread, h⟩ := bind_eq_ok.mp h
  cases (reads_readOperand source w).ok hread
  obtain ⟨result, cpu₁, hcompute, h⟩ := bind_eq_ok.mp h
  exact confined_of_reflagged ((leaves_compute operation w a b).ok hcompute) h

theorem confined_countBy {operation : Operation} {target : Operand}
    (h : countBy operation w target cpu = .ok () cpu') :
    Confined { cpu.placeFootprint w (cpu.place? target) with flags := resultFlags } cpu cpu' := by
  obtain ⟨a, cpu₁, hread, h⟩ := bind_eq_ok.mp h
  cases (reads_readOperand target w).ok hread
  obtain ⟨result, cpu₁, hcompute, h⟩ := bind_eq_ok.mp h
  exact confined_of_reflagged ((leaves_compute operation w a 1).ok hcompute) h

theorem confined_complement {target : Operand} (h : complement w target cpu = .ok () cpu') :
    Confined { cpu.placeFootprint w (cpu.place? target) with flags := resultFlags } cpu cpu' := by
  obtain ⟨a, cpu₁, hread, h⟩ := bind_eq_ok.mp h
  cases (reads_readOperand target w).ok hread
  obtain ⟨_, cpu₁, hflags, h⟩ := bind_eq_ok.mp h
  exact confined_of_reflagged ((reflags_complement w _).ok hflags) h

theorem confined_compare {left right : Operand} (h : compare w left right cpu = .ok () cpu') :
    Confined { flags := resultFlags } cpu cpu' := by
  obtain ⟨a, cpu₁, hread, h⟩ := bind_eq_ok.mp h
  cases (reads_readOperand left w).ok hread
  obtain ⟨b, cpu₁, hread, h⟩ := bind_eq_ok.mp h
  cases (reads_readOperand right w).ok hread
  obtain ⟨result, cpu₁, hcompute, h⟩ := bind_eq_ok.mp h
  cases h
  exact ((leaves_compute .sub w a b).ok hcompute).confined

theorem confined_loadAddress {target source : Operand}
    (h : loadAddress target source cpu = .ok () cpu') :
    Confined (cpu.placeFootprint .word (cpu.place? target)) cpu cpu' := by
  obtain ⟨address, cpu₁, hread, h⟩ := bind_eq_ok.mp h
  cases (reads_addressOf source).ok hread
  exact confined_writeOperand h

theorem confined_jump {condition : Condition} {target : Operand}
    (h : jump condition target cpu = .ok () cpu') :
    Confined { movesPc := condition.holds cpu.flags } cpu cpu' := by
  unfold jump at h
  rw [get_bind_apply] at h
  split at h
  · next htaken =>
    obtain ⟨address, cpu₁, hread, h⟩ := bind_eq_ok.mp h
    cases (reads_readOperand target .word).ok hread
    cases h
    rw [htaken]
    exact confined_setPc cpu address
  · cases h
    exact refl_of (Confined _) cpu

/-! ## The stack -/

/-- What a word that is put on the stack may change. -/
def pushFootprint (cpu : Cpu) : Footprint where
  registers := [.sp]
  start := (cpu.reg .sp).toNat - 2
  length := 2

theorem confined_push (h : push value cpu = .ok () cpu') :
    Confined cpu.pushFootprint cpu cpu' := by
  unfold push at h
  rw [get_bind_apply] at h
  split at h
  · cases h
  · obtain ⟨_, cpu₁, hwrite, h⟩ := bind_eq_ok.mp h
    obtain ⟨memory, hword, rfl⟩ := writeMemory_eq_ok_iff.mp hwrite
    cases Memory.eq_replace_of_writeWord hword
    cases h
    refine trans_of (Confined _) ((confined_replace cpu rfl).mono ?_) ((confined_setSp _ _).mono ?_)
    · exact ⟨List.nil_subset _, nofun, List.nil_subset _, .inr ⟨rfl, rfl⟩, nofun⟩
    · exact ⟨List.Subset.refl _, nofun, List.nil_subset _, .inl rfl, nofun⟩

theorem confined_pop (h : pop cpu = .ok value cpu') :
    Confined { registers := [.sp] } cpu cpu' ∧ cpu'.memory = cpu.memory := by
  unfold pop at h
  rw [get_bind_apply] at h
  split at h
  · cases h
  · obtain ⟨word, cpu₁, hread, h⟩ := bind_eq_ok.mp h
    obtain ⟨-, rfl⟩ := readMemory_eq_ok_iff.mp hread
    cases h
    exact ⟨confined_setSp cpu _, rfl⟩

theorem confined_popOperand {target : Operand} (h : popOperand target cpu = .ok () cpu') :
    Confined { cpu.placeFootprint .word (cpu.place? target) with
      registers := .sp :: (cpu.placeFootprint .word (cpu.place? target)).registers } cpu cpu' := by
  obtain ⟨value, cpu₁, hpop, hwrite⟩ := popOperand_eq_ok h
  obtain ⟨hbefore, hmemory⟩ := confined_pop hpop
  have hplace : cpu₁.placeFootprint .word (cpu₁.place? target) =
      cpu.placeFootprint .word (cpu.place? target) := by
    unfold placeFootprint place?
    rw [hmemory, hbefore.allowPcWrite]
  have hwrites := confined_writeOperand hwrite
  rw [hplace] at hwrites
  refine trans_of (Confined _) (hbefore.mono ?_) (hwrites.mono ?_)
  · refine ⟨?_, nofun, List.nil_subset _, .inl rfl, nofun⟩
    exact List.cons_subset_cons _ (List.nil_subset _)
  · exact ⟨List.subset_cons_self _ _, id, List.Subset.refl _, .inr ⟨rfl, rfl⟩, id⟩

theorem confined_call {target : Operand} (h : call target cpu = .ok () cpu') :
    Confined { cpu.pushFootprint with calls := true, movesPc := true } cpu cpu' := by
  obtain ⟨address, cpu₁, -, hpush, rfl⟩ := call_eq_ok h
  have hcalls := confined_calls cpu₁ (cpu.pc :: cpu₁.calls)
  refine trans_of (Confined _) ((confined_push hpush).mono ?_) ?_
  · exact ⟨List.Subset.refl _, nofun, List.nil_subset _, .inr ⟨rfl, rfl⟩, nofun⟩
  refine trans_of (Confined _) (hcalls.mono ?_) ((confined_setPc _ address).mono ?_)
  · exact ⟨List.nil_subset _, nofun, List.nil_subset _, .inl rfl, fun _ => rfl⟩
  · exact ⟨List.nil_subset _, fun _ => rfl, List.nil_subset _, .inl rfl, nofun⟩

theorem confined_ret (h : ret cpu = .ok () cpu') :
    Confined { registers := [.sp], calls := true, movesPc := true } cpu cpu' := by
  obtain ⟨address, cpu₁, hpop, rfl⟩ := ret_eq_ok h
  have hcalls := confined_calls cpu₁ cpu₁.calls.tail
  refine trans_of (Confined _) ((confined_pop hpop).1.mono ?_) ?_
  · exact ⟨List.Subset.refl _, nofun, List.nil_subset _, .inl rfl, nofun⟩
  refine trans_of (Confined _) (hcalls.mono ?_) ((confined_setPc _ address).mono ?_)
  · exact ⟨List.nil_subset _, nofun, List.nil_subset _, .inl rfl, fun _ => rfl⟩
  · exact ⟨List.nil_subset _, fun _ => rfl, List.nil_subset _, .inl rfl, nofun⟩

end Cpu

namespace Instruction

/-! ## Instructions -/

/-- Whether an instruction is a jump whose condition is met. -/
def takesJump (i : Instruction) (flags : Flags) : Bool :=
  match i.opcode.effect with
  | .jump condition => condition.holds flags
  | _ => false

/-- What a write to the first operand may change. -/
def targetFootprint (i : Instruction) (cpu : Cpu) (w : Width) : Cpu.Footprint :=
  cpu.placeFootprint w (i.place? cpu)

/-- What an instruction may change. A `pop` and the address that `lea` gives are words, whatever
the width of the other accesses. -/
def footprint (i : Instruction) (cpu : Cpu) : Cpu.Footprint :=
  match i.opcode with
  | .mov => i.targetFootprint cpu (accessWidth i.operands)
  | .add | .sub | .mul | .div | .mod | .and | .or | .xor | .not | .shl | .shr | .inc | .dec =>
    { i.targetFootprint cpu (accessWidth i.operands) with flags := Cpu.resultFlags }
  | .cmp => { flags := Cpu.resultFlags }
  | .lea => i.targetFootprint cpu .word
  | .pop =>
    { i.targetFootprint cpu .word with
      registers := .sp :: (i.targetFootprint cpu .word).registers }
  | .push => cpu.pushFootprint
  | .call => { cpu.pushFootprint with calls := true, movesPc := true }
  | .ret => { registers := [.sp], calls := true, movesPc := true }
  | .jmp | .je | .jne | .jl | .jg | .jle | .jge | .jc | .jo =>
    { movesPc := i.takesJump cpu.flags }
  | .sti | .cli => { flags := [.interrupt] }
  | .tron | .troff => { flags := [.trap] }
  | .nop | .halt | .int => {}

variable {i : Instruction} {cpu cpu' : Cpu}

/-- An instruction that takes effect on the processor stays within its footprint. -/
theorem confined_perform (hcomplete : i.Complete)
    (h : Cpu.perform i.opcode.effect i.operands cpu = .ok () cpu') :
    Cpu.Confined (i.footprint cpu) cpu cpu' := by
  obtain ⟨opcode, operands⟩ := i
  cases opcode with
  | mov =>
    obtain ⟨target, source, rfl⟩ := List.length_eq_two.mp hcomplete
    exact Cpu.confined_move h
  | add | sub | mul | div | mod | and | or | xor | shl | shr =>
    obtain ⟨target, source, rfl⟩ := List.length_eq_two.mp hcomplete
    exact Cpu.confined_arithmetic h
  | not =>
    obtain ⟨target, rfl⟩ := List.length_eq_one_iff.mp hcomplete
    exact Cpu.confined_complement h
  | inc | dec =>
    obtain ⟨target, rfl⟩ := List.length_eq_one_iff.mp hcomplete
    exact Cpu.confined_countBy h
  | cmp =>
    obtain ⟨left, right, rfl⟩ := List.length_eq_two.mp hcomplete
    exact Cpu.confined_compare h
  | lea =>
    obtain ⟨target, source, rfl⟩ := List.length_eq_two.mp hcomplete
    exact Cpu.confined_loadAddress h
  | pop =>
    obtain ⟨target, rfl⟩ := List.length_eq_one_iff.mp hcomplete
    exact Cpu.confined_popOperand h
  | push =>
    obtain ⟨source, rfl⟩ := List.length_eq_one_iff.mp hcomplete
    obtain ⟨value, -, hpush⟩ := Cpu.pushOperand_eq_ok h
    exact Cpu.confined_push hpush
  | call =>
    obtain ⟨target, rfl⟩ := List.length_eq_one_iff.mp hcomplete
    exact Cpu.confined_call h
  | ret =>
    cases List.length_eq_zero_iff.mp hcomplete
    exact Cpu.confined_ret h
  | jmp | je | jne | jl | jg | jle | jge | jc | jo =>
    obtain ⟨target, rfl⟩ := List.length_eq_one_iff.mp hcomplete
    exact Cpu.confined_jump h
  | sti | cli | tron | troff =>
    cases List.length_eq_zero_iff.mp hcomplete
    cases h
    exact Cpu.confined_setFlag cpu _ _
  | nop | halt | int =>
    cases h
    exact refl_of (Cpu.Confined _) cpu

/-- No instruction changes the flag for files that were not found; only interrupts do. -/
theorem error_notMem_footprint (i : Instruction) (cpu : Cpu) :
    Flag.error ∉ (i.footprint cpu).flags := by
  obtain ⟨opcode, operands⟩ := i
  cases opcode with
  | mov | lea | pop =>
    change Flag.error ∉ (cpu.placeFootprint _ _).flags
    rw [Cpu.flags_placeFootprint]
    exact List.not_mem_nil
  | _ => exact of_decide_eq_true rfl

end Instruction

end TeachingCpu
