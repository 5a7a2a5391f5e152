import TeachingCpu.Proofs.Assembly.Boundaries
import TeachingCpu.Proofs.Machine.Steps

/-!
# Where `pc` goes

An assembled program whose jumps and calls go to labels stays on the boundaries of its
instructions, if `pc` is protected and every return is to where a call came from. One instruction
leaves `pc` on a boundary (`onTrack_stepInstruction`), since it goes on behind itself, to a label or
back; so every number of instructions does (`onTrack_after`). Then nothing is fetched that is no
instruction of the listing, and `pc` leaves the code only behind its end
(`staysOnBoundaries_of_assemble`).
-/

namespace TeachingCpu

open Attempt
open Listing (Boundary SoundCode LabelOnly)
open Cause (OfEffect)

/-! ## The processor -/

namespace Cpu

variable {cpu cpu' : Cpu}

theorem pc_setPc (cpu : Cpu) (pc : UInt16) : (cpu.setPc pc).pc = pc := reg_setSlot_self _ _ _

theorem writes_setSlot_sp (cpu : Cpu) (sp : UInt16) :
    Writes (some .sp) cpu (cpu.setSlot .sp sp) := by
  refine ⟨fun r hr => ?_, fun _ => reg_setSlot_of_ne _ (by decide) _, rfl, rfl, rfl⟩
  refine reg_setSlot_of_ne _ ?_ _
  rintro rfl
  exact hr .sp rfl (by decide)

theorem writes_push (value : UInt16) : Leaves (Writes (some .sp)) Eq (push value) := by
  refine reads_get.bind fun cpu => ?_
  dsimp only
  split
  · exact leaves_fail _
  · refine leaves_bind_unfailing (writes_memory Memory.layout_of_writeWord) fun _ => ?_
    exact leaves_modify fun cpu => writes_setSlot_sp cpu _

theorem writes_pop : Leaves (Writes (some .sp)) Eq pop := by
  refine reads_get.bind fun cpu => ?_
  dsimp only
  split
  · exact leaves_fail _
  · refine (reads_readMemory _).bind fun value => ?_
    refine leaves_bind_unfailing (leaves_modify fun cpu => ?_) fun _ => leaves_pure _
    exact writes_setSlot_sp cpu _

/-- An effect leaves `pc` where it is, goes to the address that an operand reads as, or back. -/
theorem pc_perform {effect : Effect} {operands : List Operand}
    (hprotects : cpu.allowPcWrite = false) (h : perform effect operands cpu = .ok () cpu') :
    cpu'.pc = cpu.pc ∨
      (effect.branches = true ∧ ∃ target ∈ operands,
        readOperand target .word cpu = .ok cpu'.pc cpu) ∨
      effect = .ret ∧ ∃ cpu₁, pop cpu = .ok cpu'.pc cpu₁ := by
  cases hdata : effect.isData with
  | true => exact .inl (((leaves_perform_data hdata operands).ok h).pc hprotects)
  | false =>
    unfold perform at h
    split at h
    -- only jumps and the effects on the stack are left
    any_goals cases hdata
    · rcases jump_eq_ok h with rfl | ⟨address, hread, rfl⟩
      · exact .inl rfl
      · rw [← pc_setPc cpu address] at hread
        exact .inr (.inl ⟨rfl, _, List.mem_singleton_self _, hread⟩)
    · obtain ⟨address, cpu₁, hread, -, rfl⟩ := call_eq_ok h
      rw [pc_setPc]
      exact .inr (.inl ⟨rfl, _, List.mem_singleton_self _, hread⟩)
    · obtain ⟨address, cpu₁, hpop, rfl⟩ := ret_eq_ok h
      rw [pc_setPc]
      exact .inr (.inr ⟨rfl, cpu₁, hpop⟩)
    · obtain ⟨value, -, hpush⟩ := pushOperand_eq_ok h
      exact .inl (((writes_push value).ok hpush).pc hprotects)
    · obtain ⟨value, cpu₁, hpop, hwrite⟩ := popOperand_eq_ok h
      have hpopped := writes_pop.ok hpop
      have hwritten := ((writes_operand _ _ _).ok hwrite).pc (hpopped.allowPcWrite.trans hprotects)
      exact .inl (hwritten.trans (hpopped.pc hprotects))
    · cases h
      exact .inl rfl

theorem readOperand_label {o : Operand} (hmode : o.mode = .label) (w : Width) :
    readOperand o w cpu = .ok o.value.toUInt16 cpu := by
  unfold readOperand
  rw [hmode]
  rfl

end Cpu

/-- Of the errors of code, the effect of an instruction raises one where a register is unknown. -/
theorem Cause.OfEffect.kind_ne {operands : List Operand} {cause : Cause}
    (h : OfEffect operands cause)
    (hregisters : ∀ o ∈ operands, o.mode = .register → o.register? ≠ none) :
    cause.kind ∉ [.undefinedInstruction, .invalidAddressingMode, .invalidRegisterCode] ∧
      cause.kind ≠ .invalidCodeAddress := by
  cases h with
  | registerIdUnknown ho hmode hnone => exact absurd hnone (hregisters _ ho hmode)
  | _ => simp [Cause.kind]

/-! ## One instruction -/

namespace Machine

variable {m m' m₁ : Machine} {i : Instruction} {e : Error} {rom : List UInt8}
  {listed : List ListedInstruction}

/-- The address that the next instruction takes off the stack to go there, if it is a `ret`. -/
def returnsTo? (m : Machine) : Option UInt16 :=
  match m.next? with
  | some (i, m₁) => if i.opcode = .ret then (Cpu.pop.outcome m₁.cpu).toOption else none
  | none => none

/-- The address behind the next instruction, if it is a `call` that puts it on the stack. -/
def callsFrom? (m : Machine) : Option UInt16 :=
  match m.next? with
  | some (i, m₁) =>
    if i.opcode = .call then ((perform i).outcome m₁).toOption.map fun _ => m₁.cpu.pc else none
  | none => none

theorem effect_eq_ret_iff {op : Opcode} : op.effect = .ret ↔ op = .ret := by
  cases op <;> simp [Opcode.effect]

theorem returnsTo?_eq_some {address : UInt16} {cpu : Cpu} (hnext : m.next? = some (i, m₁))
    (hi : i.opcode = .ret) (hpop : Cpu.pop m₁.cpu = .ok address cpu) :
    m.returnsTo? = some address := by
  unfold returnsTo? outcome
  rw [hnext]
  dsimp only
  rw [if_pos hi, hpop]
  rfl

/-- A machine in some code, at a boundary of its instructions, on which `pc` is protected. -/
structure OnTrack (rom : List UInt8) (listed : List ListedInstruction) (m : Machine) : Prop where
  code : m.rom.toList = rom
  pc : Boundary listed rom.length m.cpu.pc
  protects : m.cpu.allowPcWrite = false
  size : m.cpu.layout.size ≤ 65535

theorem rom_stepInstruction (m : Machine) : (stepInstruction.finalState m).rom = m.rom := by
  cases hrunnable : m.status.isRunnable with
  | false => rw [finalState_of_error (stepInstruction_of_not_runnable hrunnable)]
  | true =>
    cases hstep : stepInstruction m with
    | ok status m' =>
      obtain ⟨-, hproceeds, -⟩ := proceeds_of_stepInstruction hstep
      rw [finalState_of_ok hstep]
      exact congrArg Frame.rom hproceeds.frame
    | error e m' =>
      obtain ⟨m₁, -, hproceeds, rfl⟩ := fault_of_stepInstruction hrunnable hstep
      rw [finalState_of_error hstep]
      exact congrArg Frame.rom hproceeds.frame

/-- Behind the end of the code there is nothing to fetch. -/
theorem fetchNext_of_end (h : m.cpu.pc.toNat = m.rom.size) :
    fetchNext m.starting =
      .error (.of (.codeAddressOutside m.cpu.pc m.rom.size)) m.starting.begun := by
  refine fetchNext_eq_error.mpr ?_
  unfold fetchInstruction
  rw [get_bind_apply]
  exact bind_of_error (fetchByte_eq_error.mpr ⟨Nat.le_of_eq h.symm, rfl, rfl⟩)

section Track

variable (hcode : SoundCode rom listed)

include hcode

/-- An instruction of the listing is fetched, which leaves `pc` on the boundary behind it, or the
code ends. -/
theorem OnTrack.fetchNext_cases (h : OnTrack rom listed m) :
    (∃ l ∈ listed, ∃ m₁, fetchNext m.starting = .ok l.instruction m₁ ∧
      Boundary listed rom.length m₁.cpu.pc) ∨
    m.cpu.pc.toNat = rom.length ∧ fetchNext m.starting =
      .error (.of (.codeAddressOutside m.cpu.pc m.rom.size)) m.starting.begun := by
  have hrom := h.code
  have hsize : m.rom.size = rom.length := by rw [← hrom, Array.length_toList]
  rcases h.pc with ⟨l, hl, hpc⟩ | hend
  · obtain ⟨m₁, hfetch, -, hbehind⟩ :=
      fetchNext_of_listed (hsize ▸ hcode.length) (hrom ▸ hcode.decode) hl hpc
    exact .inl ⟨l, hl, m₁, hfetch, hcode.boundary_behind hl hbehind⟩
  · exact .inr ⟨hend, fetchNext_of_end (hend.trans hsize.symm)⟩

theorem OnTrack.fetched (h : OnTrack rom listed m) (hnext : m.next? = some (i, m₁)) :
    (∃ l ∈ listed, l.instruction = i) ∧ Boundary listed rom.length m₁.cpu.pc := by
  obtain ⟨-, hfetch⟩ := next?_eq_some_iff.mp hnext
  rcases h.fetchNext_cases hcode with ⟨l, hl, m₂, hlisted, hbehind⟩ | ⟨-, hend⟩
  · cases hfetch.symm.trans hlisted
    exact ⟨⟨l, hl, rfl⟩, hbehind⟩
  · cases hfetch.symm.trans hend

theorem OnTrack.unfetched (h : OnTrack rom listed m) (hfetch : fetchNext m.starting = .error e m₁) :
    m.cpu.pc.toNat = rom.length ∧ e.kind = .invalidCodeAddress ∧ m₁.cpu = m.cpu := by
  rcases h.fetchNext_cases hcode with ⟨l, hl, m₂, hlisted, -⟩ | ⟨hpc, hend⟩
  · cases hfetch.symm.trans hlisted
  · cases hfetch.symm.trans hend
    exact ⟨hpc, rfl, rfl⟩

/-- Calls come from in front of boundaries. -/
theorem OnTrack.boundary_callsFrom (h : OnTrack rom listed m) {address : UInt16}
    (haddress : address ∈ m.callsFrom?) : Boundary listed rom.length address := by
  unfold callsFrom? at haddress
  split at haddress
  · next hnext =>
    split at haddress
    · obtain ⟨_, -, rfl⟩ := Option.map_eq_some_iff.mp haddress
      exact (h.fetched hcode hnext).2
    · cases haddress
  · cases haddress

/-- An instruction that takes effect goes on behind itself, to a label or back. -/
theorem OnTrack.boundary_performed (hlabels : LabelOnly listed) (h : OnTrack rom listed m)
    (hreturns : ∀ address ∈ m.returnsTo?, Boundary listed rom.length address)
    {m₂ : Machine} (hnext : m.next? = some (i, m₁)) (hperform : perform i m₁ = .ok () m₂) :
    Boundary listed rom.length m₂.cpu.pc := by
  obtain ⟨⟨l, hl, rfl⟩, hbehind⟩ := h.fetched hcode hnext
  obtain ⟨pc, hcpu⟩ := exists_pc_of_next? hnext
  have hprotects : m₁.cpu.allowPcWrite = false := by
    rw [hcpu]
    exact h.protects
  rcases perform_cases hperform with ⟨-, hinterrupted⟩ | hperformed
  · have hpc : m₂.cpu.pc = m₁.cpu.pc := hinterrupted.reg .pc (by decide)
    rwa [hpc]
  · rcases Cpu.pc_perform hprotects hperformed with
      hpc | ⟨hbranches, target, htarget, hread⟩ | ⟨hret, cpu, hpop⟩
    · rwa [hpc]
    · have hmode := hlabels l hl hbranches target htarget
      rw [Cpu.readOperand_label hmode] at hread
      obtain ⟨hpc, -⟩ := EStateM.Result.ok.inj hread
      rw [← hpc]
      exact hcode.labels l hl target htarget hmode
    · exact hreturns _ (returnsTo?_eq_some hnext (effect_eq_ret_iff.mp hret) hpop)

/-- An instruction leads from a boundary to a boundary, if it is no `ret` to elsewhere. -/
theorem onTrack_stepInstruction (hlabels : LabelOnly listed) (h : OnTrack rom listed m)
    (hreturns : ∀ address ∈ m.returnsTo?, Boundary listed rom.length address) :
    OnTrack rom listed (stepInstruction.finalState m) := by
  have hkept := (kept_stepInstruction.finalState m).cpu.keeps
  refine ⟨?_, ?_, hkept.2.trans h.protects, hkept.1 ▸ h.size⟩
  · rw [rom_stepInstruction]
    exact h.code
  · have hstepped := stepped_stepInstruction m
    generalize (stepInstruction.finalState m).cpu = cpu at hstepped ⊢
    cases hstepped with
    | stopped => exact h.pc
    | unfetched _ hfetch =>
      rw [(h.unfetched hcode hfetch).2.2]
      exact h.pc
    | @failed i m₁ m₂ e hnext hperform =>
      obtain ⟨pc, hcpu⟩ := exists_pc_of_next? hnext
      have hsize₁ : m₁.cpu.layout.size ≤ 65535 := by
        rw [hcpu]
        exact h.size
      rw [(failsOn_of_perform_error hsize₁ hperform).2.pc]
      exact (h.fetched hcode hnext).2
    | completed hnext hperform => exact h.boundary_performed hcode hlabels hreturns hnext hperform

/-- On a boundary an instruction fails for no error of code, but behind the end of it. -/
theorem OnTrack.kind_ne (h : OnTrack rom listed m) (hstep : stepInstruction m = .error e m') :
    e.kind ∉ [.undefinedInstruction, .invalidAddressingMode, .invalidRegisterCode] ∧
      (e.kind = .invalidCodeAddress → m.cpu.pc.toNat = rom.length) := by
  cases hrunnable : m.status.isRunnable with
  | false =>
    rw [stepInstruction_of_not_runnable hrunnable] at hstep
    cases hstep
    exact ⟨by simp [Error.kind, Error.of, Cause.kind], nofun⟩
  | true =>
    cases hfetch : fetchNext m.starting with
    | error e' m₁ =>
      rw [stepInstruction_of_fetchNext_error hrunnable hfetch] at hstep
      cases hstep
      obtain ⟨hend, hkind, -⟩ := h.unfetched hcode hfetch
      rw [hkind]
      exact ⟨by decide, fun _ => hend⟩
    | ok i m₁ =>
      have hnext := next?_eq_some_iff.mpr ⟨hrunnable, hfetch⟩
      obtain ⟨⟨l, hl, rfl⟩, -⟩ := h.fetched hcode hnext
      have heffect : Raises (OfEffect l.instruction.operands)
          (do perform l.instruction; breakIfWanted) :=
        raises_bind (raises_perform l.instruction) fun _ => raises_breakIfWanted
      rw [stepInstruction_of_next? hnext] at hstep
      split at hstep
      · cases hstep
      · next hact =>
        cases hstep
        obtain ⟨hkinds, hend⟩ := (heffect _ _ _ hact).kind_ne (hcode.registers l hl)
        exact ⟨hkinds, fun hkind => absurd hkind hend⟩

/-! ## Runs -/

/-- Behind some instructions, a `ret` goes to where a `call` among them came from. -/
def ReturnsToCall (m : Machine) (j : Nat) : Prop :=
  ∀ address ∈ (m.after j).returnsTo?, ∃ i < j, address ∈ (m.after i).callsFrom?

instance (m : Machine) (j : Nat) : Decidable (m.ReturnsToCall j) := Option.decidableForallMem _

theorem onTrack_after (hlabels : LabelOnly listed) (h : OnTrack rom listed m) {k : Nat}
    (hreturns : ∀ j < k, m.ReturnsToCall j) : OnTrack rom listed (m.after k) := by
  induction k using Nat.strong_induction_on with
  | h k ih =>
    cases k with
    | zero => exact h
    | succ k =>
      have hbefore : ∀ j ≤ k, OnTrack rom listed (m.after j) := fun j hj =>
        ih j (Nat.lt_succ_of_le hj) fun j' hj' => hreturns j' (by omega)
      rw [after_succ]
      refine onTrack_stepInstruction hcode hlabels (hbefore k (Nat.le_refl k)) ?_
      intro address haddress
      obtain ⟨i, hi, hcall⟩ := hreturns k (Nat.lt_succ_self k) address haddress
      exact (hbefore i (Nat.le_of_lt hi)).boundary_callsFrom hcode hcall

end Track

/-- An assembled program starts on a boundary. -/
theorem onTrack_loaded {source : String} {config : Config} {image : Image} {layout : Layout}
    {d : Draft} {p : StringPool} {instructions : List Instruction}
    (h : Assembled source config image layout d p instructions)
    (hprotects : config.allowPcWrite = false) (hbuilt : BuiltFrom config m) :
    OnTrack image.rom (Listing.listFrom 0 instructions) (m.loaded image) := by
  have hloaded := hbuilt.of_kept (kept_loaded m image)
  have hentry := h.boundary_label h.entry
  rw [Nat.toUInt16_eq, UInt16.ofNat_toNat] at hentry
  have hpc : (m.loaded image).cpu.pc = image.entry := Cpu.pc_setPc _ _
  refine ⟨rfl, ?_, hloaded.allowPcWrite.trans hprotects, hloaded.size_le⟩
  rwa [hpc]

/-- A program is assembled for a machine that protects `pc`, and its jumps and calls go to labels.
It is loaded on a machine of that configuration, which was driven by whatever calls before. Behind
any number of instructions, as long as each `ret` went where a `call` came from, `pc` is where an
instruction of the listing begins or the code ends. The next instruction is decoded and its
registers are there, and `pc` is outside of the code only where it ends. -/
theorem staysOnBoundaries_of_assemble {source : String} {config : Config} {image : Image}
    (hassemble : assemble source config = .ok image) (hprotects : config.allowPcWrite = false) :
    ∃ listed, Listing.decodeRom image.rom = .ok listed ∧
      (LabelOnly listed → ∀ n m₀, Reachable config n → load image n = .ok () m₀ →
        ∀ k, (∀ j < k, m₀.ReturnsToCall j) →
          Boundary listed image.rom.length (m₀.after k).cpu.pc ∧
          ∀ e m', stepInstruction (m₀.after k) = .error e m' →
            e.kind ∉ [.undefinedInstruction, .invalidAddressingMode, .invalidRegisterCode] ∧
              (e.kind = .invalidCodeAddress →
                (m₀.after k).cpu.pc.toNat = image.rom.length)) := by
  obtain ⟨layout, d, p, instructions, h⟩ := exists_assembled hassemble
  refine ⟨_, h.sound.decode, fun hlabels n m₀ hn hload k hreturns => ?_⟩
  have hbuilt := hn.builtFrom
  obtain rfl : m₀ = n.loaded image := eq_loaded_of_load hbuilt.size_le hload
  have htrack := onTrack_after h.sound hlabels (onTrack_loaded h hprotects hbuilt) hreturns
  exact ⟨htrack.pc, fun e m' hstep => htrack.kind_ne h.sound hstep⟩

/-- A program that calls a function, which returns. -/
def callsAndReturns : String := ".MAIN\ncall f\nhalt\n.f\nret"

/-- Its code: a `call` of the address behind the `halt`, the `halt` and the `ret`. -/
def callsAndReturnsCode : List Instruction :=
  [⟨.call, [⟨.label, 4⟩]⟩, ⟨.halt, []⟩, ⟨.ret, []⟩]

theorem staysOnBoundaries_callsAndReturns :
    ∃ image listed m₀, assemble callsAndReturns smallest.config = .ok image ∧
      smallest.config.allowPcWrite = false ∧ LabelOnly listed ∧
      Reachable smallest.config smallest ∧ load image smallest = .ok () m₀ ∧
      (∀ j < 2, m₀.ReturnsToCall j) ∧ Boundary listed image.rom.length (m₀.after 2).cpu.pc := by
  have hassemble : assemble callsAndReturns smallest.config =
      .ok ⟨callsAndReturnsCode.flatMap Instruction.toBytes, [], .bits16, 0⟩ := by
    decide +kernel
  obtain ⟨listed, hdecode, h⟩ := staysOnBoundaries_of_assemble hassemble rfl
  have hcomplete : ∀ i ∈ callsAndReturnsCode, i.Complete := by
    simp [callsAndReturnsCode, Instruction.Complete, Opcode.arity]
  cases hdecode.symm.trans (Listing.decodeRom_flatMap_toBytes hcomplete)
  have hlabels : LabelOnly (Listing.listFrom 0 callsAndReturnsCode) := by decide +kernel
  have hload := load_eq (m := smallest) (by decide)
    ⟨callsAndReturnsCode.flatMap Instruction.toBytes, [], .bits16, 0⟩
  have hreturns : ∀ j < 2, (smallest.loaded
      ⟨callsAndReturnsCode.flatMap Instruction.toBytes, [], .bits16, 0⟩).ReturnsToCall j := by
    decide +kernel
  exact ⟨_, _, _, hassemble, rfl, hlabels, reachable_smallest, hload, hreturns,
    (h hlabels smallest _ reachable_smallest hload 2 hreturns).1⟩

end Machine

end TeachingCpu
