import TeachingCpu.Proofs.Cpu.Pairs
import TeachingCpu.Proofs.Machine.Calls

/-!
# Pairs over whole runs

A processor is changed through its own operations, by interrupts, and by the machine that it is
part of. In every state that these lead to, the pairs agree with their halves (`paired_and_write`).
-/

namespace TeachingCpu

open Attempt

namespace Cpu

/-! ## Operations -/

/-- What is done to a processor from outside. -/
inductive Operation where
  | writeRegister (r : Register) (value : Nat)
  | setPc (pc : UInt16)
  | setFlag (flag : Flag) (value : Bool)
  | setResultFlags (w : Width) (value : Nat)
  | initStack
  | reset
  | push (value : UInt16)
  | pop
  | enterCall (returnAddress : UInt16)
  | leaveCall
  /-- Memory is at the disposal of the outside. -/
  | setMemory (memory : Memory)
  /-- An interrupt is served, with some console and files. -/
  | interrupt (console : Console) (storage : Storage)

/-- The processor that an operation leaves, whether or not it fails. -/
def Operation.apply (cpu : Cpu) : Operation → Cpu
  | .writeRegister r value => (Cpu.writeRegister r value).finalState cpu
  | .setPc pc => cpu.setPc pc
  | .setFlag flag value => cpu.setFlag flag value
  | .setResultFlags w value => cpu.setResultFlags w value
  | .initStack => cpu.initStack
  | .reset => cpu.reset
  | .push value => (Cpu.push value).finalState cpu
  | .pop => Cpu.pop.finalState cpu
  | .enterCall returnAddress => (Cpu.enterCall returnAddress).finalState cpu
  | .leaveCall => Cpu.leaveCall.finalState cpu
  | .setMemory memory => { cpu with memory }
  | .interrupt console storage => (Service.dispatch.finalState ⟨cpu, console, storage⟩).cpu

/-- The processor that operations lead to, one behind the other. -/
def operate (cpu : Cpu) (operations : List Operation) : Cpu :=
  operations.foldl Operation.apply cpu

theorem evolves_finalState {α : Type} {act : Attempt Cpu α} (h : Leaves Evolves Eq act)
    (cpu : Cpu) : cpu.Evolves (act.finalState cpu) := by
  refine Leaves.finalState (h.imp (fun _ _ h => h) ?_) cpu
  rintro s t rfl
  exact .refl

/-- An operation keeps pairs and halves in agreement. -/
theorem paired_apply {cpu : Cpu} (h : cpu.registers.Paired) (operation : Operation) :
    (operation.apply cpu).registers.Paired := by
  have hevolves : ∀ {cpu' : Cpu}, cpu.Evolves cpu' → cpu'.registers.Paired :=
    fun h' => h'.paired h
  cases operation with
  | writeRegister r value => exact hevolves (evolves_finalState (leaves_writeRegister r value) cpu)
  | setPc pc => exact hevolves (evolves_setSlot cpu (r := .pc) (by decide) pc)
  | initStack => exact hevolves (evolves_initStack cpu)
  | reset => exact hevolves Move.reset.evolves
  | push value => exact hevolves (evolves_finalState (leaves_push value) cpu)
  | pop => exact hevolves (evolves_finalState leaves_pop cpu)
  | enterCall a => exact hevolves (evolves_finalState (leaves_enterCall a) cpu)
  | leaveCall => exact hevolves (evolves_finalState leaves_leaveCall cpu)
  | interrupt console storage =>
    have hdispatch : Leaves Bench.Evolves Bench.Evolves Service.dispatch :=
      Service.leaves_dispatch.imp (fun _ _ h => h) fun _ _ h => h.evolves
    exact hevolves (hdispatch.finalState ⟨cpu, console, storage⟩)
  | setFlag => exact h
  | setResultFlags => exact h
  | setMemory => exact h

theorem paired_operate (operations : List Operation) {cpu : Cpu} (h : cpu.registers.Paired) :
    (cpu.operate operations).registers.Paired := by
  induction operations generalizing cpu with
  | nil => exact h
  | cons operation operations ih => exact ih (paired_apply h operation)

/-! ## Writing a register -/

/-- A write that is refused: `pc` is protected, or the value does not fit. -/
def WriteRefused (cpu : Cpu) (r : Register) (value : Nat) : Prop :=
  r = .pc ∧ cpu.allowPcWrite = false ∨ r.width.max < value

theorem writeRegister_of_refused {cpu : Cpu} {r : Register} {value : Nat}
    (h : cpu.WriteRefused r value) : ∃ e, writeRegister r value cpu = .error e cpu := by
  rw [writeRegister_eq]
  split
  · exact ⟨_, rfl⟩
  · next hpc =>
    rw [if_pos (h.resolve_left hpc)]
    exact ⟨_, rfl⟩

/-- Otherwise the register takes the value, and a register changes only if it shares its bits. -/
theorem writeRegister_of_not_refused {cpu : Cpu} {r : Register} {value : Nat}
    (h : ¬ cpu.WriteRefused r value) :
    ∃ cpu', writeRegister r value cpu = .ok () cpu' ∧ (cpu'.reg r).toNat = value ∧
      ∀ s, s ≠ r →
        (∀ low high, r.halves? = some (low, high) → s ≠ low ∧ s ≠ high) →
        (∀ pair isHigh, r.owningPair? = some (pair, isHigh) → s ≠ pair) →
          cpu'.reg s = cpu.reg s := by
  obtain ⟨hpc, hfits⟩ := not_or.mp h
  rw [writeRegister_eq, if_neg hpc, if_neg hfits]
  refine ⟨_, rfl, ?_, fun s hs hhalves hpair => Registers.get_write_of_ne hs hhalves hpair⟩
  have hmax := Register.max_le r
  change ((cpu.registers.write r value.toUInt16).get r).toNat = value
  rw [Registers.get_write_self]
  exact Nat.toNat_toUInt16_of_le (by omega)

end Cpu

namespace Machine

theorem Reachable.paired {config : Config} {m : Machine} (h : Reachable config m) :
    m.cpu.registers.Paired := by
  induction h with
  | build h | observe h =>
    obtain ⟨layout, -, rfl⟩ := build_eq_ok_iff.mp h
    exact Registers.paired_zeroed
  | serve hm hserve ih => exact (hm.served hserve).kept.cpu.paired ih

end Machine

/-- In every state that operations lead to from a new processor, and in every state of a machine,
each pair is its high half times 256 plus its low half and each half is a byte. Writing a register
fails with nothing changed, or it makes the register read as the value and changes no other than
its halves or its pair. -/
theorem paired_and_write :
    (∀ layout allowPcWrite operations,
      ((Cpu.powerOn layout allowPcWrite).operate operations).registers.Paired) ∧
    (∀ config m, Machine.Reachable config m → m.cpu.registers.Paired) ∧
    ∀ (cpu : Cpu) (r : Register) (value : Nat),
      (cpu.WriteRefused r value → ∃ e, Cpu.writeRegister r value cpu = .error e cpu) ∧
      (¬ cpu.WriteRefused r value →
        ∃ cpu', Cpu.writeRegister r value cpu = .ok () cpu' ∧ (cpu'.reg r).toNat = value ∧
          ∀ s, s ≠ r →
            (∀ low high, r.halves? = some (low, high) → s ≠ low ∧ s ≠ high) →
            (∀ pair isHigh, r.owningPair? = some (pair, isHigh) → s ≠ pair) →
              cpu'.reg s = cpu.reg s) := by
  refine ⟨fun layout allow operations => ?_, fun config m h => h.paired, fun cpu r value => ?_⟩
  · exact Cpu.paired_operate operations Registers.paired_zeroed
  · exact ⟨Cpu.writeRegister_of_refused, Cpu.writeRegister_of_not_refused⟩

/-- A pair that is written as a whole and then by half, a machine that is new, and a half whose
value does not fit. -/
theorem paired_and_write_ax :
    ((Cpu.powerOn ⟨16, 8, 12⟩ false).operate
      [.writeRegister .ax 0x1234, .writeRegister .ah 0xab]).registers.Paired ∧
    Machine.Reachable Machine.smallest.config Machine.smallest ∧
    Machine.smallest.cpu.registers.Paired ∧ Machine.smallest.cpu.WriteRefused .ah 256 ∧
    (∃ e, Cpu.writeRegister .ah 256 Machine.smallest.cpu = .error e Machine.smallest.cpu) ∧
    ¬ Machine.smallest.cpu.WriteRefused .ah 255 ∧
    ∃ cpu, Cpu.writeRegister .ah 255 Machine.smallest.cpu = .ok () cpu ∧
      (cpu.reg .ah).toNat = 255 := by
  obtain ⟨hcpu, hmachine, hwrite⟩ := paired_and_write
  have hreachable := Machine.reachable_smallest
  have hrefused : Machine.smallest.cpu.WriteRefused .ah 256 := .inr (by decide)
  have hfits : ¬ Machine.smallest.cpu.WriteRefused .ah 255 :=
    not_or.mpr ⟨by decide, by decide⟩
  obtain ⟨cpu, hok, hvalue, -⟩ := (hwrite Machine.smallest.cpu .ah 255).2 hfits
  exact ⟨hcpu _ _ _, hreachable, hmachine _ _ hreachable, hrefused, (hwrite _ _ _).1 hrefused,
    hfits, cpu, hok, hvalue⟩

end TeachingCpu
