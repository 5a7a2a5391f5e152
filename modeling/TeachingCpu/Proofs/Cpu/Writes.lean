import TeachingCpu.Proofs.Cpu.Pairs

/-!
# What instructions write

An instruction that is no jump and does not work on the stack writes memory, flags and the operand
that stands first, and where this is a register, no other register but those that share its bits
(`leaves_perform_data`). Where `pc` is protected, it stays.
-/

namespace TeachingCpu

open Attempt

/-- A register that belongs to no pair shares its bits with none. -/
theorem Register.notMem_overlapping {r target : Register} (hr : r ∈ dedicated)
    (hne : r ≠ target) : r ∉ target.overlapping := by
  obtain ⟨hhalves, howner⟩ := mem_dedicated_iff.mp hr
  cases htarget : target.halves? with
  | some halves =>
    obtain ⟨low, high⟩ := halves
    obtain ⟨hlow, hhigh⟩ := owningPair?_of_halves? htarget
    simp only [overlapping, htarget, List.mem_cons, List.not_mem_nil, or_false, not_or]
    refine ⟨hne, ?_, ?_⟩
    · rintro rfl
      rw [howner] at hlow
      cases hlow
    · rintro rfl
      rw [howner] at hhigh
      cases hhigh
  | none =>
    cases hpair : target.owningPair? with
    | none => simpa only [overlapping, htarget, hpair, List.mem_singleton] using hne
    | some pair =>
      obtain ⟨low, high, hhalf, -⟩ := exists_halves? hpair
      simp only [overlapping, htarget, hpair, List.mem_cons, List.not_mem_nil, or_false, not_or]
      refine ⟨hne, ?_⟩
      rintro rfl
      rw [hhalves] at hhalf
      cases hhalf

namespace Effect

/-- Whether an effect writes the operand that stands first. -/
def writesTarget : Effect → Bool
  | .move | .arithmetic _ | .complement | .countBy _ | .pop | .loadAddress => true
  | _ => false

/-- Whether an effect neither goes elsewhere nor works on the stack. -/
def isData : Effect → Bool
  | .jump _ | .call | .ret | .push | .pop => false
  | _ => true

/-- The operand that an effect writes. -/
def target? (effect : Effect) (operands : List Operand) : Option Operand :=
  if effect.writesTarget then operands.head? else none

end Effect

/-- The register that an instruction writes through an operand. -/
def Instruction.writtenRegister? (i : Instruction) : Option Register :=
  (i.opcode.effect.target? i.operands).bind Operand.register?

namespace Cpu

/-- At most memory, flags and a register are written. -/
structure Writes (target? : Option Register) (s t : Cpu) : Prop where
  reg : ∀ r, (∀ target, target? = some target → r ∉ target.overlapping) → t.reg r = s.reg r
  pc : s.allowPcWrite = false → t.pc = s.pc
  layout : t.layout = s.layout
  allowPcWrite : t.allowPcWrite = s.allowPcWrite
  calls : t.calls = s.calls

variable {target? : Option Register}

instance : IsPreorder Cpu (Writes target?) where
  refl _ := ⟨fun _ _ => rfl, fun _ => rfl, rfl, rfl, rfl⟩
  trans _ _ _ h h' :=
    { reg := fun r hr => (h'.reg r hr).trans (h.reg r hr)
      pc := fun hallow => (h'.pc (h.allowPcWrite.trans hallow)).trans (h.pc hallow)
      layout := h'.layout.trans h.layout
      allowPcWrite := h'.allowPcWrite.trans h.allowPcWrite
      calls := h'.calls.trans h.calls }

theorem Reflagged.writes {s t : Cpu} (h : Reflagged s t) : Writes target? s t := by
  obtain ⟨flags, rfl, -⟩ := h
  exact ⟨fun _ _ => rfl, fun _ => rfl, rfl, rfl, rfl⟩

theorem writes_memory {access : Memory → Except Error Memory}
    (hlayout : ∀ {m m' : Memory}, access m = .ok m' → m'.layout = m.layout) :
    Leaves (Writes target?) Eq (writeMemory access) := by
  refine ⟨fun {s t _} h => ?_, (leaves_writeMemory hlayout).error⟩
  obtain ⟨memory, haccess, rfl⟩ := writeMemory_eq_ok_iff.mp h
  exact ⟨fun _ _ => rfl, fun _ => rfl, hlayout haccess, rfl, rfl⟩

theorem writes_register (r : Register) (value : Nat) :
    Leaves (Writes (some r)) Eq (writeRegister r value) := by
  refine ⟨fun {s t _} h => ?_, (leaves_writeRegister r value).error⟩
  rw [writeRegister_eq] at h
  split at h
  · cases h
  · next hpc =>
    split at h
    · cases h
    · cases h
      have hkeeps : ∀ other, other ∉ r.overlapping →
          (s.registers.write r value.toUInt16).get other = s.registers.get other :=
        fun other hother => Registers.get_write_of_notMem hother
      refine ⟨fun other hother => hkeeps other (hother r rfl), fun hallow => ?_, rfl, rfl, rfl⟩
      have hne : Register.pc ≠ r := fun heq => hpc ⟨heq.symm, hallow⟩
      exact hkeeps .pc (Register.notMem_overlapping (by decide) hne)

theorem writes_store (address : Nat) (value : UInt16) (w : Width) :
    Leaves (Writes target?) Eq (store address value w) := by
  cases w with
  | byte => exact writes_memory Memory.layout_of_writeByte
  | word => exact writes_memory Memory.layout_of_writeWord

theorem writes_operand (o : Operand) (w : Width) (value : UInt16) :
    Leaves (Writes o.register?) Eq (writeOperand o w value) := by
  unfold writeOperand
  split
  · unfold registerOf
    cases o.register? with
    | none => exact leaves_fail _
    | some r => exact writes_register r value.toNat
  · exact writes_store _ _ _
  · exact writes_store _ _ _
  · exact (reads_readMemory _).bind fun pointer => writes_store _ _ _
  all_goals exact leaves_fail _

/-- A write behind a change of flags. -/
theorem writes_behind_flags {α β : Type} {x : Attempt Cpu α} {f : α → Attempt Cpu β}
    (hx : Leaves Reflagged Eq x) (hf : ∀ a, Leaves (Writes target?) Eq (f a)) :
    Leaves (Writes target?) Reflagged (x >>= f) := by
  refine leaves_bind hx hf ?_ ?_ ?_
  · intro s t u h h'
    exact trans_of (Writes target?) h.writes h'
  · rintro s t rfl
    exact .refl _
  · rintro s t u h rfl
    exact h

theorem Leaves.writes {α : Type} {act : Attempt Cpu α} (h : Leaves (Writes target?) Eq act) :
    Leaves (Writes target?) Reflagged act :=
  h.imp (fun _ _ h => h) fun s _ h => h ▸ .refl s

theorem reflags_complement (w : Width) (value : Nat) :
    Leaves Reflagged Eq (modify fun cpu : Cpu =>
      ((cpu.setResultFlags w value).setFlag .carry false).setFlag .overflow false) := by
  refine leaves_modify fun cpu => ?_
  have hcarry : Flag.carry ∈ resultFlags := by decide
  have hoverflow : Flag.overflow ∈ resultFlags := by decide
  exact ((reflagged_setResultFlags cpu w _).trans (reflagged_setFlag hcarry _ false)).trans
    (reflagged_setFlag hoverflow _ false)

/-- An effect on data writes the operand that stands first, if it writes one. -/
theorem leaves_perform_data {effect : Effect} (hdata : effect.isData = true)
    (operands : List Operand) :
    Leaves (Writes ((effect.target? operands).bind Operand.register?)) Reflagged
      (perform effect operands) := by
  unfold perform
  dsimp only
  split
  · refine Leaves.writes ?_
    exact (reads_readOperand _ _).bind fun value => writes_operand _ _ _
  · refine (reads_readOperand _ _).bind fun a => (reads_readOperand _ _).bind fun b => ?_
    exact writes_behind_flags (leaves_compute _ _ _ _) fun result => writes_operand _ _ _
  · refine (reads_readOperand _ _).bind fun a => (reads_readOperand _ _).bind fun b => ?_
    exact writes_behind_flags (leaves_compute _ _ _ _) fun _ => leaves_pure _
  · refine (reads_readOperand _ _).bind fun a => ?_
    exact writes_behind_flags (reflags_complement _ _) fun _ => writes_operand _ _ _
  · refine (reads_readOperand _ _).bind fun a => ?_
    exact writes_behind_flags (leaves_compute _ _ _ _) fun result => writes_operand _ _ _
  · cases hdata
  · cases hdata
  · cases hdata
  · cases hdata
  · cases hdata
  · exact leaves_modify fun cpu => ⟨fun _ _ => rfl, fun _ => rfl, rfl, rfl, rfl⟩
  · refine Leaves.writes ?_
    exact (reads_addressOf _).bind fun address => writes_operand _ _ _
  · exact leaves_pure _

end Cpu

end TeachingCpu
