import TeachingCpu.Machine.Execute
import TeachingCpu.Proofs.Attempt.Leaves
import TeachingCpu.Proofs.Memory

/-!
# How a processor changes

All that happens to a processor is a sequence of moves: a register is written, a dedicated register
is set, flags or memory or the record of calls are replaced, or the power-on state returns. Each
action of the processor is such a sequence (`Evolves`), also where it fails. An action that fails
keeps more: of the effects of instructions, only `pop` can fail with more changed than the flags
of a result (`Reflagged`).
-/

namespace TeachingCpu

open Attempt

/-! ## Memory keeps its layout -/

namespace Memory

variable {m m' : Memory} {address : Nat}

theorem layout_of_writeByte {value : UInt8} (h : m.writeByte address value = .ok m') :
    m'.layout = m.layout := by
  obtain ⟨_, -, h⟩ := Except.bind_eq_ok_iff.mp h
  cases h
  rfl

theorem layout_of_writeWord {value : UInt16} (h : m.writeWord address value = .ok m') :
    m'.layout = m.layout := by
  obtain ⟨_, -, h⟩ := Except.bind_eq_ok_iff.mp h
  obtain ⟨_, -, h⟩ := Except.bind_eq_ok_iff.mp h
  cases h
  rfl

theorem layout_of_writeString {bytes : List UInt8} (h : m.writeString address bytes = .ok m') :
    m'.layout = m.layout := by
  obtain ⟨-, rfl⟩ := writeString_eq_ok_iff.mp h
  rfl

theorem layout_of_load {bytes : List UInt8} (h : m.load address bytes = .ok m') :
    m'.layout = m.layout := by
  unfold load at h
  split at h
  · cases h
    rfl
  · obtain ⟨_, -, h⟩ := Except.bind_eq_ok_iff.mp h
    cases h
    rfl

/-- Bytes that were stored lie inside. -/
theorem length_le_of_load {bytes : List UInt8} (h : m.load address bytes = .ok m') :
    bytes.length ≤ m.layout.lastAddressable.toNat + 1 := by
  unfold load at h
  split at h
  · next hempty =>
    rw [List.isEmpty_iff.mp hempty]
    exact Nat.zero_le _
  · obtain ⟨_, hcheck, -⟩ := Except.bind_eq_ok_iff.mp h
    have hlast := check_eq_ok_iff.mp hcheck
    omega

end Memory

namespace Cpu

/-! ## Moves -/

/-- One change of a processor. -/
inductive Move (cpu : Cpu) : Cpu → Prop where
  | write (r : Register) (value : UInt16) (h : value.toNat ≤ r.width.max) :
    Move cpu { cpu with registers := cpu.registers.write r value }
  | setSlot {r : Register} (h : r ∈ Register.dedicated) (value : UInt16) :
    Move cpu (cpu.setSlot r value)
  | flags (flags : Flags) : Move cpu { cpu with flags }
  | memory {memory : Memory} (h : memory.layout = cpu.layout) : Move cpu { cpu with memory }
  | calls (calls : List UInt16) : Move cpu { cpu with calls }
  | reset : Move cpu cpu.reset

/-- What a sequence of moves does. -/
abbrev Evolves : Cpu → Cpu → Prop := Relation.ReflTransGen Move

theorem Move.evolves {s t : Cpu} (h : Move s t) : Evolves s t := .single h

theorem evolves_setSlot (cpu : Cpu) {r : Register} (h : r ∈ Register.dedicated)
    (value : UInt16) : cpu.Evolves (cpu.setSlot r value) :=
  (Move.setSlot h value).evolves

theorem evolves_initStack (cpu : Cpu) : cpu.Evolves cpu.initStack :=
  ((evolves_setSlot cpu (r := .ss) (by decide) _).trans
    (evolves_setSlot _ (r := .se) (by decide) _)).trans
      (evolves_setSlot _ (r := .sp) (by decide) _)

/-- No move touches the layout of memory or the protection of `pc`. -/
theorem Evolves.keeps {s t : Cpu} (h : Evolves s t) :
    t.layout = s.layout ∧ t.allowPcWrite = s.allowPcWrite := by
  induction h with
  | refl => exact ⟨rfl, rfl⟩
  | tail _ hmove ih =>
    cases hmove with
    | memory hlayout => exact ⟨hlayout.trans ih.1, ih.2⟩
    | _ => exact ih

/-- The flags that a result sets. -/
def resultFlags : List Flag := [.negative, .carry, .overflow, .zero]

/-- A processor on which at most the flags of a result were changed. -/
def Reflagged (s t : Cpu) : Prop :=
  ∃ flags : Flags, t = { s with flags } ∧ ∀ flag ∉ resultFlags, flags.get flag = s.flags.get flag

theorem Reflagged.refl (cpu : Cpu) : Reflagged cpu cpu := ⟨cpu.flags, rfl, fun _ _ => rfl⟩

instance : Std.Refl Reflagged := ⟨Reflagged.refl⟩

theorem Reflagged.trans {s t u : Cpu} (h : Reflagged s t) (h' : Reflagged t u) :
    Reflagged s u := by
  obtain ⟨flags, rfl, hflags⟩ := h
  obtain ⟨flags', rfl, hflags'⟩ := h'
  exact ⟨flags', rfl, fun flag hflag => (hflags' flag hflag).trans (hflags flag hflag)⟩

instance : IsTrans Cpu Reflagged := ⟨fun _ _ _ => Reflagged.trans⟩

theorem Reflagged.evolves {s t : Cpu} (h : Reflagged s t) : Evolves s t := by
  obtain ⟨flags, rfl, -⟩ := h
  exact (Move.flags flags).evolves

theorem reflagged_setFlag {flag : Flag} (h : flag ∈ resultFlags) (cpu : Cpu) (value : Bool) :
    Reflagged cpu (cpu.setFlag flag value) := by
  refine ⟨cpu.flags.set flag value, rfl, fun other hother => ?_⟩
  refine Flags.get_set_of_ne _ (fun heq => ?_) value
  exact hother (heq ▸ h)

theorem reflagged_setResultFlags (cpu : Cpu) (w : Width) (value : Nat) :
    Reflagged cpu (cpu.setResultFlags w value) := by
  refine ⟨cpu.flags.ofResult w value, rfl, fun flag hflag => ?_⟩
  cases flag with
  | negative => exact absurd (by decide) hflag
  | zero => exact absurd (by decide) hflag
  | _ => rfl

/-! ## Reading and writing -/

theorem reads_readMemory {α : Type} (access : Memory → Except Error α) :
    Reads (readMemory access) :=
  reads_get.bind fun cpu => reads_ofExcept (access cpu.memory)

theorem readMemory_eq_ok_iff {α : Type} {access : Memory → Except Error α} {cpu cpu' : Cpu}
    {a : α} : readMemory access cpu = .ok a cpu' ↔ access cpu.memory = .ok a ∧ cpu = cpu' :=
  ofExcept_eq_ok

theorem readMemory_of_error {α : Type} {access : Memory → Except Error α} {cpu : Cpu} {e : Error}
    (h : access cpu.memory = .error e) : readMemory access cpu = .error e cpu := by
  rw [readMemory, get_bind_apply, h, ofExcept_error]

/-- Memory is replaced by what an access gives. -/
theorem writeMemory_eq (access : Memory → Except Error Memory) (cpu : Cpu) :
    writeMemory access cpu =
      match access cpu.memory with
      | .ok memory => .ok () { cpu with memory }
      | .error e => .error e cpu := by
  unfold writeMemory
  rw [get_bind_apply]
  cases access cpu.memory <;> rfl

theorem writeMemory_eq_ok_iff {access : Memory → Except Error Memory} {cpu cpu' : Cpu} :
    writeMemory access cpu = .ok () cpu' ↔
      ∃ memory, access cpu.memory = .ok memory ∧ cpu' = { cpu with memory } := by
  rw [writeMemory_eq]
  cases access cpu.memory <;> simp [eq_comm]

theorem writeMemory_of_error {access : Memory → Except Error Memory} {cpu : Cpu} {e : Error}
    (h : access cpu.memory = .error e) : writeMemory access cpu = .error e cpu := by
  rw [writeMemory_eq, h]

/-- A string is stored as by an access that changes memory, and the address of its zero byte is
known. -/
theorem storeString_eq (address : Nat) (bytes : List UInt8) :
    storeString address bytes = (do
      writeMemory (·.writeString address bytes)
      return address + bytes.length) := by
  funext cpu
  change (ofExcept (cpu.memory.storeString address bytes) >>= _) cpu = _
  rw [Memory.storeString_eq]
  cases hwrite : cpu.memory.writeString address bytes with
  | ok memory => rw [bind_of_ok (writeMemory_eq_ok_iff.mpr ⟨memory, hwrite, rfl⟩)]; rfl
  | error e => rw [bind_of_error (writeMemory_of_error hwrite)]; rfl

theorem leaves_writeMemory {access : Memory → Except Error Memory}
    (h : ∀ {m m' : Memory}, access m = .ok m' → m'.layout = m.layout) :
    Leaves Evolves Eq (writeMemory access) := by
  constructor
  · intro s t a hact
    obtain ⟨memory, haccess, rfl⟩ := writeMemory_eq_ok_iff.mp hact
    exact (Move.memory (h haccess)).evolves
  · intro s t e hact
    rw [writeMemory_eq] at hact
    cases haccess : access s.memory with
    | ok memory =>
      rw [haccess] at hact
      cases hact
    | error e' =>
      rw [haccess] at hact
      cases hact
      rfl

/-- A register is written if it may be and the value fits. -/
theorem writeRegister_eq (r : Register) (value : Nat) (cpu : Cpu) :
    writeRegister r value cpu =
      if r = .pc ∧ cpu.allowPcWrite = false then .error (.of .programCounterProtected) cpu
      else if r.width.max < value then .error (.of (.registerOverflow r value)) cpu
      else .ok () { cpu with registers := cpu.registers.write r value.toUInt16 } := by
  unfold writeRegister
  rw [get_bind_apply]
  split
  · rfl
  · split <;> rfl

theorem writeRegister_of_fits {r : Register} {value : Nat} (hr : r ≠ .pc)
    (hvalue : value ≤ r.width.max) (cpu : Cpu) :
    writeRegister r value cpu =
      .ok () { cpu with registers := cpu.registers.write r value.toUInt16 } := by
  rw [writeRegister_eq, if_neg fun hpc => hr hpc.1, if_neg (Nat.not_lt.mpr hvalue)]

theorem Register.max_le (r : Register) : r.width.max ≤ 65535 := by
  cases r <;> decide

theorem leaves_writeRegister (r : Register) (value : Nat) :
    Leaves Evolves Eq (writeRegister r value) := by
  constructor
  · intro s t a h
    rw [writeRegister_eq] at h
    split at h
    · cases h
    · split at h
      · cases h
      · next hfits =>
        cases h
        refine (Move.write r value.toUInt16 ?_).evolves
        have hmax := Register.max_le r
        rw [Nat.toNat_toUInt16_of_le (by omega)]
        omega
  · intro s t e h
    rw [writeRegister_eq] at h
    split at h
    · cases h
      rfl
    · split at h
      · cases h
        rfl
      · cases h

theorem reads_registerOf (o : Operand) : Reads (registerOf o) := by
  unfold registerOf
  split
  · exact leaves_pure _
  · exact leaves_fail _

theorem reads_load (address : Nat) (w : Width) : Reads (load address w) := by
  cases w with
  | byte => exact (reads_readMemory _).bind fun b => leaves_pure _
  | word => exact reads_readMemory (·.readWord address)

theorem leaves_store (address : Nat) (value : UInt16) (w : Width) :
    Leaves Evolves Eq (store address value w) := by
  cases w with
  | byte => exact leaves_writeMemory Memory.layout_of_writeByte
  | word => exact leaves_writeMemory Memory.layout_of_writeWord

theorem reads_readOperand (o : Operand) (w : Width) : Reads (readOperand o w) := by
  unfold readOperand
  split
  · refine (reads_registerOf o).bind fun r => ?_
    exact reads_get.bind fun cpu => leaves_pure _
  · exact reads_load _ _
  · exact reads_load _ _
  · exact (reads_readMemory _).bind fun pointer => reads_load _ _
  all_goals exact leaves_pure _

theorem leaves_writeOperand (o : Operand) (w : Width) (value : UInt16) :
    Leaves Evolves Eq (writeOperand o w value) := by
  unfold writeOperand
  split
  · exact (reads_registerOf o).bind fun r => leaves_writeRegister _ _
  · exact leaves_store _ _ _
  · exact leaves_store _ _ _
  · exact (reads_readMemory _).bind fun pointer => leaves_store _ _ _
  all_goals exact leaves_fail _

theorem reads_addressOf (o : Operand) : Reads (addressOf o) := by
  unfold addressOf
  split
  · exact leaves_pure _
  · exact leaves_pure _
  · exact leaves_pure _
  · exact reads_readMemory _
  all_goals exact leaves_fail _

/-! ## The stack -/

theorem leaves_setSlot {r : Register} (h : r ∈ Register.dedicated) (value : UInt16)
    {E : Cpu → Cpu → Prop} : Leaves Evolves E (modify fun cpu => cpu.setSlot r value) :=
  leaves_modify fun cpu => evolves_setSlot cpu h value

theorem leaves_setPc (pc : UInt16) {E : Cpu → Cpu → Prop} :
    Leaves Evolves E (modify fun cpu => cpu.setPc pc) :=
  leaves_setSlot (by decide) pc

theorem leaves_push (value : UInt16) : Leaves Evolves Eq (push value) := by
  refine reads_get.bind fun cpu => ?_
  dsimp only
  split
  · exact leaves_fail _
  · refine leaves_bind_unfailing (leaves_writeMemory Memory.layout_of_writeWord) fun _ => ?_
    exact leaves_setSlot (by decide) _

theorem leaves_pop : Leaves Evolves Eq pop := by
  refine reads_get.bind fun cpu => ?_
  dsimp only
  split
  · exact leaves_fail _
  · refine (reads_readMemory _).bind fun value => ?_
    exact leaves_bind_unfailing (leaves_setSlot (by decide) _) fun _ => leaves_pure _

theorem leaves_enterCall (returnAddress : UInt16) : Leaves Evolves Eq (enterCall returnAddress) :=
  leaves_bind_unfailing (leaves_push returnAddress) fun _ =>
    leaves_modify fun _ => (Move.calls _).evolves

theorem leaves_leaveCall : Leaves Evolves Eq leaveCall := by
  refine leaves_bind_unfailing leaves_pop fun address => ?_
  exact leaves_bind_unfailing (leaves_modify fun _ => (Move.calls _).evolves) fun _ =>
    leaves_pure _

/-! ## Effects of instructions -/

theorem leaves_compute (operation : Operation) (w : Width) (a b : UInt16) :
    Leaves Reflagged Eq (compute operation w a b) := by
  unfold compute
  dsimp only
  split
  · exact leaves_fail _
  · next result _ =>
    refine leaves_bind_unfailing (leaves_modify fun cpu => ?_) fun _ => leaves_pure _
    have hcarry : Flag.carry ∈ resultFlags := by decide
    have hoverflow : Flag.overflow ∈ resultFlags := by decide
    exact ((reflagged_setResultFlags cpu w result.value).trans
      (reflagged_setFlag hcarry _ result.carry)).trans
        (reflagged_setFlag hoverflow _ result.overflow)

/-- A write behind a change of flags may fail with the flags changed. -/
theorem leaves_reflag_write {α β : Type} {x : Attempt Cpu α} {f : α → Attempt Cpu β}
    (hx : Leaves Reflagged Eq x) (hf : ∀ a, Leaves Evolves Eq (f a)) :
    Leaves Evolves Reflagged (x >>= f) := by
  refine leaves_bind hx hf ?_ ?_ ?_
  · intro s t u h h'
    exact h.evolves.trans h'
  · rintro s t rfl
    exact .refl _
  · rintro s t u h rfl
    exact h

theorem leaves_arithmetic (operation : Operation) (w : Width) (target source : Operand) :
    Leaves Evolves Reflagged (arithmetic operation w target source) := by
  refine (reads_readOperand target w).bind fun a => ?_
  refine (reads_readOperand source w).bind fun b => ?_
  exact leaves_reflag_write (leaves_compute operation w a b) fun result =>
    leaves_writeOperand target w result

theorem leaves_countBy (operation : Operation) (w : Width) (target : Operand) :
    Leaves Evolves Reflagged (countBy operation w target) := by
  refine (reads_readOperand target w).bind fun a => ?_
  exact leaves_reflag_write (leaves_compute operation w a 1) fun result =>
    leaves_writeOperand target w result

theorem leaves_compare (w : Width) (left right : Operand) :
    Leaves Evolves Reflagged (compare w left right) := by
  refine (reads_readOperand left w).bind fun a => ?_
  refine (reads_readOperand right w).bind fun b => ?_
  exact leaves_reflag_write (leaves_compute .sub w a b) fun _ => leaves_pure _

theorem leaves_complement (w : Width) (target : Operand) :
    Leaves Evolves Reflagged (complement w target) := by
  refine (reads_readOperand target w).bind fun a => ?_
  refine leaves_reflag_write (leaves_modify fun cpu => ?_) fun _ => leaves_writeOperand target w _
  have hcarry : Flag.carry ∈ resultFlags := by decide
  have hoverflow : Flag.overflow ∈ resultFlags := by decide
  exact ((reflagged_setResultFlags cpu w _).trans (reflagged_setFlag hcarry _ false)).trans
    (reflagged_setFlag hoverflow _ false)

theorem leaves_move (w : Width) (target source : Operand) :
    Leaves Evolves Eq (move w target source) :=
  (reads_readOperand source w).bind fun value => leaves_writeOperand target w value

theorem leaves_jump (condition : Condition) (target : Operand) :
    Leaves Evolves Eq (jump condition target) := by
  refine reads_get.bind fun cpu => ?_
  split
  · exact (reads_readOperand target .word).bind fun address => leaves_setPc address
  · exact leaves_pure _

theorem leaves_call (target : Operand) : Leaves Evolves Eq (call target) := by
  refine (reads_readOperand target .word).bind fun address => ?_
  refine reads_get.bind fun cpu => ?_
  exact leaves_bind_unfailing (leaves_enterCall cpu.pc) fun _ => leaves_setPc address

theorem leaves_ret : Leaves Evolves Eq ret :=
  leaves_bind_unfailing leaves_leaveCall fun address => leaves_setPc address

theorem leaves_pushOperand (source : Operand) : Leaves Evolves Eq (pushOperand source) :=
  (reads_readOperand source .word).bind fun value => leaves_push value

/-- A `pop` can fail behind the stack: its word is off, and then it is not written. -/
theorem leaves_popOperand (target : Operand) : Leaves Evolves Evolves (popOperand target) := by
  refine leaves_bind leaves_pop (fun value => leaves_writeOperand target .word value) ?_ ?_ ?_
  · intro s t u h h'
    exact h.trans h'
  · rintro s t rfl
    exact .refl
  · rintro s t u h rfl
    exact h

theorem leaves_loadAddress (target source : Operand) :
    Leaves Evolves Eq (loadAddress target source) :=
  (reads_addressOf source).bind fun address => leaves_writeOperand target .word address

theorem Leaves.reflagged {α : Type} {act : Attempt Cpu α} (h : Leaves Evolves Eq act) :
    Leaves Evolves Reflagged act :=
  h.imp (fun _ _ h => h) fun s _ h => h ▸ .refl s

/-- Of the effects that concern the processor alone, only `pop` fails with more changed than the
flags of a result. -/
theorem leaves_perform {effect : Effect} (heffect : effect ≠ .pop) (operands : List Operand) :
    Leaves Evolves Reflagged (perform effect operands) := by
  unfold perform
  dsimp only
  split
  · exact Leaves.reflagged (leaves_move _ _ _)
  · exact leaves_arithmetic _ _ _ _
  · exact leaves_compare _ _ _
  · exact leaves_complement _ _
  · exact leaves_countBy _ _ _
  · exact Leaves.reflagged (leaves_jump _ _)
  · exact Leaves.reflagged (leaves_call _)
  · exact Leaves.reflagged leaves_ret
  · exact Leaves.reflagged (leaves_pushOperand _)
  · exact absurd rfl heffect
  · exact leaves_modify fun cpu => (Move.flags _).evolves
  · exact Leaves.reflagged (leaves_loadAddress _ _)
  · exact leaves_pure _

theorem evolves_perform (effect : Effect) (operands : List Operand) :
    Leaves Evolves Evolves (perform effect operands) := by
  by_cases heffect : effect = .pop
  · subst heffect
    match operands with
    | [target] => exact leaves_popOperand target
    | [] => exact leaves_pure _
    | _ :: _ :: _ => exact leaves_pure _
  · exact (leaves_perform heffect operands).imp (fun _ _ h => h) fun _ _ h => h.evolves

end Cpu

end TeachingCpu
