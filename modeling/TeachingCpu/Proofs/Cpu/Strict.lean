import TeachingCpu.Proofs.Cpu.Arithmetic
import TeachingCpu.Proofs.Cpu.Pairs
import TeachingCpu.Proofs.Memory.Strict

/-!
# The strict processor

The strict processor states what the processor takes for granted: a byte is stored from a word
below 256, a register is set to a value that it holds, an operand that an instruction takes is
there, and an address or the stack pointer fits into a word. On a processor that is `Fit` it never
breaks off (`follows_perform`). The width of an access is that of the first register among the
operands, so what is stored has to be looked at instruction by instruction: a copy stores what it
read with the same width or from the register that the width is of, and a result is cut to the
width.
-/

namespace TeachingCpu

open Attempt StrictAttempt

theorem Width.toNat_le_max_word (value : UInt16) : value.toNat ≤ Width.word.max :=
  Nat.le_of_lt_succ value.toNat_lt

theorem Width.max_le (w : Width) : w.max ≤ 65535 := by
  cases w <;> decide

/-- A result is a number of the width. -/
theorem Operation.value_lt {operation : Operation} {w : Width} {a b : Nat} {r : ArithmeticResult}
    (ha : a < w.size) (hb : b < w.size) (h : operation.apply w a b = some r) :
    r.value < w.size := by
  obtain ⟨op, exact, hcalculation, heffect⟩ : ∃ op exact,
      Opcode.calculation? op = some exact ∧ op.effect = .arithmetic operation := by
    cases operation
    exacts [⟨.add, _, rfl, rfl⟩, ⟨.sub, _, rfl, rfl⟩, ⟨.mul, _, rfl, rfl⟩, ⟨.div, _, rfl, rfl⟩,
      ⟨.mod, _, rfl, rfl⟩, ⟨.and, _, rfl, rfl⟩, ⟨.or, _, rfl, rfl⟩, ⟨.xor, _, rfl, rfl⟩,
      ⟨.shl, _, rfl, rfl⟩, ⟨.shr, _, rfl, rfl⟩]
  exact (yields_of_apply (f := {}) hcalculation (.inl heffect) ha hb h).lt

/-- The number of operands that an effect takes. -/
def Effect.arity : Effect → Nat
  | .move | .arithmetic _ | .compare | .loadAddress => 2
  | .complement | .countBy _ | .jump _ | .call | .push | .pop => 1
  | .nothing | .halt | .ret | .interrupt | .setFlag .. => 0

/-- The operands that an instruction declares are those that it takes. -/
theorem Opcode.arity_effect (op : Opcode) : op.effect.arity = op.arity := by
  cases op <;> rfl

namespace Cpu

/-! ## The strict processor -/

namespace Strict

variable {α : Type}

/-- Reads something from memory. -/
def readMemory (access : Memory → Strict α) : StrictAttempt Cpu α := do
  let cpu ← get
  access cpu.memory

/-- Changes memory. -/
def writeMemory (access : Memory → Strict Memory) : StrictAttempt Cpu Unit := do
  let cpu ← get
  let memory ← access cpu.memory
  set { cpu with memory }

/-- Stores a string in memory and gives the address of the zero byte behind it. -/
def storeString (address : Nat) (bytes : List UInt8) : StrictAttempt Cpu Nat := do
  let (terminator, memory) ← readMemory (Memory.Strict.storeString · address bytes)
  modify fun cpu => { cpu with memory }
  return terminator

/-- Sets a register to a value that it holds, past its protection. -/
def setRegister (r : Register) (value : UInt16) : StrictAttempt Cpu Unit := do
  Strict.demand (value.toNat ≤ r.width.max)
  modify fun cpu => { cpu with registers := cpu.registers.write r value }

/-- Writes a register as programs do. -/
def writeRegister (r : Register) (value : Nat) : StrictAttempt Cpu Unit := do
  let cpu ← get
  if r = .pc ∧ cpu.allowPcWrite = false then
    StrictAttempt.fail .programCounterProtected
  else if r.width.max < value then
    StrictAttempt.fail (.registerOverflow r value)
  else do
    let value ← Strict.narrow value
    setRegister r value

/-- Points the stack registers at the stack segment and leaves the stack empty. -/
def initStack : StrictAttempt Cpu Unit := do
  let cpu ← get
  let last ← Layout.Strict.lastAddressable cpu.layout
  let size ← Strict.narrow cpu.layout.size
  set (((cpu.setSlot .ss cpu.layout.stackStart).setSlot .se last).setSlot .sp size)

/-- Puts a word on the stack. -/
def push (value : UInt16) : StrictAttempt Cpu Unit := do
  let cpu ← get
  let sp := (cpu.reg .sp).toNat
  let base := cpu.reg .ss
  if sp < base.toNat + 2 then
    StrictAttempt.fail (.stackOverflow base)
  else do
    let below ← Strict.minus sp 2
    writeMemory (Memory.Strict.writeWord · below value)
    let top ← Strict.narrow below
    modify (·.setSlot .sp top)

/-- Takes the last word off the stack. -/
def pop : StrictAttempt Cpu UInt16 := do
  let cpu ← get
  let sp := (cpu.reg .sp).toNat
  if (cpu.reg .se).toNat + 1 < sp + 2 then
    StrictAttempt.fail .stackUnderflow
  else do
    let value ← readMemory (Memory.Strict.readWord · sp)
    let top ← Strict.narrow (sp + 2)
    modify (·.setSlot .sp top)
    return value

/-- Enters a call. -/
def enterCall (returnAddress : UInt16) : StrictAttempt Cpu Unit := do
  push returnAddress
  modify fun cpu => { cpu with calls := returnAddress :: cpu.calls }

/-- Leaves the innermost call. -/
def leaveCall : StrictAttempt Cpu UInt16 := do
  let address ← pop
  modify fun cpu => { cpu with calls := cpu.calls.tail }
  return address

/-- Reads a byte or a word from memory. -/
def load (address : Nat) : Width → StrictAttempt Cpu UInt16
  | .byte => do
    let b ← readMemory (Memory.Strict.readByte · address)
    return b.toUInt16
  | .word => readMemory (Memory.Strict.readWord · address)

/-- Writes a byte or a word to memory. What is written as a byte is one. -/
def store (address : Nat) (value : UInt16) : Width → StrictAttempt Cpu Unit
  | .byte => do
    let b ← Strict.narrowByte value
    writeMemory (Memory.Strict.writeByte · address b)
  | .word => writeMemory (Memory.Strict.writeWord · address value)

/-- Reads an operand. -/
def readOperand (o : Operand) (w : Width) : StrictAttempt Cpu UInt16 :=
  match o.mode with
  | .register => do
    let r ← registerOf o
    let cpu ← get
    return cpu.reg r
  | .direct | .data => load o.value.toNat w
  | .indirect => do
    let pointer ← readMemory (Memory.Strict.readWord · o.value.toNat)
    load pointer.toNat w
  | .immediate | .label | .str => return o.value.toUInt16

/-- Writes an operand. -/
def writeOperand (o : Operand) (w : Width) (value : UInt16) : StrictAttempt Cpu Unit :=
  match o.mode with
  | .register => do
    let r ← registerOf o
    writeRegister r value.toNat
  | .direct | .data => store o.value.toNat value w
  | .indirect => do
    let pointer ← readMemory (Memory.Strict.readWord · o.value.toNat)
    store pointer.toNat value w
  | .immediate | .label | .str => StrictAttempt.fail (.operandNotWritable o)

/-- The address that an operand names in memory. -/
def addressOf (o : Operand) : StrictAttempt Cpu UInt16 :=
  match o.mode with
  | .direct | .data | .str => return o.value.toUInt16
  | .indirect => readMemory (Memory.Strict.readWord · o.value.toNat)
  | .register | .immediate | .label => StrictAttempt.fail (.operandWithoutAddress o)

/-- The result of an operation on two values, which is a word. -/
def compute (operation : Operation) (w : Width) (a b : UInt16) : StrictAttempt Cpu UInt16 := do
  let a := a.toNat % w.size
  let b := b.toNat % w.size
  match operation.apply w a b with
  | none => StrictAttempt.fail (.divisionByZero a)
  | some result => do
    let value ← Strict.narrow result.value
    modify fun cpu =>
      ((cpu.setResultFlags w result.value).setFlag .carry result.carry).setFlag .overflow
        result.overflow
    return value

/-- An operation on two operands, whose result goes to the first. -/
def arithmetic (operation : Operation) (w : Width) (target source : Operand) :
    StrictAttempt Cpu Unit := do
  let a ← readOperand target w
  let b ← readOperand source w
  let result ← compute operation w a b
  writeOperand target w result

/-- An operation on an operand and the number 1. -/
def countBy (operation : Operation) (w : Width) (target : Operand) : StrictAttempt Cpu Unit := do
  let a ← readOperand target w
  let result ← compute operation w a 1
  writeOperand target w result

/-- A subtraction for its flags. -/
def compare (w : Width) (left right : Operand) : StrictAttempt Cpu Unit := do
  let a ← readOperand left w
  let b ← readOperand right w
  let _ ← compute .sub w a b
  return ()

/-- Inverts every bit of an operand. -/
def complement (w : Width) (target : Operand) : StrictAttempt Cpu Unit := do
  let a ← readOperand target w
  let result := w.max - a.toNat % w.size
  let value ← Strict.narrow result
  modify fun cpu =>
    ((cpu.setResultFlags w result).setFlag .carry false).setFlag .overflow false
  writeOperand target w value

/-- Copies an operand to another. -/
def move (w : Width) (target source : Operand) : StrictAttempt Cpu Unit := do
  let value ← readOperand source w
  writeOperand target w value

/-- Goes to an address if the flags meet a condition. -/
def jump (condition : Condition) (target : Operand) : StrictAttempt Cpu Unit := do
  let cpu ← get
  if condition.holds cpu.flags then
    let address ← readOperand target .word
    modify (·.setPc address)

/-- Goes to an address and remembers the way back. -/
def call (target : Operand) : StrictAttempt Cpu Unit := do
  let address ← readOperand target .word
  let cpu ← get
  enterCall cpu.pc
  modify (·.setPc address)

/-- Goes back to where the innermost call came from. -/
def ret : StrictAttempt Cpu Unit := do
  let address ← leaveCall
  modify (·.setPc address)

/-- Puts an operand on the stack. -/
def pushOperand (source : Operand) : StrictAttempt Cpu Unit := do
  let value ← readOperand source .word
  push value

/-- Takes an operand off the stack. -/
def popOperand (target : Operand) : StrictAttempt Cpu Unit := do
  let value ← pop
  writeOperand target .word value

/-- Copies the address of an operand to another. -/
def loadAddress (target source : Operand) : StrictAttempt Cpu Unit := do
  let address ← addressOf source
  writeOperand target .word address

/-- The effects that concern the processor alone. The operands that an effect takes are found by
their places. -/
def perform (effect : Effect) (operands : List Operand) : StrictAttempt Cpu Unit := do
  let w := accessWidth operands
  let operand (k : Nat) : Strict Operand := Strict.index operands[k]?
  match effect with
  | .move => move w (← operand 0) (← operand 1)
  | .arithmetic operation => arithmetic operation w (← operand 0) (← operand 1)
  | .compare => compare w (← operand 0) (← operand 1)
  | .complement => complement w (← operand 0)
  | .countBy operation => countBy operation w (← operand 0)
  | .jump condition => jump condition (← operand 0)
  | .call => call (← operand 0)
  | .ret => ret
  | .push => pushOperand (← operand 0)
  | .pop => popOperand (← operand 0)
  | .setFlag flag value => modify (·.setFlag flag value)
  | .loadAddress => loadAddress (← operand 0) (← operand 1)
  | .nothing | .halt | .interrupt => return ()

end Strict

/-! ## Where it breaks off -/

section Breaks

variable {cpu : Cpu}

/-- A word that is no byte is not stored as one. -/
theorem store_byte_of_gt {value : UInt16} (h : 255 < value.toNat) (address : Nat) :
    Strict.store address value .byte cpu = none := by
  unfold Strict.store
  rw [TeachingCpu.Strict.narrowByte_of_gt h]
  rfl

/-- A register is not set to a value that it cannot hold. -/
theorem setRegister_of_gt {r : Register} {value : UInt16} (h : r.width.max < value.toNat) :
    Strict.setRegister r value cpu = none := by
  unfold Strict.setRegister
  rw [TeachingCpu.Strict.demand_eq_none_iff.mpr (Nat.not_le.mpr h)]
  rfl

end Breaks

/-! ## Why it does not -/

/-- What the processor of every machine is: its pairs agree with their halves, and its memory has
at least one byte and addresses of sixteen bits. -/
structure Fit (cpu : Cpu) : Prop where
  paired : cpu.registers.Paired
  size_pos : 0 < cpu.memory.layout.size
  size_le : cpu.memory.layout.size ≤ 65535

variable {α β : Type} {cpu cpu' : Cpu} {w : Width} {value : UInt16}

theorem Fit.of_evolves (h : cpu.Fit) (hevolves : cpu.Evolves cpu') : cpu'.Fit := by
  have hlayout : cpu'.memory.layout = cpu.memory.layout := hevolves.keeps.1
  exact ⟨hevolves.paired h.paired, hlayout ▸ h.size_pos, hlayout ▸ h.size_le⟩

/-- A register holds no more than its largest value. -/
theorem Fit.reg_le (h : cpu.Fit) (r : Register) : (cpu.reg r).toNat ≤ r.width.max := by
  cases hwidth : r.width with
  | byte => exact h.paired.byte hwidth
  | word => exact Width.toNat_le_max_word _

/-- Behind an action that changes the processor. -/
theorem Fit.follows_bind {E : Cpu → Cpu → Prop} {x : StrictAttempt Cpu α} {act : Attempt Cpu α}
    {f : α → StrictAttempt Cpu β} {g : α → Attempt Cpu β} (h : cpu.Fit)
    (hact : Leaves Evolves E act) (hx : Follows x act cpu)
    (hf : ∀ a t, t.Fit → Follows (f a) (g a) t) : Follows (x >>= f) (act >>= g) cpu :=
  hx.bind fun a t ht => hf a t (h.of_evolves (hact.ok ht))

theorem follows_readMemory {access : Memory → Strict α} {access' : Memory → Except Error α}
    (h : access cpu.memory = some (access' cpu.memory)) :
    Follows (Strict.readMemory access) (readMemory access') cpu :=
  follows_get_bind (follows_ofExcept h)

theorem follows_writeMemory {access : Memory → Strict Memory}
    {access' : Memory → Except Error Memory} (h : access cpu.memory = some (access' cpu.memory)) :
    Follows (Strict.writeMemory access) (writeMemory access') cpu := by
  change StrictAttempt.bind (liftM (access cpu.memory)) (fun memory => set { cpu with memory })
    cpu = some (writeMemory access' cpu)
  rw [h, writeMemory_eq]
  cases access' cpu.memory <;> rfl

theorem follows_readWord (h : cpu.Fit) (address : Nat) :
    Follows (Strict.readMemory (Memory.Strict.readWord · address)) (readMemory (·.readWord address))
      cpu :=
  follows_readMemory (Memory.Strict.readWord_eq h.size_pos h.size_le address)

theorem follows_readByte (h : cpu.Fit) (address : Nat) :
    Follows (Strict.readMemory (Memory.Strict.readByte · address)) (readMemory (·.readByte address))
      cpu :=
  follows_readMemory (Memory.Strict.readByte_eq h.size_pos h.size_le address)

theorem follows_writeWord (h : cpu.Fit) (address : Nat) (value : UInt16) :
    Follows (Strict.writeMemory (Memory.Strict.writeWord · address value))
      (writeMemory (·.writeWord address value)) cpu :=
  follows_writeMemory (Memory.Strict.writeWord_eq h.size_pos h.size_le address value)

theorem follows_writeByte (h : cpu.Fit) (address : Nat) (value : UInt8) :
    Follows (Strict.writeMemory (Memory.Strict.writeByte · address value))
      (writeMemory (·.writeByte address value)) cpu :=
  follows_writeMemory (Memory.Strict.writeByte_eq h.size_pos h.size_le address value)

theorem follows_storeString (h : cpu.Fit) (address : Nat) (bytes : List UInt8) :
    Follows (Strict.storeString address bytes) (storeString address bytes) cpu :=
  (follows_readMemory (Memory.Strict.storeString_eq h.size_pos h.size_le address bytes)).bind
    fun _ _ _ => rfl

theorem follows_writeRegister (r : Register) (value : Nat) :
    Follows (Strict.writeRegister r value) (writeRegister r value) cpu := by
  refine follows_get_bind (follows_ite (fun _ => follows_fail _) fun _ => ?_)
  refine follows_ite (fun _ => follows_fail _) fun hfits => ?_
  have hword : value ≤ 65535 := (Nat.le_of_not_lt hfits).trans r.width.max_le
  have hmax : value.toUInt16.toNat ≤ r.width.max := by
    rw [Nat.toNat_toUInt16_of_le hword]
    exact Nat.le_of_not_lt hfits
  refine follows_bind_of_ok (TeachingCpu.Strict.narrow_of hword) ?_
  exact follows_bind_of_ok (TeachingCpu.Strict.demand_of hmax) rfl

theorem follows_initStack (h : cpu.Fit) :
    Follows Strict.initStack (modify initStack) cpu := by
  refine follows_bind_of_ok (Layout.Strict.lastAddressable_eq h.size_pos h.size_le) ?_
  exact follows_bind_of_ok (TeachingCpu.Strict.narrow_of h.size_le) rfl

/-! ## The stack -/

theorem follows_push (h : cpu.Fit) (value : UInt16) :
    Follows (Strict.push value) (push value) cpu := by
  refine follows_get_bind (follows_ite (fun _ => follows_fail _) fun hroom => ?_)
  have hsp := (cpu.reg .sp).toNat_lt
  refine follows_bind_of_ok (TeachingCpu.Strict.minus_of (by omega)) ?_
  refine (follows_writeWord h _ _).bind fun _ t _ => ?_
  exact follows_bind_of_ok (TeachingCpu.Strict.narrow_of (by omega)) rfl

/-- Where the last word was read, the stack pointer moves to an address behind it, whatever the
bounds of the stack are. -/
theorem follows_pop (h : cpu.Fit) : Follows Strict.pop pop cpu := by
  refine follows_get_bind (follows_ite (fun _ => follows_fail _) fun _ => ?_)
  refine (follows_readWord h _).bind fun value t ht => ?_
  have hinside := (Memory.readWord_eq_ok_iff h.size_pos h.size_le).mp
    (readMemory_eq_ok_iff.mp ht).1
  have hsize := h.size_le
  exact follows_bind_of_ok (TeachingCpu.Strict.narrow_of (by omega)) rfl

theorem follows_enterCall (h : cpu.Fit) (returnAddress : UInt16) :
    Follows (Strict.enterCall returnAddress) (enterCall returnAddress) cpu :=
  (follows_push h returnAddress).bind fun _ _ _ => rfl

theorem follows_leaveCall (h : cpu.Fit) : Follows Strict.leaveCall leaveCall cpu :=
  (follows_pop h).bind fun _ _ _ => rfl

/-! ## Operands -/

theorem follows_load (h : cpu.Fit) (address : Nat) (w : Width) :
    Follows (Strict.load address w) (load address w) cpu := by
  cases w with
  | byte => exact (follows_readByte h address).bind fun _ _ _ => rfl
  | word => exact follows_readWord h address

/-- A number of the width is stored. -/
theorem follows_store (h : cpu.Fit) (hvalue : value.toNat ≤ w.max) (address : Nat) :
    Follows (Strict.store address value w) (store address value w) cpu := by
  cases w with
  | byte =>
    refine follows_bind_of_ok (TeachingCpu.Strict.narrowByte_of hvalue) ?_
    exact follows_writeByte h address value.toUInt8
  | word => exact follows_writeWord h address value

theorem follows_readOperand (h : cpu.Fit) (o : Operand) (w : Width) :
    Follows (Strict.readOperand o w) (readOperand o w) cpu := by
  obtain ⟨mode, address⟩ := o
  cases mode with
  | register => exact (follows_lift _).bind fun _ _ _ => rfl
  | direct => exact follows_load h _ _
  | data => exact follows_load h _ _
  | indirect =>
    refine (follows_readWord h address.toNat).bind_reads (reads_readMemory _) ?_
    exact fun pointer _ => follows_load h _ _
  | _ => rfl

/-- A number of the width is written to memory. What goes to a register is checked there. -/
theorem follows_writeOperand (h : cpu.Fit) {o : Operand}
    (hvalue : o.mode = .register ∨ value.toNat ≤ w.max) :
    Follows (Strict.writeOperand o w value) (writeOperand o w value) cpu := by
  obtain ⟨mode, address⟩ := o
  cases mode with
  | register => exact (follows_lift _).bind fun r _ _ => follows_writeRegister r _
  | direct => exact follows_store h (hvalue.resolve_left nofun) _
  | data => exact follows_store h (hvalue.resolve_left nofun) _
  | indirect =>
    refine (follows_readWord h address.toNat).bind_reads (reads_readMemory _) ?_
    exact fun pointer _ => follows_store h (hvalue.resolve_left nofun) _
  | _ => rfl

theorem follows_writeWordOperand (h : cpu.Fit) (o : Operand) (value : UInt16) :
    Follows (Strict.writeOperand o .word value) (writeOperand o .word value) cpu :=
  follows_writeOperand h (.inr (Width.toNat_le_max_word value))

theorem follows_addressOf (h : cpu.Fit) (o : Operand) :
    Follows (Strict.addressOf o) (addressOf o) cpu := by
  obtain ⟨mode, address⟩ := o
  cases mode with
  | indirect => exact follows_readWord h address.toNat
  | _ => rfl

/-! ## What is stored -/

theorem register?_of_registerOf {o : Operand} {r : Register} (h : registerOf o cpu = .ok r cpu') :
    o.register? = some r := by
  unfold registerOf at h
  cases hregister : o.register? with
  | some r' =>
    rw [hregister] at h
    cases h
    rfl
  | none =>
    rw [hregister] at h
    cases h

/-- What is read is a number of the width, if the width is that of the register that is read. -/
theorem Fit.le_max_of_readOperand (h : cpu.Fit) {o : Operand}
    (hwidth : ∀ r, o.register? = some r → r.width = w)
    (hread : readOperand o w cpu = .ok value cpu') : value.toNat ≤ w.max := by
  have hload : ∀ address, load address w cpu = .ok value cpu' → value.toNat ≤ w.max := by
    intro address hload
    cases w with
    | byte =>
      obtain ⟨b, t, -, hb⟩ := bind_eq_ok.mp hload
      cases hb
      exact Nat.le_of_lt_succ b.toNat_lt
    | word => exact Width.toNat_le_max_word value
  have hsmall : ∀ b : UInt8, b.toUInt16.toNat ≤ w.max := by
    intro b
    have hb := b.toNat_lt
    cases w with
    | byte => exact Nat.le_of_lt_succ hb
    | word => exact Width.toNat_le_max_word _
  obtain ⟨mode, address⟩ := o
  cases mode with
  | register =>
    obtain ⟨r, t, hr, hvalue⟩ := bind_eq_ok.mp hread
    obtain rfl := (reads_registerOf _).ok hr
    cases hvalue
    rw [← hwidth r (register?_of_registerOf hr)]
    exact h.reg_le r
  | direct => exact hload _ hread
  | data => exact hload _ hread
  | indirect =>
    obtain ⟨pointer, t, hpointer, hread⟩ := bind_eq_ok.mp hread
    obtain rfl := (reads_readMemory _).ok hpointer
    exact hload _ hread
  | _ =>
    cases hread
    exact hsmall _

/-- The width of a copy to memory is that of the register that is copied, if one is. -/
theorem accessWidth_of_source {target source : Operand} (htarget : target.mode ≠ .register)
    {r : Register} (hsource : source.register? = some r) :
    r.width = accessWidth [target, source] := by
  have hnone : target.register? = none := by
    obtain ⟨mode, address⟩ := target
    cases mode with
    | register => exact absurd rfl htarget
    | _ => rfl
  simp [accessWidth, hnone, hsource]

theorem follows_compute (operation : Operation) (w : Width) (a b : UInt16) :
    Follows (Strict.compute operation w a b) (compute operation w a b) cpu := by
  unfold Strict.compute compute
  dsimp only
  have ha := Nat.mod_lt a.toNat w.size_pos
  have hb := Nat.mod_lt b.toNat w.size_pos
  cases hresult : operation.apply w (a.toNat % w.size) (b.toNat % w.size) with
  | none => rfl
  | some result =>
    have hlt := Operation.value_lt ha hb hresult
    have hmax : result.value ≤ w.max := Nat.le_sub_one_of_lt hlt
    exact follows_bind_of_ok (TeachingCpu.Strict.narrow_of (hmax.trans w.max_le)) rfl

theorem le_max_of_compute {operation : Operation} {a b : UInt16}
    (h : compute operation w a b cpu = .ok value cpu') : value.toNat ≤ w.max := by
  unfold compute at h
  have ha := Nat.mod_lt a.toNat w.size_pos
  have hb := Nat.mod_lt b.toNat w.size_pos
  cases hresult : operation.apply w (a.toNat % w.size) (b.toNat % w.size) with
  | none =>
    rw [hresult] at h
    cases h
  | some result =>
    rw [hresult] at h
    cases h
    have hlt := Operation.value_lt ha hb hresult
    have hmax : result.value ≤ w.max := Nat.le_sub_one_of_lt hlt
    rw [Nat.toNat_toUInt16_of_le (hmax.trans w.max_le)]
    exact hmax

/-! ## Effects of instructions -/

theorem follows_computed (h : cpu.Fit) (operation : Operation) (w : Width) (target : Operand)
    (a b : UInt16) :
    Follows (do let result ← Strict.compute operation w a b; Strict.writeOperand target w result)
      (do let result ← compute operation w a b; writeOperand target w result) cpu := by
  refine (follows_compute operation w a b).bind fun result t ht => ?_
  have hfit := h.of_evolves ((leaves_compute operation w a b).ok ht).evolves
  exact follows_writeOperand hfit (.inr (le_max_of_compute ht))

theorem follows_arithmetic (h : cpu.Fit) (operation : Operation) (w : Width)
    (target source : Operand) :
    Follows (Strict.arithmetic operation w target source) (arithmetic operation w target source)
      cpu := by
  refine (follows_readOperand h target w).bind_reads (reads_readOperand _ _) fun a _ => ?_
  refine (follows_readOperand h source w).bind_reads (reads_readOperand _ _) fun b _ => ?_
  exact follows_computed h operation w target a b

theorem follows_countBy (h : cpu.Fit) (operation : Operation) (w : Width) (target : Operand) :
    Follows (Strict.countBy operation w target) (countBy operation w target) cpu := by
  refine (follows_readOperand h target w).bind_reads (reads_readOperand _ _) fun a _ => ?_
  exact follows_computed h operation w target a 1

theorem follows_compare (h : cpu.Fit) (w : Width) (left right : Operand) :
    Follows (Strict.compare w left right) (compare w left right) cpu := by
  refine (follows_readOperand h left w).bind_reads (reads_readOperand _ _) fun a _ => ?_
  refine (follows_readOperand h right w).bind_reads (reads_readOperand _ _) fun b _ => ?_
  exact (follows_compute .sub w a b).bind fun _ _ _ => rfl

theorem follows_complement (h : cpu.Fit) (w : Width) (target : Operand) :
    Follows (Strict.complement w target) (complement w target) cpu := by
  refine (follows_readOperand h target w).bind_reads (reads_readOperand _ _) fun a _ => ?_
  have hmax : w.max - a.toNat % w.size ≤ w.max := Nat.sub_le _ _
  have hword := hmax.trans w.max_le
  refine follows_bind_of_ok (TeachingCpu.Strict.narrow_of hword) (follows_modify_bind ?_)
  have hfit : Fit (((cpu.setResultFlags w (w.max - a.toNat % w.size)).setFlag .carry false).setFlag
      .overflow false) := ⟨h.paired, h.size_pos, h.size_le⟩
  refine follows_writeOperand hfit (.inr ?_)
  rw [Nat.toNat_toUInt16_of_le hword]
  exact hmax

/-- A copy between operands that are not of one width stores a number of the width of the access:
a register that is copied to memory gives the width. -/
theorem follows_move (h : cpu.Fit) (target source : Operand) :
    Follows (Strict.move (accessWidth [target, source]) target source)
      (move (accessWidth [target, source]) target source) cpu := by
  refine (follows_readOperand h source _).bind_reads (reads_readOperand _ _) fun value hread => ?_
  refine follows_writeOperand h (or_iff_not_imp_left.mpr fun htarget => ?_)
  exact h.le_max_of_readOperand (fun r hr => accessWidth_of_source htarget hr) hread

theorem follows_jump (h : cpu.Fit) (condition : Condition) (target : Operand) :
    Follows (Strict.jump condition target) (jump condition target) cpu := by
  refine follows_get_bind (follows_ite (fun _ => ?_) fun _ => rfl)
  exact (follows_readOperand h target .word).bind fun _ _ _ => rfl

theorem follows_call (h : cpu.Fit) (target : Operand) :
    Follows (Strict.call target) (call target) cpu := by
  refine (follows_readOperand h target .word).bind_reads (reads_readOperand _ _) fun a _ => ?_
  exact follows_get_bind ((follows_enterCall h cpu.pc).bind fun _ _ _ => rfl)

theorem follows_ret (h : cpu.Fit) : Follows Strict.ret ret cpu :=
  (follows_leaveCall h).bind fun _ _ _ => rfl

theorem follows_pushOperand (h : cpu.Fit) (source : Operand) :
    Follows (Strict.pushOperand source) (pushOperand source) cpu :=
  (follows_readOperand h source .word).bind_reads (reads_readOperand _ _) fun value _ =>
    follows_push h value

theorem follows_popOperand (h : cpu.Fit) (target : Operand) :
    Follows (Strict.popOperand target) (popOperand target) cpu :=
  h.follows_bind leaves_pop (follows_pop h) fun value _ hfit =>
    follows_writeWordOperand hfit target value

theorem follows_loadAddress (h : cpu.Fit) (target source : Operand) :
    Follows (Strict.loadAddress target source) (loadAddress target source) cpu :=
  (follows_addressOf h source).bind_reads (reads_addressOf source) fun address _ =>
    follows_writeWordOperand h target address

/-- An instruction with as many operands as it declares finds them all, and nothing that it does to
the processor breaks off. -/
theorem follows_perform (h : cpu.Fit) {op : Opcode} {operands : List Operand}
    (hcomplete : operands.length = op.arity) :
    Follows (Strict.perform op.effect operands) (perform op.effect operands) cpu := by
  have harity : operands.length = op.effect.arity := hcomplete.trans op.arity_effect.symm
  generalize op.effect = effect at harity
  cases effect with
  | move =>
    obtain ⟨target, source, rfl⟩ := List.length_eq_two.mp harity
    exact follows_move h target source
  | arithmetic operation =>
    obtain ⟨target, source, rfl⟩ := List.length_eq_two.mp harity
    exact follows_arithmetic h operation _ target source
  | compare =>
    obtain ⟨left, right, rfl⟩ := List.length_eq_two.mp harity
    exact follows_compare h _ left right
  | loadAddress =>
    obtain ⟨target, source, rfl⟩ := List.length_eq_two.mp harity
    exact follows_loadAddress h target source
  | complement =>
    obtain ⟨target, rfl⟩ := List.length_eq_one_iff.mp harity
    exact follows_complement h _ target
  | countBy operation =>
    obtain ⟨target, rfl⟩ := List.length_eq_one_iff.mp harity
    exact follows_countBy h operation _ target
  | jump condition =>
    obtain ⟨target, rfl⟩ := List.length_eq_one_iff.mp harity
    exact follows_jump h condition target
  | call =>
    obtain ⟨target, rfl⟩ := List.length_eq_one_iff.mp harity
    exact follows_call h target
  | push =>
    obtain ⟨source, rfl⟩ := List.length_eq_one_iff.mp harity
    exact follows_pushOperand h source
  | pop =>
    obtain ⟨target, rfl⟩ := List.length_eq_one_iff.mp harity
    exact follows_popOperand h target
  | ret =>
    rw [List.length_eq_zero_iff.mp harity]
    exact follows_ret h
  | setFlag flag value =>
    rw [List.length_eq_zero_iff.mp harity]
    rfl
  | nothing | halt | interrupt => rfl

end Cpu

end TeachingCpu
