import TeachingCpu.Machine.Run
import TeachingCpu.Proofs.Memory.Strings

/-!
# Why instructions fail to take effect

An instruction that was fetched fails on the memory, the registers, the stack, the console or the
files (`Cause.OfEffect`). The causes of the fetch are not among these: the effect of an instruction
never counts `pc` up (`raises_perform`, `raises_breakIfWanted`). A register is unknown only where an
operand of the instruction names none.
-/

namespace TeachingCpu

open Attempt

/-- The causes for which an instruction that was fetched with some operands can fail. -/
inductive Cause.OfEffect (operands : List Operand) : Cause → Prop where
  | addressOutside (address : Nat) (last : UInt16) :
    OfEffect operands (.addressOutside address last)
  | registerOverflow (r : Register) (value : Nat) : OfEffect operands (.registerOverflow r value)
  | programCounterProtected : OfEffect operands .programCounterProtected
  | registerIdUnknown {o : Operand} (ho : o ∈ operands) (hmode : o.mode = .register)
    (h : o.register? = none) : OfEffect operands (.registerIdUnknown o.value)
  | operandNotWritable (o : Operand) : OfEffect operands (.operandNotWritable o)
  | operandWithoutAddress (o : Operand) : OfEffect operands (.operandWithoutAddress o)
  | divisionByZero (dividend : Nat) : OfEffect operands (.divisionByZero dividend)
  | stackOverflow (base : UInt16) : OfEffect operands (.stackOverflow base)
  | stackUnderflow : OfEffect operands .stackUnderflow
  | inputExhausted : OfEffect operands .inputExhausted
  | consoleBroken : OfEffect operands .consoleBroken
  | fileInaccessible (name : String) (reason : FileError) :
    OfEffect operands (.fileInaccessible name reason)

/-- A property of all causes for which an access to memory, to a register or to the console
fails. -/
class Cause.CoversAccess (P : Cause → Prop) : Prop where
  addressOutside (address : Nat) (last : UInt16) : P (.addressOutside address last)
  registerOverflow (r : Register) (value : Nat) : P (.registerOverflow r value)
  programCounterProtected : P .programCounterProtected
  operandNotWritable (o : Operand) : P (.operandNotWritable o)
  consoleBroken : P .consoleBroken

instance (operands : List Operand) : Cause.CoversAccess (Cause.OfEffect operands) :=
  ⟨.addressOutside, .registerOverflow, .programCounterProtected, .operandNotWritable,
    .consoleBroken⟩

instance {P : Cause → Prop} [Cause.CoversAccess P] : Cause.CoversAddress P :=
  ⟨Cause.CoversAccess.addressOutside⟩

open Cause (OfEffect CoversAddress CoversAccess)

variable {α : Type} {operands : List Operand} {P : Cause → Prop}

/-! ## The processor -/

namespace Cpu

theorem raises_readMemory {access : Memory → Except Error α} (h : ∀ m, Refuses P (access m)) :
    Raises P (readMemory access) :=
  raises_bind raises_get fun cpu => raises_ofExcept (h cpu.memory)

theorem raises_writeMemory {access : Memory → Except Error Memory}
    (h : ∀ m, Refuses P (access m)) : Raises P (writeMemory access) := by
  refine raises_bind raises_get fun cpu => ?_
  split
  · exact raises_set _
  · next e he => exact raises_throw (h cpu.memory e he)

theorem raises_registerOf {o : Operand} (h : o.register? = none → P (.registerIdUnknown o.value)) :
    Raises P (registerOf o) := by
  unfold registerOf
  cases hregister : o.register? with
  | some r => exact raises_pure _
  | none => exact raises_fail (h hregister)

variable [CoversAccess P]

theorem raises_writeRegister (r : Register) (value : Nat) :
    Raises P (writeRegister r value) := by
  refine raises_bind raises_get fun cpu => ?_
  split
  · exact raises_fail CoversAccess.programCounterProtected
  · split
    · exact raises_fail (CoversAccess.registerOverflow _ _)
    · exact raises_set _

theorem raises_load (address : Nat) (w : Width) : Raises P (load address w) := by
  cases w with
  | byte =>
    exact raises_bind (raises_readMemory fun m => m.refuses_readByte _) fun _ => raises_pure _
  | word => exact raises_readMemory fun m => m.refuses_readWord _

theorem raises_storeString (address : Nat) (bytes : List UInt8) :
    Raises P (storeString address bytes) :=
  raises_bind (raises_readMemory fun m => m.refuses_storeString _ _) fun _ =>
    raises_bind (raises_modify _) fun _ => raises_pure _

theorem raises_store (address : Nat) (value : UInt16) (w : Width) :
    Raises P (store address value w) := by
  cases w with
  | byte => exact raises_writeMemory fun m => m.refuses_writeByte _ _
  | word => exact raises_writeMemory fun m => m.refuses_writeWord _ _

theorem raises_pointer (o : Operand) :
    Raises P (readMemory (·.readWord o.value.toNat)) :=
  raises_readMemory fun m => m.refuses_readWord _

theorem raises_readOperand {o : Operand}
    (ho : o.mode = .register → o.register? = none → P (.registerIdUnknown o.value)) (w : Width) :
    Raises P (readOperand o w) := by
  unfold readOperand
  split
  · next hmode =>
    refine raises_bind (raises_registerOf (ho hmode)) fun _ => ?_
    exact raises_bind raises_get fun _ => raises_pure _
  · exact raises_load _ _
  · exact raises_load _ _
  · exact raises_bind (raises_pointer o) fun _ => raises_load _ _
  all_goals exact raises_pure _

theorem raises_writeOperand {o : Operand}
    (ho : o.mode = .register → o.register? = none → P (.registerIdUnknown o.value)) (w : Width)
    (value : UInt16) : Raises P (writeOperand o w value) := by
  unfold writeOperand
  split
  · next hmode =>
    exact raises_bind (raises_registerOf (ho hmode)) fun _ => raises_writeRegister _ _
  · exact raises_store _ _ _
  · exact raises_store _ _ _
  · exact raises_bind (raises_pointer o) fun _ => raises_store _ _ _
  all_goals exact raises_fail (CoversAccess.operandNotWritable o)

theorem raises_addressOf (o : Operand) : Raises (OfEffect operands) (addressOf o) := by
  unfold addressOf
  split
  · exact raises_pure _
  · exact raises_pure _
  · exact raises_pure _
  · exact raises_pointer o
  all_goals exact raises_fail (.operandWithoutAddress o)

theorem raises_push (value : UInt16) : Raises (OfEffect operands) (push value) := by
  refine raises_bind raises_get fun cpu => ?_
  dsimp only
  split
  · exact raises_fail (.stackOverflow _)
  · exact raises_bind (raises_writeMemory fun m => m.refuses_writeWord _ _) fun _ =>
      raises_modify _

theorem raises_pop : Raises (OfEffect operands) pop := by
  refine raises_bind raises_get fun cpu => ?_
  dsimp only
  split
  · exact raises_fail .stackUnderflow
  · refine raises_bind (raises_readMemory fun m => m.refuses_readWord _) fun _ => ?_
    exact raises_bind (raises_modify _) fun _ => raises_pure _

theorem raises_compute (operation : Operation) (w : Width) (a b : UInt16) :
    Raises (OfEffect operands) (compute operation w a b) := by
  unfold compute
  dsimp only
  split
  · exact raises_fail (.divisionByZero _)
  · exact raises_bind (raises_modify _) fun _ => raises_pure _

theorem raises_arithmetic (operation : Operation) (w : Width) {target source : Operand}
    (htarget : target ∈ operands) (hsource : source ∈ operands) :
    Raises (OfEffect operands) (arithmetic operation w target source) := by
  refine raises_bind (raises_readOperand (.registerIdUnknown htarget) w) fun a => ?_
  refine raises_bind (raises_readOperand (.registerIdUnknown hsource) w) fun b => ?_
  exact raises_bind (raises_compute _ _ _ _) fun _ =>
    raises_writeOperand (.registerIdUnknown htarget) _ _

theorem raises_countBy (operation : Operation) (w : Width) {target : Operand}
    (htarget : target ∈ operands) : Raises (OfEffect operands) (countBy operation w target) := by
  refine raises_bind (raises_readOperand (.registerIdUnknown htarget) w) fun a => ?_
  exact raises_bind (raises_compute _ _ _ _) fun _ =>
    raises_writeOperand (.registerIdUnknown htarget) _ _

theorem raises_compare (w : Width) {left right : Operand} (hleft : left ∈ operands)
    (hright : right ∈ operands) : Raises (OfEffect operands) (compare w left right) := by
  refine raises_bind (raises_readOperand (.registerIdUnknown hleft) w) fun a => ?_
  refine raises_bind (raises_readOperand (.registerIdUnknown hright) w) fun b => ?_
  exact raises_bind (raises_compute _ _ _ _) fun _ => raises_pure _

theorem raises_complement (w : Width) {target : Operand} (htarget : target ∈ operands) :
    Raises (OfEffect operands) (complement w target) := by
  refine raises_bind (raises_readOperand (.registerIdUnknown htarget) w) fun a => ?_
  exact raises_bind (raises_modify _) fun _ =>
    raises_writeOperand (.registerIdUnknown htarget) _ _

theorem raises_jump (condition : Condition) {target : Operand} (htarget : target ∈ operands) :
    Raises (OfEffect operands) (jump condition target) := by
  refine raises_bind raises_get fun cpu => ?_
  split
  · exact raises_bind (raises_readOperand (.registerIdUnknown htarget) .word) fun _ =>
      raises_modify _
  · exact raises_pure _

theorem raises_call {target : Operand} (htarget : target ∈ operands) :
    Raises (OfEffect operands) (call target) := by
  refine raises_bind (raises_readOperand (.registerIdUnknown htarget) .word) fun address => ?_
  refine raises_bind raises_get fun cpu => ?_
  refine raises_bind ?_ fun _ => raises_modify _
  exact raises_bind (raises_push _) fun _ => raises_modify _

theorem raises_ret : Raises (OfEffect operands) ret := by
  refine raises_bind ?_ fun _ => raises_modify _
  refine raises_bind raises_pop fun _ => ?_
  exact raises_bind (raises_modify _) fun _ => raises_pure _

theorem raises_perform (effect : Effect) (operands : List Operand) :
    Raises (OfEffect operands) (perform effect operands) := by
  have hfirst : ∀ {o : Operand} {rest : List Operand}, o ∈ o :: rest := List.mem_cons_self
  have hsecond : ∀ {o₁ o₂ : Operand}, o₂ ∈ [o₁, o₂] := List.mem_cons_of_mem _ List.mem_cons_self
  unfold perform
  dsimp only
  split
  · exact raises_bind (raises_readOperand (.registerIdUnknown hsecond) _) fun _ =>
      raises_writeOperand (.registerIdUnknown hfirst) _ _
  · exact raises_arithmetic _ _ hfirst hsecond
  · exact raises_compare _ hfirst hsecond
  · exact raises_complement _ hfirst
  · exact raises_countBy _ _ hfirst
  · exact raises_jump _ hfirst
  · exact raises_call hfirst
  · exact raises_ret
  · exact raises_bind (raises_readOperand (.registerIdUnknown hfirst) _) fun _ => raises_push _
  · exact raises_bind raises_pop fun _ => raises_writeOperand (.registerIdUnknown hfirst) _ _
  · exact raises_modify _
  · exact raises_bind (raises_addressOf _) fun _ =>
      raises_writeOperand (.registerIdUnknown hfirst) _ _
  · exact raises_pure _

end Cpu

/-! ## The console -/

namespace Console

variable [CoversAccess P]

theorem raises_readLine (prompt : String) : Raises P (readLine prompt) := by
  refine raises_bind raises_get fun c => ?_
  dsimp only
  split
  · exact raises_fail CoversAccess.consoleBroken
  · split
    · exact raises_bind (raises_set _) fun _ => raises_pure _
    · exact raises_bind (raises_set _) fun _ => raises_pure _

theorem raises_write (text : String) : Raises P (write text) := by
  refine raises_bind raises_get fun c => ?_
  split
  · exact raises_fail CoversAccess.consoleBroken
  · exact raises_set _

theorem raises_askTimes (accept : String → Except String α) (n : Nat) :
    Raises (OfEffect operands) (askTimes accept n) := by
  induction n with
  | zero => exact raises_fail .inputExhausted
  | succ n ih =>
    refine raises_bind (raises_readLine "") fun answer => ?_
    cases answer with
    | none => exact raises_fail .inputExhausted
    | some line =>
      dsimp only
      split
      · exact raises_pure _
      · exact raises_bind (raises_write _) fun _ => ih

theorem raises_ask (accept : String → Except String α) :
    Raises (OfEffect operands) (ask accept) :=
  raises_bind raises_get fun _ => raises_askTimes accept _

end Console

namespace Debugger

variable [CoversAccess P]

theorem raises_answerTimes (display : Text.Display) (cpu : Cpu) (n : Nat) :
    Raises P (answerTimes display cpu n) := by
  induction n with
  | zero => exact raises_pure _
  | succ n ih =>
    refine raises_bind (Console.raises_readLine _) fun answer => ?_
    cases answer with
    | none => exact raises_bind (raises_modify _) fun _ => raises_pure _
    | some typed =>
      dsimp only
      split
      · exact ih
      · split
        · exact raises_bind (Console.raises_write _) fun _ => ih
        · refine raises_bind (raises_modify _) fun _ => ?_
          split
          · exact raises_pure _
          · exact raises_bind (Console.raises_write _) fun _ => ih

theorem raises_session (cpu : Cpu) : Raises P (session cpu) := by
  refine raises_bind raises_get fun c => ?_
  exact raises_bind (Console.raises_write _) fun _ => raises_answerTimes _ cpu _

end Debugger

/-! ## Services -/

namespace Bench

theorem raises_reg (r : Register) : Raises P (reg r) :=
  raises_bind raises_get fun _ => raises_pure _

theorem raises_stringAt [CoversAddress P] (r : Register) : Raises P (stringAt r) :=
  raises_bind (raises_reg r) fun _ =>
    raises_onPart (Cpu.raises_readMemory fun m => m.refuses_readStringFrom _ _)

theorem raises_writeMemory {access : Memory → Except Error Memory}
    (h : ∀ m, Refuses P (access m)) : Raises P (onCpu (Cpu.writeMemory access)) :=
  raises_onPart (Cpu.raises_writeMemory h)

theorem raises_writeRegister (r : Register) (value : Nat) :
    Raises (OfEffect operands) (onCpu (Cpu.writeRegister r value)) :=
  raises_onPart (Cpu.raises_writeRegister r value)

end Bench

namespace Service

open Bench

theorem raises_print (text : String) : Raises (OfEffect operands) (print text) :=
  raises_onPart (Console.raises_write text)

theorem raises_reportInvalid (cause : Cause) :
    Raises (OfEffect operands) (reportInvalid cause) := by
  refine raises_bind (raises_modify _) fun _ => ?_
  exact raises_bind (raises_print _) fun _ => raises_pure _

theorem raises_access (name : String) (result : Except FileError α) :
    Raises (OfEffect operands) (access name result) := by
  cases result with
  | ok a => exact raises_pure a
  | error reason => exact raises_fail (.fileInaccessible name reason)

theorem raises_fileRead (name : String) : Raises (OfEffect operands) (fileRead name) := by
  refine raises_bind (raises_reg .di) fun address => ?_
  refine raises_bind raises_get fun b => ?_
  refine raises_bind (raises_access _ _) fun content => ?_
  cases content with
  | none =>
    refine raises_bind (raises_writeRegister _ _) fun _ => ?_
    exact raises_onPart (raises_modify _)
  | some bytes =>
    refine raises_bind (raises_writeMemory fun m => m.refuses_load _ _) fun _ => ?_
    refine raises_bind (raises_writeRegister _ _) fun _ => ?_
    exact raises_onPart (raises_modify _)

theorem raises_fileWrite (name : String)
    (change : Storage → List UInt8 → Except FileError Storage) :
    Raises (OfEffect operands) (fileWrite name change) := by
  refine raises_bind (raises_reg .di) fun address => ?_
  refine raises_bind (raises_reg .dp) fun length => ?_
  refine raises_bind (raises_onPart (Cpu.raises_readMemory fun m => m.refuses_slice _ _)) ?_
  intro bytes
  refine raises_bind raises_get fun b => ?_
  exact raises_bind (raises_access _ _) fun _ => raises_set _

theorem raises_fileDelete (name : String) : Raises (OfEffect operands) (fileDelete name) := by
  refine raises_bind raises_get fun b => ?_
  exact raises_bind (raises_access _ _) fun _ => raises_set _

theorem raises_file : Raises (OfEffect operands) file := by
  refine raises_bind (raises_reg .bl) fun code => ?_
  dsimp only
  cases FileOperation.ofCode? code.toUInt8.toNat with
  | none => exact raises_reportInvalid _
  | some operation =>
    refine raises_bind (raises_stringAt .cx) fun name => ?_
    refine raises_bind (raises_modify _) fun _ => ?_
    cases operation with
    | read => exact raises_bind (raises_fileRead _) fun _ => raises_pure _
    | save => exact raises_bind (raises_fileWrite _ _) fun _ => raises_pure _
    | append => exact raises_bind (raises_fileWrite _ _) fun _ => raises_pure _
    | delete => exact raises_bind (raises_fileDelete _) fun _ => raises_pure _

theorem raises_stringInput : Raises (OfEffect operands) stringInput := by
  refine raises_bind (raises_onPart (Console.raises_ask _)) fun bytes => ?_
  refine raises_bind (raises_reg .di) fun address => ?_
  refine raises_bind (raises_onPart (Cpu.raises_storeString _ _)) fun terminator => ?_
  exact raises_writeRegister _ _

theorem raises_numberInput : Raises (OfEffect operands) numberInput :=
  raises_bind (raises_onPart (Console.raises_ask _)) fun _ => raises_writeRegister _ _

theorem raises_stringConcat [CoversAddress P] : Raises P stringConcat := by
  refine raises_bind (raises_stringAt .di) fun first => ?_
  refine raises_bind (raises_stringAt .dp) fun second => ?_
  refine raises_bind (raises_reg .bx) fun address => ?_
  exact raises_writeMemory fun m => m.refuses_writeString _ _

theorem raises_stringCopy [CoversAddress P] : Raises P stringCopy := by
  refine raises_bind (raises_stringAt .di) fun bytes => ?_
  refine raises_bind (raises_reg .dp) fun address => ?_
  exact raises_writeMemory fun m => m.refuses_writeString _ _

theorem raises_memoryCopy [CoversAddress P] : Raises P memoryCopy := by
  refine raises_bind (raises_reg .cx) fun length => ?_
  refine raises_bind (raises_reg .di) fun source => ?_
  refine raises_bind (raises_reg .dp) fun target => ?_
  refine raises_bind (raises_onPart (Cpu.raises_readMemory fun m => m.refuses_slice _ _)) ?_
  intro bytes
  exact raises_writeMemory fun m => m.refuses_load _ _

theorem raises_serve (i : Interrupt) : Raises (OfEffect operands) (serve i) := by
  cases i with
  | stringInput => exact raises_bind raises_stringInput fun _ => raises_pure _
  | numberInput => exact raises_bind raises_numberInput fun _ => raises_pure _
  | debug => exact raises_pure _
  | stringConcat => exact raises_bind raises_stringConcat fun _ => raises_pure _
  | stringCopy => exact raises_bind raises_stringCopy fun _ => raises_pure _
  | memoryCopy => exact raises_bind raises_memoryCopy fun _ => raises_pure _
  | file => exact raises_file
  | printString =>
    refine raises_bind ?_ fun _ => raises_pure _
    exact raises_bind (raises_stringAt .di) fun _ => raises_print _
  | printNumber =>
    refine raises_bind ?_ fun _ => raises_pure _
    exact raises_bind (raises_reg .dx) fun _ => raises_print _
  | printChar =>
    refine raises_bind ?_ fun _ => raises_pure _
    exact raises_bind (raises_reg .dl) fun _ => raises_print _

theorem raises_dispatch : Raises (OfEffect operands) dispatch := by
  refine raises_bind (raises_reg .al) fun code => ?_
  dsimp only
  cases Interrupt.ofCode? code.toUInt8.toNat with
  | none => exact raises_reportInvalid _
  | some i => exact raises_bind (raises_modify _) fun _ => raises_serve i

end Service

/-! ## Whole effects -/

namespace Machine

variable [CoversAccess P]

theorem raises_openDebugger : Raises P openDebugger := by
  refine raises_bind (raises_modify _) fun _ => ?_
  refine raises_bind raises_get fun m => ?_
  refine raises_bind (raises_onPart (raises_onPart (Debugger.raises_session _))) fun resume => ?_
  cases resume with
  | step => exact raises_modify _
  | go => exact raises_pure _
  | quit => exact raises_modify _

theorem raises_interrupt : Raises (OfEffect operands) interrupt := by
  refine raises_bind (raises_onPart Service.raises_dispatch) fun outcome => ?_
  cases outcome with
  | handled => exact raises_pure _
  | debug => exact raises_openDebugger
  | invalid e => exact raises_pure _

theorem raises_perform (i : Instruction) : Raises (OfEffect i.operands) (perform i) := by
  unfold perform
  split
  · exact raises_modify _
  · exact raises_interrupt
  · exact raises_onPart (raises_onPart (Cpu.raises_perform _ _))

theorem raises_breakIfWanted : Raises P breakIfWanted := by
  refine raises_bind raises_get fun m => ?_
  split
  · exact raises_bind (raises_modify _) fun _ => raises_openDebugger
  · exact raises_pure _

end Machine

end TeachingCpu
