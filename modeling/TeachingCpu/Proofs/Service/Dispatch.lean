import TeachingCpu.Proofs.Cpu.Evolution

/-!
# What services do

A service reads first and writes last, so one that fails has used the console and nothing else
(`leaves_dispatch`). It takes a memory of at most 65535 bytes: a file could fill a larger one, and
its length would not fit into `dp`.
-/

namespace TeachingCpu

open Attempt

namespace Bench

/-- Nothing but the console was used. -/
structure ConsoleOnly (b b' : Bench) : Prop where
  cpu : b'.cpu = b.cpu
  storage : b'.storage = b.storage

/-- The processor went through some moves. -/
def Evolves (b b' : Bench) : Prop := b.cpu.Evolves b'.cpu

/-- What a service that fails leaves: if addresses have sixteen bits, nothing but the console was
used. -/
structure Spared (b b' : Bench) : Prop where
  evolves : Evolves b b'
  consoleOnly : b.cpu.layout.size ≤ 65535 → ConsoleOnly b b'

instance : IsPreorder Bench ConsoleOnly where
  refl _ := ⟨rfl, rfl⟩
  trans _ _ _ h h' := ⟨h'.cpu.trans h.cpu, h'.storage.trans h.storage⟩

instance : IsPreorder Bench Evolves where
  refl _ := .refl
  trans _ _ _ h h' := h.trans h'

theorem ConsoleOnly.evolves {b b' : Bench} (h : ConsoleOnly b b') : Evolves b b' := by
  unfold Evolves
  rw [h.cpu]

theorem ConsoleOnly.spared {b b' : Bench} (h : ConsoleOnly b b') : Spared b b' :=
  ⟨h.evolves, fun _ => h⟩

instance : Std.Refl Spared := ⟨fun b => (refl_of ConsoleOnly b).spared⟩

variable {α β : Type}

theorem leaves_onConsole (act : Attempt Console α) :
    Leaves ConsoleOnly ConsoleOnly (onConsole act) := by
  have hact : Leaves (fun _ _ => True) (fun _ _ => True) act :=
    ⟨fun _ => trivial, fun _ => trivial⟩
  exact leaves_onPart hact (fun _ _ _ => ⟨rfl, rfl⟩) fun _ _ _ => ⟨rfl, rfl⟩

theorem leaves_log (level : LogLevel) (topic : String) (text : Unit → String)
    {E : Bench → Bench → Prop} : Leaves ConsoleOnly E (log level topic text) :=
  leaves_modify fun _ => ⟨rfl, rfl⟩

theorem reads_onCpu {act : Attempt Cpu α} (h : Reads act) : Reads (onCpu act) := by
  refine leaves_onPart h ?_ ?_
  · rintro b cpu rfl
    rfl
  · rintro b cpu rfl
    rfl

theorem leaves_onCpu {act : Attempt Cpu α} (h : Leaves Cpu.Evolves Eq act) :
    Leaves Evolves Spared (onCpu act) := by
  refine leaves_onPart h (fun _ _ h => h) ?_
  rintro b cpu rfl
  exact refl_of Spared b

theorem reads_reg (r : Register) : Reads (reg r) :=
  reads_get.bind fun _ => leaves_pure _

theorem reads_stringAt (r : Register) : Reads (stringAt r) :=
  (reads_reg r).bind fun _ => reads_onCpu (Cpu.reads_readMemory _)

/-- Behind the use of the console. -/
theorem leaves_console_bind {x : Attempt Bench α} {f : α → Attempt Bench β}
    (hx : Leaves ConsoleOnly ConsoleOnly x) (hf : ∀ a, Leaves Evolves Spared (f a)) :
    Leaves Evolves Spared (x >>= f) := by
  refine leaves_bind hx hf ?_ ?_ ?_
  · intro b c d h h'
    exact h.evolves.trans h'
  · intro b c h
    exact h.spared
  · intro b c d h h'
    refine ⟨h.evolves.trans h'.evolves, fun hsize => ?_⟩
    exact trans_of ConsoleOnly h (h'.consoleOnly (h.cpu ▸ hsize))

theorem onCpu_bind (x : Attempt Cpu α) (f : α → Attempt Cpu β) :
    onCpu (x >>= f) = (onCpu x >>= fun a => onCpu (f a)) := by
  funext b
  cases hx : x b.cpu with
  | ok a cpu =>
    have hfirst : onCpu x b = .ok a { b with cpu } := onPart_of_ok hx
    have hboth : onCpu (x >>= f) b = onCpu (f a) { b with cpu } := by
      unfold onCpu onPart
      rw [bind_of_ok hx]
    rw [hboth]
    exact (bind_of_ok (f := fun a => onCpu (f a)) hfirst).symm
  | error e cpu =>
    have hfirst : onCpu x b = .error e { b with cpu } := onPart_of_error hx
    have hboth : onCpu (x >>= f) b = .error e { b with cpu } :=
      onPart_of_error (bind_of_error hx)
    exact hboth.trans (bind_of_error hfirst).symm

/-- Behind a string that is stored. -/
theorem onCpu_storeString_bind (address : Nat) (bytes : List UInt8) (f : Nat → Attempt Bench β) :
    (onCpu (Cpu.storeString address bytes) >>= f) =
      (onCpu (Cpu.writeMemory (·.writeString address bytes)) >>= fun _ =>
        f (address + bytes.length)) := by
  rw [Cpu.storeString_eq, onCpu_bind, bind_assoc]
  rfl

/-- A register written behind a change of memory that lets the value fit. -/
theorem leaves_write_both {access : Memory → Except Error Memory} {r : Register} {value : Nat}
    (hlayout : ∀ {m m' : Memory}, access m = .ok m' → m'.layout = m.layout) (hr : r ≠ .pc)
    (hfits : ∀ {m m' : Memory}, access m = .ok m' → m.layout.size ≤ 65535 →
      value ≤ r.width.max) :
    Leaves Evolves Spared (do
      onCpu (Cpu.writeMemory access)
      onCpu (Cpu.writeRegister r value)) := by
  have hmemory := leaves_onCpu (Cpu.leaves_writeMemory hlayout)
  have hregister := leaves_onCpu (Cpu.leaves_writeRegister r value)
  have hboth : Leaves Evolves Evolves (do
      onCpu (Cpu.writeMemory access)
      onCpu (Cpu.writeRegister r value)) :=
    leaves_seq (hmemory.imp (fun _ _ h => h) fun _ _ h => h.evolves) fun _ =>
      hregister.imp (fun _ _ h => h) fun _ _ h => h.evolves
  refine ⟨hboth.ok, fun {b b' e} h => ⟨hboth.error h, fun hsize => ?_⟩⟩
  cases hwrite : onCpu (Cpu.writeMemory access) b with
  | error e' b₁ =>
    rw [bind_of_error hwrite] at h
    cases h
    exact (hmemory.error hwrite).consoleOnly hsize
  | ok _ b₁ =>
    -- the register takes the value, so nothing fails here
    rw [bind_of_ok hwrite] at h
    obtain ⟨cpu, hcpu, rfl⟩ := onPart_eq_ok.mp hwrite
    obtain ⟨memory, haccess, -⟩ := Cpu.writeMemory_eq_ok_iff.mp hcpu
    have hvalue : value ≤ r.width.max := hfits haccess hsize
    rw [onCpu, onPart_of_ok (Cpu.writeRegister_of_fits hr hvalue cpu)] at h
    cases h

end Bench

namespace Service

open Bench

theorem leaves_print (text : String) : Leaves ConsoleOnly ConsoleOnly (print text) :=
  leaves_onConsole _

theorem leaves_reportInvalid (cause : Cause) :
    Leaves ConsoleOnly ConsoleOnly (reportInvalid cause) := by
  refine leaves_seq (leaves_log _ _ _) fun _ => ?_
  exact leaves_seq (leaves_print _) fun _ => leaves_pure _

/-- The address of the zero byte behind a line is the one behind its bytes. -/
theorem stringInput_eq : stringInput = (do
    let bytes ← onConsole (Console.ask acceptBytes)
    let address ← reg .di
    onCpu (Cpu.writeMemory (·.writeString address.toNat bytes))
    onCpu (Cpu.writeRegister .dp (address.toNat + bytes.length))) := by
  unfold stringInput
  simp only [onCpu_storeString_bind]

theorem leaves_stringInput : Leaves Evolves Spared stringInput := by
  rw [stringInput_eq]
  refine leaves_console_bind (leaves_onConsole _) fun bytes => ?_
  refine (reads_reg .di).bind fun address => ?_
  refine leaves_write_both Memory.layout_of_writeString (by decide) fun {m m'} h _ => ?_
  have hend := (Memory.writeString_eq_ok_iff.mp h).1
  exact hend.trans (Nat.le_of_lt_succ (UInt16.toNat_lt _))

theorem leaves_numberInput : Leaves Evolves Spared numberInput :=
  leaves_console_bind (leaves_onConsole _) fun _ => leaves_onCpu (Cpu.leaves_writeRegister _ _)

theorem leaves_stringConcat : Leaves Evolves Spared stringConcat := by
  refine (reads_stringAt .di).bind fun first => ?_
  refine (reads_stringAt .dp).bind fun second => ?_
  refine (reads_reg .bx).bind fun address => ?_
  exact leaves_onCpu (Cpu.leaves_writeMemory Memory.layout_of_writeString)

theorem leaves_stringCopy : Leaves Evolves Spared stringCopy := by
  refine (reads_stringAt .di).bind fun bytes => ?_
  refine (reads_reg .dp).bind fun address => ?_
  exact leaves_onCpu (Cpu.leaves_writeMemory Memory.layout_of_writeString)

theorem leaves_memoryCopy : Leaves Evolves Spared memoryCopy := by
  refine (reads_reg .cx).bind fun length => ?_
  refine (reads_reg .di).bind fun source => ?_
  refine (reads_reg .dp).bind fun target => ?_
  refine (reads_onCpu (Cpu.reads_readMemory _)).bind fun bytes => ?_
  exact leaves_onCpu (Cpu.leaves_writeMemory Memory.layout_of_load)

theorem reads_access {α : Type} (name : String) (result : Except FileError α) :
    Reads (access name result) := by
  cases result with
  | ok a => exact leaves_pure a
  | error reason => exact leaves_fail _

/-- Files change behind an access that succeeds. -/
theorem leaves_changeFiles (name : String) (change : Storage → Except FileError Storage) :
    Leaves Evolves Spared (do
      let b ← get
      let storage ← access name (change b.storage)
      set { b with storage }) := by
  constructor
  · intro b b' a h
    rw [get_bind_apply] at h
    obtain ⟨storage, b₁, haccess, h⟩ := bind_eq_ok.mp h
    cases (reads_access name _).ok haccess
    cases h
    exact refl_of Evolves b
  · intro b b' e h
    rw [get_bind_apply] at h
    cases haccess : access name (change b.storage) b with
    | ok storage b₁ =>
      rw [bind_of_ok haccess] at h
      cases h
    | error e' b₁ =>
      rw [bind_of_error haccess] at h
      cases h
      cases (reads_access name _).error haccess
      exact refl_of Spared b

theorem leaves_fileRead (name : String) : Leaves Evolves Spared (fileRead name) := by
  have hflag : ∀ value : Bool, Leaves Evolves (fun _ _ => False)
      (onCpu (modify (·.setFlag .error value))) := by
    intro value
    have hmodify : Leaves Cpu.Evolves (fun _ _ => False)
        (modify (·.setFlag .error value) : Attempt Cpu PUnit) :=
      leaves_modify fun cpu => (Cpu.Move.flags _).evolves
    exact leaves_onPart hmodify (fun _ _ h => h) fun _ _ h => h
  refine (reads_reg .di).bind fun address => ?_
  refine reads_get.bind fun b => ?_
  refine (reads_access name _).bind fun contents => ?_
  cases contents with
  | some bytes =>
    have hwrite : Leaves Evolves Spared (do
        onCpu (Cpu.writeMemory (·.load address.toNat bytes))
        onCpu (Cpu.writeRegister .dp bytes.length)) := by
      refine leaves_write_both Memory.layout_of_load (by decide) fun {m m'} h hsize => ?_
      have hlength := Memory.length_le_of_load h
      rw [Layout.lastAddressable_eq hsize] at hlength
      show bytes.length ≤ 65535
      omega
    have hall := leaves_bind_unfailing hwrite fun _ => hflag false
    rw [bind_assoc] at hall
    exact hall
  | none =>
    exact leaves_bind_unfailing (leaves_onCpu (Cpu.leaves_writeRegister _ _)) fun _ => hflag true

theorem leaves_fileWrite (name : String)
    (change : Storage → List UInt8 → Except FileError Storage) :
    Leaves Evolves Spared (fileWrite name change) := by
  refine (reads_reg .di).bind fun address => ?_
  refine (reads_reg .dp).bind fun length => ?_
  refine (reads_onCpu (Cpu.reads_readMemory _)).bind fun bytes => ?_
  exact leaves_changeFiles name (change · bytes)

theorem leaves_fileDelete (name : String) : Leaves Evolves Spared (fileDelete name) :=
  leaves_changeFiles name (·.delete name)

/-- A service that ends in an outcome of its own. -/
theorem leaves_then_outcome {x : Attempt Bench Unit} (hx : Leaves Evolves Spared x)
    (outcome : Outcome) : Leaves Evolves Spared (do x; return outcome) :=
  leaves_bind_unfailing hx fun _ => leaves_pure outcome

theorem leaves_consoleOnly {α : Type} {act : Attempt Bench α}
    (h : Leaves ConsoleOnly ConsoleOnly act) : Leaves Evolves Spared act :=
  h.imp (fun _ _ h => h.evolves) fun _ _ h => h.spared

theorem leaves_file : Leaves Evolves Spared file := by
  refine (reads_reg .bl).bind fun code => ?_
  dsimp only
  cases FileOperation.ofCode? code.toUInt8.toNat with
  | none => exact leaves_consoleOnly (leaves_reportInvalid _)
  | some operation =>
    refine (reads_stringAt .cx).bind fun name => ?_
    refine leaves_console_bind (leaves_log _ _ _) fun _ => ?_
    cases operation with
    | read => exact leaves_then_outcome (leaves_fileRead _) .handled
    | save => exact leaves_then_outcome (leaves_fileWrite _ _) .handled
    | append => exact leaves_then_outcome (leaves_fileWrite _ _) .handled
    | delete => exact leaves_then_outcome (leaves_fileDelete _) .handled

theorem leaves_printString : Leaves Evolves Spared printString :=
  (reads_stringAt .di).bind fun _ => leaves_consoleOnly (leaves_print _)

theorem leaves_printNumber : Leaves Evolves Spared printNumber :=
  (reads_reg .dx).bind fun _ => leaves_consoleOnly (leaves_print _)

theorem leaves_printChar : Leaves Evolves Spared printChar :=
  (reads_reg .dl).bind fun _ => leaves_consoleOnly (leaves_print _)

theorem leaves_serve (i : Interrupt) : Leaves Evolves Spared (serve i) := by
  cases i with
  | stringInput => exact leaves_then_outcome leaves_stringInput .handled
  | numberInput => exact leaves_then_outcome leaves_numberInput .handled
  | debug => exact leaves_pure _
  | stringConcat => exact leaves_then_outcome leaves_stringConcat .handled
  | stringCopy => exact leaves_then_outcome leaves_stringCopy .handled
  | memoryCopy => exact leaves_then_outcome leaves_memoryCopy .handled
  | file => exact leaves_file
  | printString => exact leaves_then_outcome leaves_printString .handled
  | printNumber => exact leaves_then_outcome leaves_printNumber .handled
  | printChar => exact leaves_then_outcome leaves_printChar .handled

/-- An interrupt that fails has used the console and nothing else. -/
theorem leaves_dispatch : Leaves Evolves Spared dispatch := by
  refine (reads_reg .al).bind fun code => ?_
  dsimp only
  cases Interrupt.ofCode? code.toUInt8.toNat with
  | none => exact leaves_consoleOnly (leaves_reportInvalid _)
  | some i => exact leaves_console_bind (leaves_log _ _ _) fun _ => leaves_serve i

end Service

end TeachingCpu
