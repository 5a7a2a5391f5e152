import TeachingCpu.Proofs.Console.Questions
import TeachingCpu.Proofs.Debugger.Bookkeeping
import TeachingCpu.Proofs.Service.Dispatch

/-!
# What a handled interrupt has done

`Handled b i b'` lists, service by service, what was read where an interrupt was handled, which
accesses succeeded, and what became of processor and files. The console is left open: only the line
that an input service took is told, which is the first that it accepts (`firstAccepted`).
-/

namespace TeachingCpu

open Attempt

namespace Bench

/-! ## Accesses -/

variable {b b' : Bench} {α : Type}

/-- The string in memory that a register points at. -/
def string (b : Bench) (r : Register) : Except Error (List UInt8) :=
  b.cpu.memory.readString (b.cpu.reg r).toNat

theorem onCpu_readMemory_eq_ok {read : Memory → Except Error α} {a : α} :
    onCpu (Cpu.readMemory read) b = .ok a b' ↔ read b.cpu.memory = .ok a ∧ b = b' := by
  unfold onCpu
  rw [onPart_eq_ok]
  simp only [Cpu.readMemory_eq_ok_iff]
  constructor
  · rintro ⟨cpu, ⟨hread, rfl⟩, rfl⟩
    exact ⟨hread, rfl⟩
  · rintro ⟨hread, rfl⟩
    exact ⟨_, ⟨hread, rfl⟩, rfl⟩

theorem stringAt_eq_ok {r : Register} {bytes : List UInt8} :
    stringAt r b = .ok bytes b' ↔ b.string r = .ok bytes ∧ b = b' :=
  @onCpu_readMemory_eq_ok b b' _ (·.readString (b.cpu.reg r).toNat) bytes

theorem onCpu_writeMemory_eq_ok {write : Memory → Except Error Memory} :
    onCpu (Cpu.writeMemory write) b = .ok () b' ↔
      ∃ memory, write b.cpu.memory = .ok memory ∧ b' = { b with cpu := { b.cpu with memory } } := by
  unfold onCpu
  rw [onPart_eq_ok]
  simp only [Cpu.writeMemory_eq_ok_iff]
  constructor
  · rintro ⟨cpu, ⟨memory, hwrite, rfl⟩, rfl⟩
    exact ⟨memory, hwrite, rfl⟩
  · rintro ⟨memory, hwrite, rfl⟩
    exact ⟨_, ⟨memory, hwrite, rfl⟩, rfl⟩

/-- An access to memory that is refused changes nothing. -/
theorem onCpu_readMemory_of_error {read : Memory → Except Error α} {e : Error}
    (h : read b.cpu.memory = .error e) : onCpu (Cpu.readMemory read) b = .error e b :=
  onPart_of_error (Cpu.readMemory_of_error h)

theorem onCpu_writeMemory_of_error {write : Memory → Except Error Memory} {e : Error}
    (h : write b.cpu.memory = .error e) : onCpu (Cpu.writeMemory write) b = .error e b :=
  onPart_of_error (Cpu.writeMemory_of_error h)

/-- A register takes a value that fits. -/
theorem onCpu_writeRegister {r : Register} {value : Nat} (hr : r ≠ .pc)
    (hvalue : value ≤ r.width.max) :
    onCpu (Cpu.writeRegister r value) b = .ok () { b with cpu :=
      { b.cpu with registers := b.cpu.registers.write r value.toUInt16 } } :=
  onPart_of_ok (Cpu.writeRegister_of_fits hr hvalue b.cpu)

/-- A register that is written. -/
theorem of_onCpu_writeRegister {r : Register} {value : Nat}
    (h : onCpu (Cpu.writeRegister r value) b = .ok () b') :
    b' = { b with cpu :=
      { b.cpu with registers := b.cpu.registers.write r value.toUInt16 } } := by
  obtain ⟨cpu, hwrite, rfl⟩ := onPart_eq_ok.mp h
  rw [Cpu.writeRegister_eq] at hwrite
  split at hwrite
  · cases hwrite
  · split at hwrite
    · cases hwrite
    · cases hwrite
      rfl

end Bench

namespace Service

open Bench

variable {b b' : Bench}

/-- The file operation that is asked for. -/
def fileOperation? (b : Bench) : Option FileOperation :=
  FileOperation.ofCode? (b.cpu.reg .bl).toUInt8.toNat

/-- The file that the string at `cx` names. -/
def fileName (b : Bench) : Except Error String := (b.string .cx).map Text.ofBytes

/-- What was read, what succeeded and what was changed by an interrupt that was handled. -/
inductive Handled (b : Bench) : Interrupt → Bench → Prop where
  | stringInput {bytes : List UInt8} {memory : Memory} {console : Console}
    (hline : Console.firstAccepted acceptBytes b.console.pending = some bytes)
    (hwrite : b.cpu.memory.writeString (b.cpu.reg .di).toNat bytes = .ok memory) :
    Handled b .stringInput { b with
      console
      cpu := { b.cpu with
        memory
        registers := b.cpu.registers.write .dp
          ((b.cpu.reg .di).toNat + bytes.length).toUInt16 } }
  | numberInput {value : UInt16} {console : Console}
    (hline : Console.firstAccepted acceptWord b.console.pending = some value) :
    Handled b .numberInput { b with
      console
      cpu := { b.cpu with registers := b.cpu.registers.write .dx value } }
  | stringConcat {first second : List UInt8} {memory : Memory} {console : Console}
    (hfirst : b.string .di = .ok first) (hsecond : b.string .dp = .ok second)
    (hwrite : b.cpu.memory.writeString (b.cpu.reg .bx).toNat (first ++ second) = .ok memory) :
    Handled b .stringConcat { b with console, cpu := { b.cpu with memory } }
  | stringCopy {bytes : List UInt8} {memory : Memory} {console : Console}
    (hbytes : b.string .di = .ok bytes)
    (hwrite : b.cpu.memory.writeString (b.cpu.reg .dp).toNat bytes = .ok memory) :
    Handled b .stringCopy { b with console, cpu := { b.cpu with memory } }
  | memoryCopy {bytes : List UInt8} {memory : Memory} {console : Console}
    (hbytes : b.cpu.memory.slice (b.cpu.reg .di).toNat (b.cpu.reg .cx).toNat = .ok bytes)
    (hwrite : b.cpu.memory.load (b.cpu.reg .dp).toNat bytes = .ok memory) :
    Handled b .memoryCopy { b with console, cpu := { b.cpu with memory } }
  | fileRead {name : String} {bytes : List UInt8} {memory : Memory} {console : Console}
    (hoperation : fileOperation? b = some .read) (hname : fileName b = .ok name)
    (hread : b.storage.read name = .ok (some bytes))
    (hwrite : b.cpu.memory.load (b.cpu.reg .di).toNat bytes = .ok memory) :
    Handled b .file { b with
      console
      cpu := { b.cpu with
        memory
        registers := b.cpu.registers.write .dp bytes.length.toUInt16
        flags := b.cpu.flags.set .error false } }
  | fileMissing {name : String} {console : Console}
    (hoperation : fileOperation? b = some .read) (hname : fileName b = .ok name)
    (hread : b.storage.read name = .ok none) :
    Handled b .file { b with
      console
      cpu := { b.cpu with
        registers := b.cpu.registers.write .dp 0
        flags := b.cpu.flags.set .error true } }
  | fileSaved {name : String} {bytes : List UInt8} {storage : Storage} {console : Console}
    (hoperation : fileOperation? b = some .save) (hname : fileName b = .ok name)
    (hbytes : b.cpu.memory.slice (b.cpu.reg .di).toNat (b.cpu.reg .dp).toNat = .ok bytes)
    (hsave : b.storage.save name bytes = .ok storage) :
    Handled b .file { b with console, storage }
  | fileAppended {name : String} {bytes : List UInt8} {storage : Storage} {console : Console}
    (hoperation : fileOperation? b = some .append) (hname : fileName b = .ok name)
    (hbytes : b.cpu.memory.slice (b.cpu.reg .di).toNat (b.cpu.reg .dp).toNat = .ok bytes)
    (happend : b.storage.append name bytes = .ok storage) :
    Handled b .file { b with console, storage }
  | fileDeleted {name : String} {storage : Storage} {console : Console}
    (hoperation : fileOperation? b = some .delete) (hname : fileName b = .ok name)
    (hdelete : b.storage.delete name = .ok storage) :
    Handled b .file { b with console, storage }
  | printed {i : Interrupt} {console : Console}
    (hi : i ∈ [.printString, .printNumber, .printChar]) :
    Handled b i { b with console }

/-- What was shown in between does not matter. -/
theorem Handled.of_console {console : Console} {i : Interrupt}
    (hpending : console.pending = b.console.pending) (h : Handled { b with console } i b') :
    Handled b i b' := by
  cases h with
  | stringInput hline hwrite => exact .stringInput (hpending ▸ hline) hwrite
  | numberInput hline => exact .numberInput (hpending ▸ hline)
  | stringConcat hfirst hsecond hwrite => exact .stringConcat hfirst hsecond hwrite
  | stringCopy hbytes hwrite => exact .stringCopy hbytes hwrite
  | memoryCopy hbytes hwrite => exact .memoryCopy hbytes hwrite
  | fileRead hoperation hname hread hwrite => exact .fileRead hoperation hname hread hwrite
  | fileMissing hoperation hname hread => exact .fileMissing hoperation hname hread
  | fileSaved hoperation hname hbytes hsave => exact .fileSaved hoperation hname hbytes hsave
  | fileAppended hoperation hname hbytes happend =>
    exact .fileAppended hoperation hname hbytes happend
  | fileDeleted hoperation hname hdelete => exact .fileDeleted hoperation hname hdelete
  | printed hi => exact .printed hi

/-- A log line is no part of the dialogue. -/
theorem of_log {level : LogLevel} {topic : String} {text : Unit → String}
    (h : log level topic text b = .ok () b') :
    ∃ console, console.pending = b.console.pending ∧ console.shown = b.console.shown ∧
      b' = { b with console } := by
  cases h
  exact ⟨_, Console.pending_log _ _ _ _, Console.shown_log _ _ _ _, rfl⟩

/-- An action of the console leaves the rest of a bench as it was. -/
theorem of_onConsole {α : Type} {act : Attempt Console α} {a : α}
    (h : onConsole act b = .ok a b') :
    ∃ console, act b.console = .ok a console ∧ b' = { b with console } := onPart_eq_ok.mp h

theorem onConsole_of_ok {α : Type} {act : Attempt Console α} {a : α} {console : Console}
    (h : act b.console = .ok a console) : onConsole act b = .ok a { b with console } :=
  onPart_of_ok h

theorem onConsole_of_error {α : Type} {act : Attempt Console α} {e : Error} {console : Console}
    (h : act b.console = .error e console) : onConsole act b = .error e { b with console } :=
  onPart_of_error h

theorem handled_stringInput (h : stringInput b = .ok () b') : Handled b .stringInput b' := by
  rw [stringInput_eq] at h
  obtain ⟨bytes, b₁, hask, h⟩ := bind_eq_ok.mp h
  obtain ⟨console, hline, rfl⟩ := of_onConsole hask
  obtain ⟨address, b₂, haddress, h⟩ := bind_eq_ok.mp h
  cases haddress
  obtain ⟨_, b₃, hmemory, h⟩ := bind_eq_ok.mp h
  obtain ⟨memory, hwrite, rfl⟩ := onCpu_writeMemory_eq_ok.mp hmemory
  rw [of_onCpu_writeRegister h]
  exact .stringInput (Console.firstAccepted_of_ask hline) hwrite

theorem handled_numberInput (h : numberInput b = .ok () b') : Handled b .numberInput b' := by
  obtain ⟨value, b₁, hask, h⟩ := bind_eq_ok.mp h
  obtain ⟨console, hline, rfl⟩ := of_onConsole hask
  rw [of_onCpu_writeRegister h, Nat.toUInt16_eq, UInt16.ofNat_toNat]
  exact .numberInput (Console.firstAccepted_of_ask hline)

theorem handled_stringConcat (h : stringConcat b = .ok () b') : Handled b .stringConcat b' := by
  obtain ⟨first, b₁, hact, h⟩ := bind_eq_ok.mp h
  obtain ⟨hfirst, rfl⟩ := stringAt_eq_ok.mp hact
  obtain ⟨second, b₂, hact, h⟩ := bind_eq_ok.mp h
  obtain ⟨hsecond, rfl⟩ := stringAt_eq_ok.mp hact
  obtain ⟨address, b₃, haddress, h⟩ := bind_eq_ok.mp h
  cases haddress
  obtain ⟨memory, hwrite, rfl⟩ := onCpu_writeMemory_eq_ok.mp h
  exact .stringConcat hfirst hsecond hwrite

theorem handled_stringCopy (h : stringCopy b = .ok () b') : Handled b .stringCopy b' := by
  obtain ⟨bytes, b₁, hact, h⟩ := bind_eq_ok.mp h
  obtain ⟨hbytes, rfl⟩ := stringAt_eq_ok.mp hact
  obtain ⟨address, b₂, haddress, h⟩ := bind_eq_ok.mp h
  cases haddress
  obtain ⟨memory, hwrite, rfl⟩ := onCpu_writeMemory_eq_ok.mp h
  exact .stringCopy hbytes hwrite

theorem handled_memoryCopy (h : memoryCopy b = .ok () b') : Handled b .memoryCopy b' := by
  obtain ⟨length, b₁, hlength, h⟩ := bind_eq_ok.mp h
  cases hlength
  obtain ⟨source, b₂, hsource, h⟩ := bind_eq_ok.mp h
  cases hsource
  obtain ⟨target, b₃, htarget, h⟩ := bind_eq_ok.mp h
  cases htarget
  obtain ⟨bytes, b₄, hact, h⟩ := bind_eq_ok.mp h
  obtain ⟨hbytes, rfl⟩ := onCpu_readMemory_eq_ok.mp hact
  obtain ⟨memory, hwrite, rfl⟩ := onCpu_writeMemory_eq_ok.mp h
  exact .memoryCopy hbytes hwrite

theorem of_access {α : Type} {name : String} {result : Except FileError α} {a : α}
    (h : access name result b = .ok a b') : result = .ok a ∧ b = b' := by
  cases result with
  | error reason => cases h
  | ok a' =>
    cases h
    exact ⟨rfl, rfl⟩

theorem handled_fileRead {name : String} (hoperation : fileOperation? b = some .read)
    (hname : fileName b = .ok name) (h : fileRead name b = .ok () b') : Handled b .file b' := by
  obtain ⟨address, b₁, haddress, h⟩ := bind_eq_ok.mp h
  cases haddress
  obtain ⟨_, b₂, hget, h⟩ := bind_eq_ok.mp h
  cases hget
  obtain ⟨contents, b₃, hact, h⟩ := bind_eq_ok.mp h
  obtain ⟨hread, rfl⟩ := of_access hact
  cases contents with
  | some bytes =>
    obtain ⟨_, b₄, hmemory, h⟩ := bind_eq_ok.mp h
    obtain ⟨memory, hwrite, rfl⟩ := onCpu_writeMemory_eq_ok.mp hmemory
    obtain ⟨_, b₅, hregister, h⟩ := bind_eq_ok.mp h
    cases of_onCpu_writeRegister hregister
    cases h
    exact .fileRead hoperation hname hread hwrite
  | none =>
    obtain ⟨_, b₄, hregister, h⟩ := bind_eq_ok.mp h
    cases of_onCpu_writeRegister hregister
    cases h
    exact .fileMissing hoperation hname hread

/-- The bytes that are handed to a change of the files, and the files behind it. -/
theorem of_fileWrite {name : String} {change : Storage → List UInt8 → Except FileError Storage}
    (h : fileWrite name change b = .ok () b') :
    ∃ bytes storage,
      b.cpu.memory.slice (b.cpu.reg .di).toNat (b.cpu.reg .dp).toNat = .ok bytes ∧
        change b.storage bytes = .ok storage ∧ b' = { b with storage } := by
  obtain ⟨address, b₁, haddress, h⟩ := bind_eq_ok.mp h
  cases haddress
  obtain ⟨length, b₂, hlength, h⟩ := bind_eq_ok.mp h
  cases hlength
  obtain ⟨bytes, b₃, hact, h⟩ := bind_eq_ok.mp h
  obtain ⟨hbytes, rfl⟩ := onCpu_readMemory_eq_ok.mp hact
  obtain ⟨_, b₄, hget, h⟩ := bind_eq_ok.mp h
  cases hget
  obtain ⟨storage, b₅, hact, h⟩ := bind_eq_ok.mp h
  obtain ⟨hchange, rfl⟩ := of_access hact
  cases h
  exact ⟨bytes, storage, hbytes, hchange, rfl⟩

theorem of_fileDelete {name : String} (h : fileDelete name b = .ok () b') :
    ∃ storage, b.storage.delete name = .ok storage ∧ b' = { b with storage } := by
  obtain ⟨_, b₁, hget, h⟩ := bind_eq_ok.mp h
  cases hget
  obtain ⟨storage, b₂, hact, h⟩ := bind_eq_ok.mp h
  obtain ⟨hchange, rfl⟩ := of_access hact
  cases h
  exact ⟨storage, hchange, rfl⟩

/-- A service that ends in an outcome of its own. -/
theorem of_then_outcome {x : Attempt Bench Unit} {outcome outcome' : Outcome}
    (h : (do x; return outcome) b = .ok outcome' b') : x b = .ok () b' ∧ outcome' = outcome := by
  obtain ⟨_, b₁, hx, h⟩ := bind_eq_ok.mp h
  cases h
  exact ⟨hx, rfl⟩

theorem handled_file (h : file b = .ok .handled b') : Handled b .file b' := by
  obtain ⟨code, b₁, hcode, h⟩ := bind_eq_ok.mp h
  cases hcode
  cases hoperation : fileOperation? b with
  | none =>
    unfold fileOperation? at hoperation
    rw [hoperation] at h
    cases outcome_of_reportInvalid h
  | some operation =>
    have hcode := hoperation
    unfold fileOperation? at hcode
    rw [hcode] at h
    obtain ⟨bytes, b₂, hact, h⟩ := bind_eq_ok.mp h
    obtain ⟨hbytes, rfl⟩ := stringAt_eq_ok.mp hact
    have hname : fileName b = .ok (Text.ofBytes bytes) := by
      unfold fileName
      rw [hbytes]
      rfl
    obtain ⟨_, b₃, hlog, h⟩ := bind_eq_ok.mp h
    obtain ⟨console, hpending, -, rfl⟩ := of_log hlog
    refine Handled.of_console hpending ?_
    cases operation with
    | read => exact handled_fileRead hoperation hname (of_then_outcome h).1
    | save =>
      obtain ⟨bytes, storage, hbytes, hsave, rfl⟩ := of_fileWrite (of_then_outcome h).1
      exact .fileSaved hoperation hname hbytes hsave
    | append =>
      obtain ⟨bytes, storage, hbytes, happend, rfl⟩ := of_fileWrite (of_then_outcome h).1
      exact .fileAppended hoperation hname hbytes happend
    | delete =>
      obtain ⟨storage, hdelete, rfl⟩ := of_fileDelete (of_then_outcome h).1
      exact .fileDeleted hoperation hname hdelete

theorem handled_serve {i : Interrupt} (h : serve i b = .ok .handled b') : Handled b i b' := by
  cases i with
  | stringInput => exact handled_stringInput (of_then_outcome h).1
  | numberInput => exact handled_numberInput (of_then_outcome h).1
  | debug => cases h
  | stringConcat => exact handled_stringConcat (of_then_outcome h).1
  | stringCopy => exact handled_stringCopy (of_then_outcome h).1
  | memoryCopy => exact handled_memoryCopy (of_then_outcome h).1
  | file => exact handled_file h
  | printString =>
    obtain ⟨bytes, b₁, hbytes, hprint⟩ := bind_eq_ok.mp (of_then_outcome h).1
    obtain ⟨-, rfl⟩ := stringAt_eq_ok.mp hbytes
    obtain ⟨console, -, rfl⟩ := of_onConsole hprint
    exact .printed (by decide)
  | printNumber =>
    obtain ⟨value, b₁, hvalue, hprint⟩ := bind_eq_ok.mp (of_then_outcome h).1
    cases hvalue
    obtain ⟨console, -, rfl⟩ := of_onConsole hprint
    exact .printed (by decide)
  | printChar =>
    obtain ⟨value, b₁, hvalue, hprint⟩ := bind_eq_ok.mp (of_then_outcome h).1
    cases hvalue
    obtain ⟨console, -, rfl⟩ := of_onConsole hprint
    exact .printed (by decide)

/-- The interrupt that is asked for. -/
def interrupt? (b : Bench) : Option Interrupt := Interrupt.ofCode? (b.cpu.reg .al).toUInt8.toNat

/-- An interrupt that is handled has served the one that was asked for. -/
theorem handled_dispatch (h : dispatch b = .ok .handled b') :
    ∃ i, interrupt? b = some i ∧ Handled b i b' := by
  obtain ⟨al, b₁, hal, h⟩ := bind_eq_ok.mp h
  cases hal
  cases hi : interrupt? b with
  | none =>
    unfold interrupt? at hi
    rw [hi] at h
    cases outcome_of_reportInvalid h
  | some i =>
    unfold interrupt? at hi
    rw [hi] at h
    obtain ⟨_, b₂, hlog, h⟩ := bind_eq_ok.mp h
    obtain ⟨console, hpending, -, rfl⟩ := of_log hlog
    exact ⟨i, rfl, (handled_serve h).of_console hpending⟩

end Service

end TeachingCpu
