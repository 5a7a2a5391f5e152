import TeachingCpu.Proofs.Cpu.Strict
import TeachingCpu.Proofs.Debugger.Bookkeeping
import TeachingCpu.Proofs.Service.Dispatch

/-!
# Strict services

A strict service works on the strict processor. It takes for granted that a byte register holds a
byte, and that an address or a length that goes to a register fits into thirty-two bits, where the
register checks it. A strict debugger session shows memory by a strict access. On a processor that
is fit none of them breaks off (`follows_dispatch`, `follows_session`).
-/

namespace TeachingCpu

open Attempt StrictAttempt

/-- A number that has at most thirty-two bits. -/
def Strict.narrowLong (n : Nat) : Strict Nat := do
  demand (n < 2 ^ 32)
  return n

theorem Strict.narrowLong_of {n : Nat} (h : n < 2 ^ 32) : narrowLong n = some (.ok n) :=
  bind_of_ok (demand_of h)

/-! ## Strict services -/

namespace Bench.Strict

variable {α : Type}

/-- Runs a strict action on the processor. -/
def onCpu (x : StrictAttempt Cpu α) : StrictAttempt Bench α :=
  StrictAttempt.onPart Bench.cpu (fun cpu b => { b with cpu }) x

/-- Reads something from memory. -/
def readMemory (access : Memory → Strict α) : StrictAttempt Bench α :=
  onCpu (Cpu.Strict.readMemory access)

/-- Changes memory. -/
def writeMemory (access : Memory → Strict Memory) : StrictAttempt Bench Unit :=
  onCpu (Cpu.Strict.writeMemory access)

/-- The byte in a byte register. -/
def byteReg (r : Register) : StrictAttempt Bench UInt8 := do
  let value ← reg r
  Strict.narrowByte value

/-- Writes an address or a length to a register. -/
def writeLength (r : Register) (n : Nat) : StrictAttempt Bench Unit := do
  let n ← Strict.narrowLong n
  onCpu (Cpu.Strict.writeRegister r n)

/-- The string in memory that a register points at. -/
def stringAt (r : Register) : StrictAttempt Bench (List UInt8) := do
  let address ← reg r
  readMemory (Memory.Strict.readString · address.toNat)

end Bench.Strict

namespace Service.Strict

open Bench Bench.Strict

/-- Reads a line into memory at `di`, and the address of its zero byte into `dp`. -/
def stringInput : StrictAttempt Bench Unit := do
  let bytes ← onConsole (Console.ask acceptBytes)
  let address ← reg .di
  let terminator ← Bench.Strict.onCpu (Cpu.Strict.storeString address.toNat bytes)
  writeLength .dp terminator

/-- Reads a number into `dx`. -/
def numberInput : StrictAttempt Bench Unit := do
  let value ← onConsole (Console.ask acceptWord)
  Bench.Strict.onCpu (Cpu.Strict.writeRegister .dx value.toNat)

/-- Puts the strings at `di` and `dp` behind each other at `bx`. -/
def stringConcat : StrictAttempt Bench Unit := do
  let first ← Bench.Strict.stringAt .di
  let second ← Bench.Strict.stringAt .dp
  let address ← reg .bx
  writeMemory (Memory.Strict.writeString · address.toNat (first ++ second))

/-- Copies the string at `di` to `dp`. -/
def stringCopy : StrictAttempt Bench Unit := do
  let bytes ← Bench.Strict.stringAt .di
  let address ← reg .dp
  writeMemory (Memory.Strict.writeString · address.toNat bytes)

/-- Copies `cx` bytes from `di` to `dp`. -/
def memoryCopy : StrictAttempt Bench Unit := do
  let length ← reg .cx
  let source ← reg .di
  let target ← reg .dp
  let bytes ← readMemory (Memory.Strict.slice · source.toNat length.toNat)
  writeMemory (Memory.Strict.load · target.toNat bytes)

/-- Reads a file into memory at `di`, and its length into `dp`. -/
def fileRead (name : String) : StrictAttempt Bench Unit := do
  let address ← reg .di
  let b ← get
  match ← access name (b.storage.read name) with
  | some bytes =>
    writeMemory (Memory.Strict.load · address.toNat bytes)
    writeLength .dp bytes.length
    Bench.onCpu (modify (·.setFlag .error false))
  | none =>
    Bench.Strict.onCpu (Cpu.Strict.writeRegister .dp 0)
    Bench.onCpu (modify (·.setFlag .error true))

/-- Hands the `dp` bytes of memory at `di` to a change of the files. -/
def fileWrite (name : String) (change : Storage → List UInt8 → Except FileError Storage) :
    StrictAttempt Bench Unit := do
  let address ← reg .di
  let length ← reg .dp
  let bytes ← readMemory (Memory.Strict.slice · address.toNat length.toNat)
  let b ← get
  let storage ← access name (change b.storage bytes)
  set { b with storage }

/-- Runs the file operation whose number is in `bl`. -/
def file : StrictAttempt Bench Outcome := do
  let code ← byteReg .bl
  match FileOperation.ofCode? code.toNat with
  | none => reportInvalid (.invalidFileOperation code)
  | some operation => do
    let bytes ← Bench.Strict.stringAt .cx
    let name := Text.ofBytes bytes
    Bench.log .debug topic fun _ => "file " ++ operation.signal ++ " `" ++ name ++ "`"
    match operation with
    | .read => fileRead name
    | .save => fileWrite name (·.save name ·)
    | .append => fileWrite name (·.append name ·)
    | .delete => fileDelete name
    return .handled

/-- Prints the string at `di`. -/
def printString : StrictAttempt Bench Unit := do
  let bytes ← Bench.Strict.stringAt .di
  print (Text.ofBytes bytes)

/-- Prints the character in `dl`. -/
def printChar : StrictAttempt Bench Unit := do
  let value ← byteReg .dl
  print (Text.charOfByte value).toString

/-- Serves an interrupt. -/
def serve : Interrupt → StrictAttempt Bench Outcome
  | .stringInput => do stringInput; return .handled
  | .numberInput => do numberInput; return .handled
  | .debug => return .debug
  | .stringConcat => do stringConcat; return .handled
  | .stringCopy => do stringCopy; return .handled
  | .memoryCopy => do memoryCopy; return .handled
  | .file => file
  | .printString => do printString; return .handled
  | .printNumber => do printNumber; return .handled
  | .printChar => do printChar; return .handled

/-- Serves the interrupt whose number is in `al`. -/
def dispatch : StrictAttempt Bench Outcome := do
  let code ← byteReg .al
  match Interrupt.ofCode? code.toNat with
  | none => reportInvalid (.invalidInterrupt code)
  | some interrupt => do
    Bench.log .debug topic fun _ =>
      "interrupt " ++ toString code.toNat ++ " (" ++ interrupt.signal ++ ")"
    serve interrupt

end Service.Strict

/-! ## Strict sessions -/

/-- A dump of memory. -/
def Report.Strict.memory (display : Text.Display) (m : Memory) (address length : Nat) :
    Strict String := do
  let _ ← Memory.Strict.slice m address length
  Report.memory display m address length

namespace Debugger.Strict

/-- What a command does, or nothing where showing memory breaks off. -/
def answer (display : Text.Display) (cpu : Cpu) : Command → Option (Resume ⊕ String)
  | .memory address length =>
    (Report.Strict.memory display cpu.memory address length).run.map fun
      | .ok dump => .inr dump
      | .error e => .inr (errorLine display e.message)
  | command => some (Debugger.answer display cpu command)

/-- Reads and answers up to `n` lines. -/
def answerTimes (display : Text.Display) (cpu : Cpu) : Nat → StrictAttempt Console Resume
  | 0 => return .go
  | n + 1 => do
    match ← Console.readLine promptText with
    | none =>
      modify (·.log .debug topic fun _ => "debugger input closed, resuming")
      return .go
    | some typed =>
      let line := Text.trim typed
      if line.isEmpty then answerTimes display cpu n
      else match Command.read line with
        | .error e => do
          Console.write (errorLine display e.message)
          answerTimes display cpu n
        | .ok command => do
          modify (·.log .debug topic fun _ => "debugger command " ++ command.describe)
          match ← Strict.index (answer display cpu command) with
          | .inl resume => return resume
          | .inr text =>
            Console.write text
            answerTimes display cpu n

/-- A session: the banner, then commands until execution resumes. -/
def session (cpu : Cpu) : StrictAttempt Console Resume := do
  let c ← get
  Console.write (banner c.display cpu)
  answerTimes c.display cpu (c.pending.length + 1)

end Debugger.Strict

/-! ## Why they do not break off -/

namespace Bench

variable {α β : Type} {b : Bench}

/-- Behind an action that changes the processor. -/
theorem follows_fit_bind {E : Bench → Bench → Prop} {x : StrictAttempt Bench α}
    {act : Attempt Bench α} {f : α → StrictAttempt Bench β} {g : α → Attempt Bench β}
    (h : b.cpu.Fit) (hact : Leaves Evolves E act) (hx : Follows x act b)
    (hf : ∀ a c, c.cpu.Fit → Follows (f a) (g a) c) : Follows (x >>= f) (act >>= g) b :=
  hx.bind fun a c hc => hf a c (h.of_evolves (hact.ok hc))

/-- Behind the use of the console. -/
theorem follows_console_bind {x : Attempt Bench α} {f : α → StrictAttempt Bench β}
    {g : α → Attempt Bench β} (h : b.cpu.Fit) (hx : Leaves ConsoleOnly ConsoleOnly x)
    (hf : ∀ a c, c.cpu.Fit → Follows (f a) (g a) c) : Follows (liftM x >>= f) (x >>= g) b :=
  follows_fit_bind h (hx.imp (fun _ _ h => h.evolves) fun _ _ h => h) (follows_lift x) hf

theorem follows_reg_bind {r : Register} {f : UInt16 → StrictAttempt Bench β}
    {g : UInt16 → Attempt Bench β} (hf : Follows (f (b.cpu.reg r)) (g (b.cpu.reg r)) b) :
    Follows (liftM (reg r) >>= f) (reg r >>= g) b := hf

theorem follows_onCpu {x : StrictAttempt Cpu α} {act : Attempt Cpu α} (h : Follows x act b.cpu) :
    Follows (Strict.onCpu x) (onCpu act) b :=
  follows_onPart h

theorem follows_readMemory {access : Memory → Strict α} {access' : Memory → Except Error α}
    (h : access b.cpu.memory = some (access' b.cpu.memory)) :
    Follows (Strict.readMemory access) (onCpu (Cpu.readMemory access')) b :=
  follows_onCpu (Cpu.follows_readMemory h)

theorem follows_writeMemory {access : Memory → Strict Memory}
    {access' : Memory → Except Error Memory}
    (h : access b.cpu.memory = some (access' b.cpu.memory)) :
    Follows (Strict.writeMemory access) (onCpu (Cpu.writeMemory access')) b :=
  follows_onCpu (Cpu.follows_writeMemory h)

/-- A byte register holds a byte. -/
theorem follows_byteReg_bind {r : Register} (h : b.cpu.Fit) (hr : r.width = .byte)
    {f : UInt8 → StrictAttempt Bench β} {g : UInt16 → Attempt Bench β}
    (hf : Follows (f (b.cpu.reg r).toUInt8) (g (b.cpu.reg r)) b) :
    Follows (Strict.byteReg r >>= f) (reg r >>= g) b := by
  have hbyte : Strict.byteReg r b = some (.ok (b.cpu.reg r).toUInt8 b) :=
    congrArg (Option.map (ofExcept · b)) (Strict.narrowByte_of (h.paired.byte hr))
  unfold Follows
  change StrictAttempt.bind (Strict.byteReg r) f b = _
  unfold StrictAttempt.bind
  rw [hbyte]
  exact hf

theorem follows_writeLength {n : Nat} (h : n < 2 ^ 32) (r : Register) :
    Follows (Strict.writeLength r n) (onCpu (Cpu.writeRegister r n)) b :=
  follows_bind_of_ok (Strict.narrowLong_of h) (follows_onCpu (Cpu.follows_writeRegister r n))

theorem follows_stringAt (h : b.cpu.Fit) (r : Register) :
    Follows (Strict.stringAt r) (stringAt r) b :=
  follows_reg_bind (follows_readMemory (Memory.Strict.readString_eq h.size_pos h.size_le _))

end Bench

namespace Service

open Bench

variable {b : Bench}

theorem follows_stringInput (h : b.cpu.Fit) : Follows Strict.stringInput stringInput b := by
  refine follows_console_bind h (leaves_onConsole _) fun bytes c hfit => follows_reg_bind ?_
  have hstore : Follows
      (Bench.Strict.onCpu (Cpu.Strict.storeString (c.cpu.reg .di).toNat bytes))
      (Bench.onCpu (Cpu.storeString (c.cpu.reg .di).toNat bytes)) c :=
    follows_onCpu (Cpu.follows_storeString hfit _ _)
  refine hstore.bind fun terminator d hd => follows_writeLength ?_ .dp
  -- the string was stored, so its end is an address
  obtain ⟨cpu, hcpu, rfl⟩ := onPart_eq_ok.mp hd
  obtain ⟨stored, _, hread, hset⟩ := bind_eq_ok.mp hcpu
  obtain ⟨haccess, rfl⟩ := Cpu.readMemory_eq_ok_iff.mp hread
  obtain ⟨hend, rfl⟩ := Memory.storeString_eq_ok_iff.mp haccess
  cases hset
  rw [Memory.le_lastAddressable_iff hfit.size_pos hfit.size_le] at hend
  have hsize := hfit.size_le
  omega

theorem follows_numberInput (h : b.cpu.Fit) : Follows Strict.numberInput numberInput b :=
  follows_console_bind h (leaves_onConsole _) fun value _ _ =>
    follows_onCpu (Cpu.follows_writeRegister .dx value.toNat)

theorem follows_stringConcat (h : b.cpu.Fit) : Follows Strict.stringConcat stringConcat b := by
  refine (follows_stringAt h .di).bind_reads (reads_stringAt .di) fun first _ => ?_
  refine (follows_stringAt h .dp).bind_reads (reads_stringAt .dp) fun second _ => ?_
  refine follows_reg_bind (follows_writeMemory ?_)
  exact Memory.Strict.writeString_eq h.size_pos h.size_le _ _

theorem follows_stringCopy (h : b.cpu.Fit) : Follows Strict.stringCopy stringCopy b := by
  refine (follows_stringAt h .di).bind_reads (reads_stringAt .di) fun bytes _ => ?_
  refine follows_reg_bind (follows_writeMemory ?_)
  exact Memory.Strict.writeString_eq h.size_pos h.size_le _ _

/-- A stretch of memory that two registers tell, read for what follows. -/
theorem follows_slice_bind {β : Type} (h : b.cpu.Fit) (address length : UInt16)
    {f : List UInt8 → StrictAttempt Bench β} {g : List UInt8 → Attempt Bench β}
    (hf : ∀ bytes, Follows (f bytes) (g bytes) b) :
    Follows (Bench.Strict.readMemory (Memory.Strict.slice · address.toNat length.toNat) >>= f)
      (Bench.onCpu (Cpu.readMemory (·.slice address.toNat length.toNat)) >>= g) b := by
  have hread : Follows
      (Bench.Strict.readMemory (Memory.Strict.slice · address.toNat length.toNat))
      (Bench.onCpu (Cpu.readMemory (·.slice address.toNat length.toNat))) b :=
    follows_readMemory (Memory.Strict.slice_eq h.size_pos h.size_le _ _)
  exact hread.bind_reads (reads_onCpu (Cpu.reads_readMemory _)) fun bytes _ => hf bytes

theorem follows_memoryCopy (h : b.cpu.Fit) : Follows Strict.memoryCopy memoryCopy b := by
  refine follows_reg_bind (follows_reg_bind (follows_reg_bind ?_))
  refine follows_slice_bind h _ _ fun bytes => follows_writeMemory ?_
  exact Memory.Strict.load_eq h.size_pos h.size_le _ _

theorem follows_fileRead (h : b.cpu.Fit) (name : String) :
    Follows (Strict.fileRead name) (fileRead name) b := by
  refine follows_reg_bind (follows_get_bind ?_)
  refine (follows_lift (access name _)).bind_reads (reads_access name _) fun contents _ => ?_
  cases contents with
  | none => exact (follows_onCpu (Cpu.follows_writeRegister .dp 0)).bind fun _ _ _ => rfl
  | some bytes =>
    have hload : Follows
        (Bench.Strict.writeMemory (Memory.Strict.load · (b.cpu.reg .di).toNat bytes))
        (Bench.onCpu (Cpu.writeMemory (·.load (b.cpu.reg .di).toNat bytes))) b :=
      follows_writeMemory (Memory.Strict.load_eq h.size_pos h.size_le _ _)
    refine hload.bind fun _ c hc => ?_
    -- the contents were stored, so they are no longer than memory
    obtain ⟨cpu, hcpu, rfl⟩ := onPart_eq_ok.mp hc
    obtain ⟨memory, haccess, -⟩ := Cpu.writeMemory_eq_ok_iff.mp hcpu
    have hlength := Memory.length_le_of_load haccess
    rw [Layout.lastAddressable_eq h.size_le] at hlength
    have hsize := h.size_le
    exact (follows_writeLength (by omega) .dp).bind fun _ _ _ => rfl

theorem follows_fileWrite (h : b.cpu.Fit) (name : String)
    (change : Storage → List UInt8 → Except FileError Storage) :
    Follows (Strict.fileWrite name change) (fileWrite name change) b := by
  refine follows_reg_bind (follows_reg_bind ?_)
  refine follows_slice_bind h _ _ fun bytes => follows_get_bind ?_
  exact (follows_lift (access name _)).bind fun _ _ _ => rfl

theorem follows_file (h : b.cpu.Fit) : Follows Strict.file file b := by
  refine follows_byteReg_bind h rfl ?_
  dsimp only
  cases FileOperation.ofCode? (b.cpu.reg .bl).toUInt8.toNat with
  | none => exact follows_lift _
  | some operation =>
    refine (follows_stringAt h .cx).bind_reads (reads_stringAt .cx) fun bytes _ => ?_
    refine follows_console_bind h (leaves_log _ _ _) fun _ c hfit => ?_
    cases operation with
    | read => exact (follows_fileRead hfit _).bind fun _ _ _ => rfl
    | save => exact (follows_fileWrite hfit _ _).bind fun _ _ _ => rfl
    | append => exact (follows_fileWrite hfit _ _).bind fun _ _ _ => rfl
    | delete => exact (follows_lift _).bind fun _ _ _ => rfl

theorem follows_printString (h : b.cpu.Fit) : Follows Strict.printString printString b :=
  (follows_stringAt h .di).bind fun _ _ _ => rfl

theorem follows_printChar (h : b.cpu.Fit) : Follows Strict.printChar printChar b :=
  follows_byteReg_bind h rfl (follows_lift _)

theorem follows_serve (h : b.cpu.Fit) (i : Interrupt) :
    Follows (Strict.serve i) (serve i) b := by
  cases i with
  | stringInput => exact (follows_stringInput h).bind fun _ _ _ => rfl
  | numberInput => exact (follows_numberInput h).bind fun _ _ _ => rfl
  | debug => rfl
  | stringConcat => exact (follows_stringConcat h).bind fun _ _ _ => rfl
  | stringCopy => exact (follows_stringCopy h).bind fun _ _ _ => rfl
  | memoryCopy => exact (follows_memoryCopy h).bind fun _ _ _ => rfl
  | file => exact follows_file h
  | printString => exact (follows_printString h).bind fun _ _ _ => rfl
  | printNumber => exact (follows_lift _).bind fun _ _ _ => rfl
  | printChar => exact (follows_printChar h).bind fun _ _ _ => rfl

theorem follows_dispatch (h : b.cpu.Fit) : Follows Strict.dispatch dispatch b := by
  refine follows_byteReg_bind h rfl ?_
  dsimp only
  cases Interrupt.ofCode? (b.cpu.reg .al).toUInt8.toNat with
  | none => exact follows_lift _
  | some i => exact follows_console_bind h (leaves_log _ _ _) fun _ _ hfit => follows_serve hfit i

end Service

theorem Report.Strict.memory_eq {m : Memory} (hmin : 0 < m.layout.size)
    (hmax : m.layout.size ≤ 65535) (display : Text.Display) (address length : Nat) :
    Report.Strict.memory display m address length =
      some (Report.memory display m address length) := by
  unfold Report.Strict.memory
  rw [Memory.Strict.slice_eq hmin hmax]
  cases hslice : m.slice address length with
  | ok bytes => rfl
  | error e =>
    unfold Report.memory
    rw [hslice]
    rfl

namespace Debugger

theorem answer_eq {cpu : Cpu} (h : cpu.Fit) (display : Text.Display) (command : Command) :
    Strict.answer display cpu command = some (answer display cpu command) := by
  cases command with
  | memory address length =>
    have hdump := Report.Strict.memory_eq h.size_pos h.size_le display address length
    dsimp only [Strict.answer, answer]
    rw [hdump]
    cases Report.memory display cpu.memory address length <;> rfl
  | _ => rfl

theorem follows_answerTimes {cpu : Cpu} (h : cpu.Fit) (display : Text.Display) (n : Nat)
    {c : Console} : Follows (Strict.answerTimes display cpu n) (answerTimes display cpu n) c := by
  induction n generalizing c with
  | zero => rfl
  | succ n ih =>
    refine (follows_lift (Console.readLine promptText)).bind fun typed d _ => ?_
    cases typed with
    | none => rfl
    | some typed =>
      refine follows_ite (fun _ => ih) fun _ => ?_
      cases Command.read (Text.trim typed) with
      | error e => exact (follows_lift (Console.write _)).bind fun _ _ _ => ih
      | ok command =>
        refine follows_modify_bind ?_
        refine follows_bind_of_ok (TeachingCpu.Strict.index_of (answer_eq h display command)) ?_
        cases answer display cpu command with
        | inl resume => rfl
        | inr text => exact (follows_lift (Console.write _)).bind fun _ _ _ => ih

theorem follows_session {cpu : Cpu} (h : cpu.Fit) {c : Console} :
    Follows (Strict.session cpu) (session cpu) c :=
  follows_get_bind ((follows_lift (Console.write _)).bind fun _ _ _ => follows_answerTimes h _ _)

end Debugger

end TeachingCpu
