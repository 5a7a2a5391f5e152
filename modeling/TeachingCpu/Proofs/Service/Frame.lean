import TeachingCpu.Proofs.Cpu.Pairs
import TeachingCpu.Proofs.Service.Handled
import TeachingCpu.Proofs.Text.Number

/-!
# What an interrupt may change

Each service has a footprint: the registers, the flag and the file that it may change, and the
stretch of memory that it writes. It is computed from the state in which the interrupt arises, and
all outside of it stays as it was (`Handled.confined`). An interrupt that fails, or whose number is
unknown, changes nothing at all (`dispatch_framed`).
-/

namespace TeachingCpu

open Attempt

namespace Console

/-- One line is shown, and nothing is typed. -/
structure ShowsLine (text : String) (c c' : Console) : Prop where
  shown : c'.shown = .output (text ++ "\n") :: c.shown
  single : '\n' ∉ text.toList
  pending : c'.pending = c.pending

theorem shown_of_write {text : String} {c c' : Console} (h : write text c = .ok () c') :
    c'.shown = .output text :: c.shown := by
  unfold write at h
  rw [get_bind_apply] at h
  split at h
  · cases h
  · cases h
    rfl

end Console

namespace Service

open Bench

variable {b b' : Bench} {i : Interrupt}

/-! ## Footprints -/

/-- What a service may change. -/
structure Footprint where
  registers : List Register := []
  flags : List Flag := []
  file : Option String := none
  /-- Where bytes are written. -/
  start : Nat := 0
  /-- How many bytes are written. -/
  length : Nat := 0
deriving DecidableEq, Repr

/-- The length of the string that a register points at. -/
def stringLength (b : Bench) (r : Register) : Nat := ((b.string r).toOption.getD []).length

/-- The length of the line that a service for strings takes. -/
def lineLength (b : Bench) : Nat :=
  ((Console.firstAccepted acceptBytes b.console.pending).getD []).length

/-- The length of the file that is named. -/
def fileLength (b : Bench) : Nat :=
  match fileName b with
  | .ok name => ((b.storage.read name).toOption.join.getD []).length
  | .error _ => 0

/-- What the file interrupt may change. -/
def fileFootprint (b : Bench) : FileOperation → Footprint
  | .read =>
    { registers := [.dp]
      flags := [.error]
      start := (b.cpu.reg .di).toNat
      length := fileLength b }
  | .save | .append | .delete => { file := (fileName b).toOption }

/-- What an interrupt may change. A string is written with a zero behind it. -/
def footprint (b : Bench) : Interrupt → Footprint
  | .stringInput =>
    { registers := [.dp]
      start := (b.cpu.reg .di).toNat
      length := lineLength b + 1 }
  | .numberInput => { registers := [.dx, .dl, .dh] }
  | .stringConcat =>
    { start := (b.cpu.reg .bx).toNat
      length := stringLength b .di + stringLength b .dp + 1 }
  | .stringCopy =>
    { start := (b.cpu.reg .dp).toNat
      length := stringLength b .di + 1 }
  | .memoryCopy =>
    { start := (b.cpu.reg .dp).toNat
      length := (b.cpu.reg .cx).toNat }
  | .file => ((fileOperation? b).map (fileFootprint b)).getD {}
  | .debug | .printString | .printNumber | .printChar => {}

/-- Nothing is changed outside of a footprint. -/
structure Confined (f : Footprint) (b b' : Bench) : Prop where
  registers : ∀ r ∉ f.registers, b'.cpu.reg r = b.cpu.reg r
  flags : ∀ flag ∉ f.flags, b'.cpu.flags.get flag = b.cpu.flags.get flag
  calls : b'.cpu.calls = b.cpu.calls
  allowPcWrite : b'.cpu.allowPcWrite = b.cpu.allowPcWrite
  layout : b'.cpu.layout = b.cpu.layout
  memory : ∀ address, address < f.start ∨ f.start + f.length ≤ address →
    b'.cpu.memory.byteAt address = b.cpu.memory.byteAt address
  storage : f.file = none → b'.storage = b.storage
  files : ∀ files, b.storage = .table files → ∃ files', b'.storage = .table files' ∧
    ∀ name, f.file ≠ some name → files'.find? name = files.find? name

/-- Nothing but the console is used. -/
theorem Confined.of_consoleOnly {f : Footprint} (h : ConsoleOnly b b') : Confined f b b' where
  registers r _ := by rw [h.cpu]
  flags flag _ := by rw [h.cpu]
  calls := by rw [h.cpu]
  allowPcWrite := by rw [h.cpu]
  layout := by rw [h.cpu]
  memory address _ := by rw [h.cpu]
  storage _ := h.storage
  files files hfiles := ⟨files, h.storage.trans hfiles, fun _ _ => rfl⟩

/-- Bytes are replaced, where the footprint says so. -/
theorem Confined.of_replace {f : Footprint} {bytes : List UInt8} {console : Console}
    (hlength : bytes.length = f.length) :
    Confined f b { b with
      console
      cpu := { b.cpu with memory := b.cpu.memory.replace f.start bytes } } where
  registers _ _ := rfl
  flags _ _ := rfl
  calls := rfl
  allowPcWrite := rfl
  layout := rfl
  memory _ h := Memory.byteAt_replace_outside (hlength ▸ h)
  storage _ := rfl
  files files hfiles := ⟨files, hfiles, fun _ _ => rfl⟩

/-- Behind another change, to a register that the footprint names. -/
theorem Confined.write {f : Footprint} (h : Confined f b b') {r : Register} {value : UInt16}
    (hr : f.registers = r.overlapping) :
    Confined f b { b' with
      cpu := { b'.cpu with registers := b'.cpu.registers.write r value } } where
  registers s hs := by
    have hother : s ∉ r.overlapping := hr ▸ hs
    exact (Registers.get_write_of_notMem hother).trans (h.registers s hs)
  flags := h.flags
  calls := h.calls
  allowPcWrite := h.allowPcWrite
  layout := h.layout
  memory := h.memory
  storage := h.storage
  files := h.files

/-- Behind another change, to a flag that the footprint names. -/
theorem Confined.setFlag {f : Footprint} (h : Confined f b b') {flag : Flag} {value : Bool}
    (hflag : flag ∈ f.flags) :
    Confined f b { b' with cpu := { b'.cpu with flags := b'.cpu.flags.set flag value } } where
  registers := h.registers
  flags other hother := by
    have hne : flag ≠ other := fun heq => hother (heq ▸ hflag)
    exact (Flags.get_set_of_ne _ hne value).trans (h.flags other hother)
  calls := h.calls
  allowPcWrite := h.allowPcWrite
  layout := h.layout
  memory := h.memory
  storage := h.storage
  files := h.files

/-- The files change, and none but the one that the footprint names. -/
theorem Confined.of_files {f : Footprint} {name : String} {storage : Storage} {console : Console}
    (hname : f.file = some name)
    (h : ∀ files, b.storage = .table files → ∃ files', storage = .table files' ∧
      ∀ other, other ≠ name → files'.find? other = files.find? other) :
    Confined f b { b with console, storage } where
  registers _ _ := rfl
  flags _ _ := rfl
  calls := rfl
  allowPcWrite := rfl
  layout := rfl
  memory _ _ := rfl
  storage hnone := absurd (hname.symm.trans hnone) (Option.some_ne_none name)
  files files hfiles := by
    obtain ⟨files', hfiles', hothers⟩ := h files hfiles
    refine ⟨files', hfiles', fun other hother => hothers other fun heq => ?_⟩
    exact hother (heq ▸ hname)

/-! ## Services -/

theorem stringLength_of_string {r : Register} {bytes : List UInt8} (h : b.string r = .ok bytes) :
    stringLength b r = bytes.length := by
  unfold stringLength
  rw [h]
  rfl

/-- A string and its zero. -/
theorem confined_of_writeString {f : Footprint} {bytes : List UInt8} {memory : Memory}
    {console : Console} (hlength : f.length = bytes.length + 1)
    (h : b.cpu.memory.writeString f.start bytes = .ok memory) :
    Confined f b { b with console, cpu := { b.cpu with memory } } := by
  obtain ⟨-, rfl⟩ := Memory.writeString_eq_ok_iff.mp h
  refine Confined.of_replace ?_
  rw [List.length_append, List.length_singleton, hlength]

theorem confined_of_load {f : Footprint} {bytes : List UInt8} {memory : Memory}
    {console : Console} (hlength : f.length = bytes.length)
    (h : b.cpu.memory.load f.start bytes = .ok memory) :
    Confined f b { b with console, cpu := { b.cpu with memory } } := by
  cases Memory.eq_replace_of_load h
  exact Confined.of_replace hlength.symm

theorem footprint_file {operation : FileOperation} (h : fileOperation? b = some operation) :
    footprint b .file = fileFootprint b operation := by
  unfold footprint
  rw [h]
  rfl

theorem fileLength_of_read {name : String} {bytes : List UInt8} (hname : fileName b = .ok name)
    (h : b.storage.read name = .ok (some bytes)) : fileLength b = bytes.length := by
  unfold fileLength
  rw [hname]
  dsimp only
  rw [h]
  rfl

/-- A change of the file that the string at `cx` names. -/
theorem confined_of_change {operation : FileOperation} {name : String} {storage : Storage}
    {console : Console} (hoperation : fileOperation? b = some operation)
    (hname : fileName b = .ok name) (hread : operation ≠ .read)
    (h : ∀ files, b.storage = .table files → ∃ files', storage = .table files' ∧
      ∀ other, other ≠ name → files'.find? other = files.find? other) :
    Confined (footprint b .file) b { b with console, storage } := by
  refine Confined.of_files ?_ h
  rw [footprint_file hoperation]
  cases operation with
  | read => exact absurd rfl hread
  | save | append | delete =>
    unfold fileFootprint
    rw [hname]
    rfl

/-- An interrupt that is handled changes nothing outside of its footprint. -/
theorem Handled.confined (h : Handled b i b') : Confined (footprint b i) b b' := by
  have hunchanged : ∀ {f : Footprint} {console : Console}, Confined f b { b with console } :=
    .of_consoleOnly ⟨rfl, rfl⟩
  cases h with
  | @stringInput bytes memory console hline hwrite =>
    have hlength : (footprint b .stringInput).length = bytes.length + 1 := by
      unfold footprint lineLength
      rw [hline]
      rfl
    have hmemory : Confined (footprint b .stringInput) b
        { b with console, cpu := { b.cpu with memory } } := confined_of_writeString hlength hwrite
    exact hmemory.write rfl
  | @numberInput value console hline =>
    have hconsole : Confined (footprint b .numberInput) b { b with console } := hunchanged
    exact hconsole.write rfl
  | @stringConcat first second memory console hfirst hsecond hwrite =>
    have hlength : (footprint b .stringConcat).length = (first ++ second).length + 1 := by
      unfold footprint
      rw [stringLength_of_string hfirst, stringLength_of_string hsecond, List.length_append]
    exact confined_of_writeString hlength hwrite
  | stringCopy hbytes hwrite =>
    refine confined_of_writeString ?_ hwrite
    unfold footprint
    rw [stringLength_of_string hbytes]
  | memoryCopy hbytes hwrite =>
    exact confined_of_load (Memory.length_of_slice hbytes).symm hwrite
  | @fileRead name bytes memory console hoperation hname hread hwrite =>
    rw [footprint_file hoperation]
    have hmemory : Confined (fileFootprint b .read) b
        { b with console, cpu := { b.cpu with memory } } :=
      confined_of_load (fileLength_of_read hname hread) hwrite
    have hregister : Confined (fileFootprint b .read) b { b with
        console
        cpu := { b.cpu with
          memory
          registers := b.cpu.registers.write .dp bytes.length.toUInt16 } } :=
      hmemory.write rfl
    exact hregister.setFlag List.mem_cons_self
  | @fileMissing name console hoperation hname hread =>
    rw [footprint_file hoperation]
    have hconsole : Confined (fileFootprint b .read) b { b with console } := hunchanged
    have hregister : Confined (fileFootprint b .read) b { b with
        console
        cpu := { b.cpu with registers := b.cpu.registers.write .dp 0 } } :=
      hconsole.write rfl
    exact hregister.setFlag List.mem_cons_self
  | fileSaved hoperation hname hbytes hsave =>
    refine confined_of_change hoperation hname FileOperation.noConfusion fun files hfiles => ?_
    rw [hfiles] at hsave
    cases hsave
    exact ⟨_, rfl, fun other hother => FileTable.find?_save_of_ne files hother _⟩
  | fileAppended hoperation hname hbytes happend =>
    refine confined_of_change hoperation hname FileOperation.noConfusion fun files hfiles => ?_
    rw [hfiles] at happend
    cases happend
    exact ⟨_, rfl, fun other hother => FileTable.find?_append_of_ne files hother _⟩
  | fileDeleted hoperation hname hdelete =>
    refine confined_of_change hoperation hname FileOperation.noConfusion fun files hfiles => ?_
    rw [hfiles] at hdelete
    cases hdelete
    refine ⟨_, rfl, fun other hother => ?_⟩
    rw [FileTable.find?_delete, if_neg hother]
  | printed hi => exact hunchanged

/-! ## Unknown numbers -/

theorem of_reportInvalid {cause : Cause} {outcome : Outcome}
    (h : reportInvalid cause b = .ok outcome b') :
    outcome = .invalid (.of cause) ∧ ConsoleOnly b b' ∧
      b'.console.shown = .output (cause.message ++ "\n") :: b.console.shown ∧
        b'.console.pending = b.console.pending := by
  have honly := (leaves_reportInvalid cause).ok h
  obtain ⟨_, b₁, hlog, h⟩ := bind_eq_ok.mp h
  obtain ⟨console, hpending, hshown, rfl⟩ := of_log hlog
  obtain ⟨_, b₂, hprint, h⟩ := bind_eq_ok.mp h
  obtain ⟨console', hwrite, rfl⟩ := of_onConsole hprint
  cases h
  refine ⟨rfl, honly, ?_, ?_⟩
  · rw [← hshown]
    exact Console.shown_of_write hwrite
  · rw [← hpending]
    exact Console.pending_of_write hwrite

/-- The message for an unknown number is one line. -/
theorem newline_notMem_message {cause : Cause} {code : UInt8}
    (h : cause = .invalidInterrupt code ∨ cause = .invalidFileOperation code) :
    '\n' ∉ cause.message.toList := by
  have hcode : '\n' ∉ (toString code.toNat).toList := fun hmem =>
    absurd (Text.isDigit_of_mem_toString hmem) (by decide)
  rcases h with rfl | rfl <;>
  · unfold Cause.message
    rw [String.toList_append, List.mem_append, not_or]
    exact ⟨by decide, hcode⟩

/-- A number that is unknown is reported in one line, and that is all. -/
theorem reported_of_reportInvalid {cause : Cause} {code : UInt8} {e : Error}
    (hcause : cause = .invalidInterrupt code ∨ cause = .invalidFileOperation code)
    (h : reportInvalid cause b = .ok (.invalid e) b') :
    ConsoleOnly b b' ∧ Console.ShowsLine e.message b.console b'.console := by
  obtain ⟨he, honly, hshown, hpending⟩ := of_reportInvalid h
  cases he
  exact ⟨honly, hshown, newline_notMem_message hcause, hpending⟩

theorem reported_of_serve {e : Error} (h : serve i b = .ok (.invalid e) b') :
    ConsoleOnly b b' ∧ Console.ShowsLine e.message b.console b'.console := by
  cases i with
  | debug => cases h
  | file =>
    obtain ⟨code, b₁, hcode, h⟩ := bind_eq_ok.mp h
    cases hcode
    cases hoperation : FileOperation.ofCode? (b.cpu.reg .bl).toUInt8.toNat with
    | none =>
      rw [hoperation] at h
      exact reported_of_reportInvalid (.inr rfl) h
    | some operation =>
      rw [hoperation] at h
      obtain ⟨bytes, b₂, hbytes, h⟩ := bind_eq_ok.mp h
      obtain ⟨_, b₃, hlog, h⟩ := bind_eq_ok.mp h
      cases operation with
      | _ => cases (of_then_outcome h).2
  | _ => cases (of_then_outcome h).2

theorem reported_of_dispatch {e : Error} (h : dispatch b = .ok (.invalid e) b') :
    ConsoleOnly b b' ∧ Console.ShowsLine e.message b.console b'.console := by
  obtain ⟨al, b₁, hal, h⟩ := bind_eq_ok.mp h
  cases hal
  cases hi : Interrupt.ofCode? (b.cpu.reg .al).toUInt8.toNat with
  | none =>
    rw [hi] at h
    exact reported_of_reportInvalid (.inl rfl) h
  | some i =>
    rw [hi] at h
    obtain ⟨_, b₂, hlog, h⟩ := bind_eq_ok.mp h
    obtain ⟨console, hpending, hshown, rfl⟩ := of_log hlog
    obtain ⟨honly, hline⟩ := reported_of_serve h
    refine ⟨⟨honly.cpu, honly.storage⟩, ⟨?_, hline.single, hline.pending.trans hpending⟩⟩
    rw [← hshown]
    exact hline.shown

/-- An interrupt on a machine whose layout a configuration gives. One that fails has used the
console and nothing else. So has one whose number is unknown, and it has shown one line. One that
is handled has served the interrupt that was asked for, and changed nothing outside of its
footprint. -/
theorem dispatch_framed {config : Config} (hlayout : config.layout = .ok b.cpu.layout) :
    (∀ e b', dispatch b = .error e b' → b'.cpu = b.cpu ∧ b'.storage = b.storage) ∧
      (∀ e b', dispatch b = .ok (.invalid e) b' → b'.cpu = b.cpu ∧ b'.storage = b.storage ∧
        Console.ShowsLine e.message b.console b'.console) ∧
      ∀ b', dispatch b = .ok .handled b' →
        ∃ i, interrupt? b = some i ∧ Confined (footprint b i) b b' := by
  refine ⟨fun e b' h => ?_, fun e b' h => ?_, fun b' h => ?_⟩
  · have honly := (leaves_dispatch.error h).consoleOnly (Config.size_of_layout hlayout).2.2
    exact ⟨honly.cpu, honly.storage⟩
  · obtain ⟨honly, hline⟩ := reported_of_dispatch h
    exact ⟨honly.cpu, honly.storage, hline⟩
  · obtain ⟨i, hi, hhandled⟩ := handled_dispatch h
    exact ⟨i, hi, hhandled.confined⟩

/-- A processor that asks for a line at address 3, while two lines are typed of which the first has
a character without a byte. -/
def twoLinesTyped : Bench where
  cpu :=
    { Cpu.powerOn ⟨16, 8, 12⟩ false with
      registers := (Registers.zeroed.write .al 1).setSlot .di 3 }
  console := { pending := ["\u2603", "hi"] }
  storage := .table {}

theorem dispatch_framed_twoLinesTyped :
    ({ memorySize := 16 } : Config).layout = .ok twoLinesTyped.cpu.layout ∧
      ∃ b', dispatch twoLinesTyped = .ok .handled b' ∧
        Confined { registers := [.dp], start := 3, length := 3 } twoLinesTyped b' := by
  have hlayout : ({ memorySize := 16 } : Config).layout = .ok twoLinesTyped.cpu.layout := rfl
  have hhandled : dispatch twoLinesTyped = .ok .handled (dispatch.finalState twoLinesTyped) :=
    eq_ok_of_outcome (by decide +kernel)
  obtain ⟨i, hi, hconfined⟩ := (dispatch_framed hlayout).2.2 _ hhandled
  have hservice : interrupt? twoLinesTyped = some .stringInput := by decide +kernel
  cases hi.symm.trans hservice
  have hfootprint : footprint twoLinesTyped .stringInput =
      { registers := [.dp], start := 3, length := 3 } := by decide +kernel
  rw [hfootprint] at hconfined
  exact ⟨hlayout, _, hhandled, hconfined⟩

end Service

end TeachingCpu
