import TeachingCpu.Proofs.Cpu.Pairs
import TeachingCpu.Proofs.Service.Copies
import TeachingCpu.Proofs.Text.Latin1

/-!
# Lines that a program asks for

The two services for input read one line after the other and complain about each that they refuse,
up to the first that they accept. Which lines these are is said here without the readers of the
services: a string takes a line whose characters all have a byte, a number takes one that denotes
an integer from -32768 to 65535 (`DenotesNumber`). `dispatch_reads` says for every script what is
read, what is shown, and what the processor holds afterwards.
-/

namespace TeachingCpu

open Attempt

namespace Text

/-! ## Numbers with a sign -/

/-- A text denotes a number: it is read as an integer, or it is a minus sign and such a text. -/
inductive DenotesNumber : String → Int → Prop where
  | positive {text : String} {n : Nat} (h : readInteger? text = some n) : DenotesNumber text n
  | negative {digits : String} {n : Nat} (h : readInteger? digits = some n) :
    DenotesNumber ("-" ++ digits) (-n)

/-- Numbers that a word can stand for, some of them as a two's complement. -/
def IsWord (n : Int) : Prop := -32768 ≤ n ∧ n ≤ 65535

theorem readIntegerChars?_minus (cs : List Char) : readIntegerChars? ('-' :: cs) = none := by
  have hdigit : appendDigit? 10 0 '-' = none := rfl
  unfold readIntegerChars? startsHex readDigits?
  simp [hdigit]

variable {text : String} {digits : List Char} {n : Int}

theorem denotesNumber_minus_iff (h : text.toList = '-' :: digits) :
    DenotesNumber text n ↔ ∃ m : Nat, readIntegerChars? digits = some m ∧ n = -m := by
  constructor
  · rintro (@⟨_, m, hread⟩ | @⟨digits', m, hread⟩)
    · -- the sign is no digit
      rw [readInteger?, h, readIntegerChars?_minus] at hread
      cases hread
    · rw [String.toList_append] at h
      obtain ⟨-, rfl⟩ := List.cons.inj h
      exact ⟨m, hread, rfl⟩
  · rintro ⟨m, hread, rfl⟩
    obtain rfl : text = "-" ++ String.ofList digits := by
      simp [← String.toList_inj, h]
    refine .negative ?_
    rwa [readInteger?, String.toList_ofList]

theorem denotesNumber_iff (h : ∀ digits, text.toList ≠ '-' :: digits) :
    DenotesNumber text n ↔ ∃ m : Nat, readIntegerChars? text.toList = some m ∧ n = m := by
  constructor
  · rintro (@⟨_, m, hread⟩ | @⟨digits', m, hread⟩)
    · exact ⟨m, hread, rfl⟩
    · exact absurd (String.toList_append ..) (h digits'.toList)
  · rintro ⟨m, hread, rfl⟩
    exact .positive hread

/-- A word is read off a number that it stands for. -/
theorem word_eq_some_iff {p : Prop} [Decidable p] {word value : UInt16} (hp : p ↔ IsWord n)
    (hword : (word.toNat : Int) = n % 65536) :
    (if p then some word else none) = some value ↔
      IsWord n ∧ (value.toNat : Int) = n % 65536 := by
  rw [Option.ite_none_right_eq_some, hp, Option.some.injEq, ← hword, Int.natCast_inj,
    UInt16.toNat_inj, eq_comm (a := value)]

end Text

namespace Service

open Text Bench

/-- A number is stored as the word that is congruent to it. -/
theorem readWord?_eq_some_iff {text : String} {value : UInt16} :
    readWord? text = some value ↔
      ∃ n, DenotesNumber text n ∧ IsWord n ∧ (value.toNat : Int) = n % 65536 := by
  unfold readWord?
  split
  · next digits h =>
    simp only [denotesNumber_minus_iff h]
    cases readIntegerChars? digits with
    | none => simp
    | some m =>
      have hrange : m ≤ 0x8000 ↔ IsWord (-m) := by
        unfold IsWord
        omega
      have hword : ((0 - m.toUInt16).toNat : Int) = -m % 65536 := by
        rw [UInt16.toNat_sub, Nat.toUInt16_eq, UInt16.toNat_ofNat', UInt16.toNat_zero]
        omega
      simp only [Option.some.injEq, exists_eq_left', exists_eq_left]
      exact word_eq_some_iff hrange hword
  · next h =>
    simp only [denotesNumber_iff h]
    cases readIntegerChars? text.toList with
    | none => simp
    | some m =>
      have hrange : m ≤ 0xffff ↔ IsWord m := by
        unfold IsWord
        omega
      have hword : (m.toUInt16.toNat : Int) = m % 65536 := by
        rw [Nat.toUInt16_eq, UInt16.toNat_ofNat']
        omega
      simp only [Option.some.injEq, exists_eq_left', exists_eq_left]
      exact word_eq_some_iff hrange hword

/-! ## Which lines are accepted -/

/-- What a service for strings says about a line that it refuses. -/
def RefusesLine (line complaint : String) : Prop :=
  ∃ c, FirstWide line c ∧
    complaint = "`" ++ c.toString ++ "` is not a single-byte character, try again\n"

/-- The number that a line denotes, without the blanks around it. -/
def TypesNumber (line : String) (n : Int) : Prop := DenotesNumber (trim line) n ∧ IsWord n

/-- What the service for numbers says about a line that it refuses. -/
def RefusesNumber (line complaint : String) : Prop :=
  (∀ n, ¬ TypesNumber line n) ∧ complaint = "`" ++ trim line ++ "` is not a number, try again\n"

theorem acceptBytes_eq_ok_iff {line : String} {bytes : List UInt8} :
    acceptBytes line = .ok bytes ↔ SingleByte line ∧ bytes = codePoints line := by
  rw [← toBytes_eq_ok_iff]
  unfold acceptBytes
  cases toBytes line <;> simp

theorem singleByte_iff (line : String) :
    SingleByte line ↔ ∃ bytes, acceptBytes line = .ok bytes := by
  simp [acceptBytes_eq_ok_iff]

theorem acceptBytes_eq_error_iff (line complaint : String) :
    acceptBytes line = .error complaint ↔ RefusesLine line complaint := by
  unfold acceptBytes RefusesLine
  simp only [← toBytes_eq_error_iff]
  cases toBytes line <;> simp [eq_comm]

theorem acceptWord_eq_ok_iff {line : String} {value : UInt16} :
    acceptWord line = .ok value ↔ ∃ n, TypesNumber line n ∧ (value.toNat : Int) = n % 65536 := by
  have hread : acceptWord line = .ok value ↔ readWord? (trim line) = some value := by
    unfold acceptWord
    cases readWord? (trim line) <;> simp
  simp only [hread, readWord?_eq_some_iff, TypesNumber, and_assoc]

theorem typesNumber_iff (line : String) :
    (∃ n, TypesNumber line n) ↔ ∃ value, acceptWord line = .ok value := by
  simp only [acceptWord_eq_ok_iff]
  constructor
  · rintro ⟨n, hn⟩
    refine ⟨.ofNat (n % 65536).toNat, n, hn, ?_⟩
    rw [UInt16.toNat_ofNat']
    omega
  · rintro ⟨_, n, hn, -⟩
    exact ⟨n, hn⟩

theorem acceptWord_eq_error_iff (line complaint : String) :
    acceptWord line = .error complaint ↔ RefusesNumber line complaint := by
  unfold RefusesNumber
  rw [← not_exists, typesNumber_iff]
  unfold acceptWord
  cases readWord? (trim line) <;> simp [eq_comm]

/-! ## What is promised -/

variable {b b' : Bench}

/-- A line and a zero behind it fit into the memory at `di`. -/
def FitsLine (b : Bench) (line : String) : Prop :=
  (b.cpu.reg .di).toNat + line.length ≤ b.cpu.layout.lastAddressable.toNat

/-- A string was stored at `di`, and the address of its zero in `dp`. -/
structure StoresLine (b b' : Bench) (bytes : List UInt8) : Prop where
  inside : b'.cpu.memory.bytesAt (b.cpu.reg .di).toNat (bytes.length + 1) = bytes ++ [0]
  outside : ∀ k, k < (b.cpu.reg .di).toNat ∨ (b.cpu.reg .di).toNat + bytes.length < k →
    b'.cpu.memory.byteAt k = b.cpu.memory.byteAt k
  dp : (b'.cpu.reg .dp).toNat = (b.cpu.reg .di).toNat + bytes.length
  registers : ∀ r, r ≠ .dp → b'.cpu.reg r = b.cpu.reg r
  cpu : b'.cpu =
    { b.cpu with
      memory := b'.cpu.memory
      registers := b'.cpu.registers }
  layout : b'.cpu.layout = b.cpu.layout
  storage : b'.storage = b.storage

/-- A number was stored in `dx`, a negative one as its two's complement, and in its halves. -/
structure StoresNumber (b b' : Bench) (n : Int) : Prop where
  dx : ((b'.cpu.reg .dx).toNat : Int) = n % 65536
  dl : b'.cpu.reg .dl = b'.cpu.reg .dx % 256
  dh : b'.cpu.reg .dh = b'.cpu.reg .dx / 256
  registers : ∀ r, r ∉ [.dx, .dl, .dh] → b'.cpu.reg r = b.cpu.reg r
  cpu : b'.cpu = { b.cpu with registers := b'.cpu.registers }
  storage : b'.storage = b.storage

/-- What becomes of a program that asks for a string. -/
inductive TakesLine (b : Bench) : EStateM.Result Error Bench Outcome → Prop where
  | stored {refused rest : List String} {line : String} {b' : Bench}
    (hfirst : Console.FirstTaken SingleByte b.console.pending refused line rest)
    (hfits : FitsLine b line) (hasked : Console.Asked RefusesLine refused rest b.console b'.console)
    (hstored : StoresLine b b' (codePoints line)) : TakesLine b (.ok .handled b')
  | outside {refused rest : List String} {line : String} {e : Error} {b' : Bench}
    (hfirst : Console.FirstTaken SingleByte b.console.pending refused line rest)
    (houtside : ¬ FitsLine b line)
    (hasked : Console.Asked RefusesLine refused rest b.console b'.console)
    (he : e.kind = .invalidMemoryAddress) (honly : ConsoleOnly b b') : TakesLine b (.error e b')
  | exhausted {e : Error} {b' : Bench} (hnone : ∀ line ∈ b.console.pending, ¬ SingleByte line)
    (hasked : Console.Asked RefusesLine b.console.pending [] b.console b'.console)
    (he : e.kind = .consoleClosed) (honly : ConsoleOnly b b') : TakesLine b (.error e b')

/-- What becomes of a program that asks for a number. -/
inductive TakesNumber (b : Bench) : EStateM.Result Error Bench Outcome → Prop where
  | stored {refused rest : List String} {line : String} {n : Int} {b' : Bench}
    (hfirst : Console.FirstTaken (∃ n, TypesNumber · n) b.console.pending refused line rest)
    (hn : TypesNumber line n)
    (hasked : Console.Asked RefusesNumber refused rest b.console b'.console)
    (hstored : StoresNumber b b' n) : TakesNumber b (.ok .handled b')
  | exhausted {e : Error} {b' : Bench}
    (hnone : ∀ line ∈ b.console.pending, ¬ ∃ n, TypesNumber line n)
    (hasked : Console.Asked RefusesNumber b.console.pending [] b.console b'.console)
    (he : e.kind = .consoleClosed) (honly : ConsoleOnly b b') : TakesNumber b (.error e b')

/-! ## Strings -/

theorem length_codePoints (line : String) : (codePoints line).length = line.length := by
  rw [codePoints, List.length_map, String.length_toList]

/-- A bench where a line was stored. -/
def lineStored (b : Bench) (bytes : List UInt8) : Bench :=
  { b with cpu := { b.cpu with
    memory := b.cpu.memory.replace (b.cpu.reg .di).toNat (bytes ++ [0])
    registers := b.cpu.registers.write .dp ((b.cpu.reg .di).toNat + bytes.length).toUInt16 } }

variable {bytes : List UInt8} {console : Console}

/-- The address behind a line that fits is a word. -/
theorem end_le_of_fits
    (hfits : (b.cpu.reg .di).toNat + bytes.length ≤ b.cpu.layout.lastAddressable.toNat) :
    (b.cpu.reg .di).toNat + bytes.length ≤ 65535 :=
  hfits.trans (Nat.le_of_lt_succ (UInt16.toNat_lt _))

theorem stringInput_of_fits (hask : Console.ask acceptBytes b.console = .ok bytes console)
    (hfits : (b.cpu.reg .di).toNat + bytes.length ≤ b.cpu.layout.lastAddressable.toNat) :
    stringInput b = .ok () (lineStored { b with console } bytes) := by
  have hwrite := onCpu_writeString (b := { b with console }) hfits
  rw [stringInput_eq, bind_of_ok (onConsole_of_ok hask)]
  refine bind_eq_ok.mpr ⟨_, _, rfl, ?_⟩
  rw [bind_of_ok hwrite, onCpu_writeRegister (by decide) (end_le_of_fits hfits)]
  rfl

theorem stringInput_of_not_fits (hask : Console.ask acceptBytes b.console = .ok bytes console)
    (houtside : ¬ (b.cpu.reg .di).toNat + bytes.length ≤ b.cpu.layout.lastAddressable.toNat) :
    ∃ e, stringInput b = .error e { b with console } ∧ e.kind = .invalidMemoryAddress := by
  have hrefuses : Refuses (·.kind = .invalidMemoryAddress)
      (b.cpu.memory.writeString (b.cpu.reg .di).toNat bytes) := Memory.refuses_writeString _ _ _
  obtain ⟨e, hwrite, he⟩ := hrefuses.exists_error fun _ hok =>
    houtside (Memory.writeString_eq_ok_iff.mp hok).1
  have hdi : Bench.reg .di { b with console } = .ok (b.cpu.reg .di) { b with console } := rfl
  refine ⟨e, ?_, he⟩
  rw [stringInput_eq, bind_of_ok (onConsole_of_ok hask), bind_of_ok hdi]
  exact bind_of_error (onCpu_writeMemory_of_error (b := { b with console }) hwrite)

theorem storesLine_lineStored (hsize : 0 < b.cpu.layout.size)
    (hfits : (b.cpu.reg .di).toNat + bytes.length ≤ b.cpu.layout.lastAddressable.toNat)
    (console : Console) : StoresLine b (lineStored { b with console } bytes) bytes := by
  have hlength : (bytes ++ [0]).length = bytes.length + 1 := List.length_append
  have hrange : b.cpu.memory.InRange (b.cpu.reg .di).toNat (bytes ++ [0]).length := by
    rw [hlength]
    exact Memory.inRange_succ_iff.mpr hfits
  constructor
  case inside =>
    rw [← hlength]
    exact Memory.bytesAt_replace hrange (Layout.lastAddressable_lt hsize)
  case outside =>
    intro k hk
    have hbehind : k < (b.cpu.reg .di).toNat ∨
        (b.cpu.reg .di).toNat + (bytes ++ [0]).length ≤ k := by
      rw [hlength]
      omega
    exact Memory.byteAt_replace_outside hbehind
  case dp =>
    unfold Cpu.reg lineStored
    rw [Registers.get_write_self]
    exact Nat.toNat_toUInt16_of_le (end_le_of_fits hfits)
  case registers =>
    intro r hr
    exact Registers.get_write_of_notMem (List.mem_singleton.not.mpr hr)
  all_goals rfl

theorem takesLine_of_interrupt? (hsize : 0 < b.cpu.layout.size) (hconsole : b.console.Unbroken)
    (hi : interrupt? b = some .stringInput) : TakesLine b (dispatch b) := by
  obtain ⟨console, hlogged, hserve⟩ := dispatch_eq_serve hi
  rw [hserve]
  obtain ⟨refused, line, rest, bytes, console', hfirst, hline, hask, hasked⟩ |
      ⟨hnone, console', hask, hasked⟩ :=
    Console.ask_cases singleByte_iff acceptBytes_eq_error_iff hconsole hlogged
  · obtain ⟨-, rfl⟩ := acceptBytes_eq_ok_iff.mp hline
    have hfits : FitsLine b line ↔ (b.cpu.reg .di).toNat + (codePoints line).length ≤
        b.cpu.layout.lastAddressable.toNat := by rw [FitsLine, length_codePoints]
    by_cases hline : FitsLine b line
    · have hrun := stringInput_of_fits (b := { b with console }) hask (hfits.mp hline)
      have hserved : serve .stringInput { b with console } = .ok .handled _ :=
        bind_eq_ok.mpr ⟨(), _, hrun, rfl⟩
      rw [hserved]
      exact .stored hfirst hline hasked (storesLine_lineStored hsize (hfits.mp hline) console')
    · obtain ⟨e, hrun, he⟩ :=
        stringInput_of_not_fits (b := { b with console }) hask (hline ∘ hfits.mpr)
      have hserved : serve .stringInput { b with console } = .error e _ := bind_of_error hrun
      rw [hserved]
      exact .outside hfirst hline hasked he ⟨rfl, rfl⟩
  · -- the question fails, and with it all that stands behind it
    have hserved : serve .stringInput { b with console } = .error _ _ :=
      bind_of_error (bind_of_error (onConsole_of_error (b := { b with console }) hask))
    rw [hserved]
    exact .exhausted hnone hasked rfl ⟨rfl, rfl⟩

/-! ## Numbers -/

theorem storesNumber {n : Int} {value : UInt16} {console : Console}
    (hvalue : (value.toNat : Int) = n % 65536) :
    StoresNumber b
      { b with
        console
        cpu := { b.cpu with registers := b.cpu.registers.write .dx value } } n where
  dx := by
    unfold Cpu.reg
    rwa [Registers.get_write_self]
  dl := by
    unfold Cpu.reg
    rw [Registers.get_write_self, Registers.write_of_halves? rfl,
      Registers.get_setSlot_of_ne _ (by decide), Registers.get_setSlot_self]
    rfl
  dh := by
    unfold Cpu.reg
    rw [Registers.get_write_self, Registers.write_of_halves? rfl, Registers.get_setSlot_self]
    rfl
  registers r hr := Registers.get_write_of_notMem hr
  cpu := rfl
  storage := rfl

theorem takesNumber_of_interrupt? (hconsole : b.console.Unbroken)
    (hi : interrupt? b = some .numberInput) : TakesNumber b (dispatch b) := by
  obtain ⟨console, hlogged, hserve⟩ := dispatch_eq_serve hi
  rw [hserve]
  obtain ⟨refused, line, rest, value, console', hfirst, hline, hask, hasked⟩ |
      ⟨hnone, console', hask, hasked⟩ :=
    Console.ask_cases typesNumber_iff acceptWord_eq_error_iff hconsole hlogged
  · obtain ⟨n, hn, hvalue⟩ := acceptWord_eq_ok_iff.mp hline
    have hread := onConsole_of_ok (b := { b with console }) hask
    have hfits : value.toNat ≤ Register.dx.width.max := Nat.le_of_lt_succ value.toNat_lt
    have hrun : numberInput { b with console } = .ok () _ :=
      bind_eq_ok.mpr ⟨value, _, hread, onCpu_writeRegister (by decide) hfits⟩
    have hserved : serve .numberInput { b with console } = .ok .handled _ :=
      bind_eq_ok.mpr ⟨(), _, hrun, rfl⟩
    rw [hserved, Nat.toUInt16_eq, UInt16.ofNat_toNat]
    exact .stored hfirst hn hasked (storesNumber hvalue)
  · have hserved : serve .numberInput { b with console } = .error _ _ :=
      bind_of_error (bind_of_error (onConsole_of_error (b := { b with console }) hask))
    rw [hserved]
    exact .exhausted hnone hasked rfl ⟨rfl, rfl⟩

/-- For every script, the services for input consume the lines up to the first that they accept. -/
theorem dispatch_reads (hsize : 0 < b.cpu.layout.size) (hconsole : b.console.Unbroken) :
    (interrupt? b = some .stringInput → TakesLine b (dispatch b)) ∧
      (interrupt? b = some .numberInput → TakesNumber b (dispatch b)) :=
  ⟨takesLine_of_interrupt? hsize hconsole, takesNumber_of_interrupt? hconsole⟩

/-- A processor that asks for input at address 3, and the lines that are typed. -/
def asking (code : UInt16) (lines : List String) : Bench where
  cpu :=
    { Cpu.powerOn ⟨16, 8, 12⟩ false with
      registers := (Registers.zeroed.write .al code).setSlot .di 3 }
  console := { pending := lines }
  storage := .table {}

theorem dispatch_reads_asking :
    (∃ b', dispatch (asking 1 ["\u2603", "hi", "there"]) = .ok .handled b' ∧
      Console.Asked RefusesLine ["\u2603"] ["there"]
        (asking 1 ["\u2603", "hi", "there"]).console b'.console ∧
      StoresLine (asking 1 ["\u2603", "hi", "there"]) b' [104, 105]) ∧
    ∃ b', dispatch (asking 2 ["x", " -5 "]) = .ok .handled b' ∧
      Console.Asked RefusesNumber ["x"] [] (asking 2 ["x", " -5 "]).console b'.console ∧
      StoresNumber (asking 2 ["x", " -5 "]) b' (-5) := by
  have hsize : ∀ code lines, 0 < (asking code lines).cpu.layout.size :=
    fun _ _ => Nat.succ_pos 15
  have hconsole : ∀ code lines, (asking code lines).console.Unbroken := fun _ _ => ⟨rfl, rfl⟩
  constructor
  · have hi : interrupt? (asking 1 ["\u2603", "hi", "there"]) = some .stringInput := by
      decide +kernel
    have hline : Console.FirstTaken SingleByte ["\u2603", "hi", "there"] ["\u2603"] "hi"
        ["there"] := by
      have haccepted : SingleByte "hi" := (singleByte_iff _).mpr ⟨[104, 105], by decide +kernel⟩
      have hrefused : ¬ SingleByte "\u2603" := by
        rw [singleByte_iff]
        rintro ⟨bytes, hbytes⟩
        cases hbytes
      exact ⟨rfl, by simpa using hrefused, haccepted⟩
    have hhandled : dispatch (asking 1 ["\u2603", "hi", "there"]) = .ok .handled _ :=
      eq_ok_of_outcome (by decide +kernel)
    have htakes := (dispatch_reads (hsize _ _) (hconsole _ _)).1 hi
    rw [hhandled] at htakes
    cases htakes with
    | stored hfirst _ hasked hstored =>
      obtain ⟨rfl, rfl, rfl⟩ := hfirst.unique hline
      exact ⟨_, hhandled, hasked, hstored⟩
  · have hi : interrupt? (asking 2 ["x", " -5 "]) = some .numberInput := by decide +kernel
    have hline : Console.FirstTaken (∃ n, TypesNumber · n) ["x", " -5 "] ["x"] " -5 " [] := by
      have haccepted : ∃ n, TypesNumber " -5 " n :=
        (typesNumber_iff _).mpr ⟨65531, by decide +kernel⟩
      have hrefused : ¬ ∃ n, TypesNumber "x" n := by
        rw [typesNumber_iff]
        rintro ⟨value, hvalue⟩
        cases hvalue
      exact ⟨rfl, by simpa using hrefused, haccepted⟩
    have hn : ∀ n, TypesNumber " -5 " n → n = -5 := by
      rintro n ⟨htext, -⟩
      obtain ⟨m, hm, rfl⟩ := (denotesNumber_minus_iff rfl).mp htext
      cases hm
      rfl
    have hhandled : dispatch (asking 2 ["x", " -5 "]) = .ok .handled _ :=
      eq_ok_of_outcome (by decide +kernel)
    have htakes := (dispatch_reads (hsize _ _) (hconsole _ _)).2 hi
    rw [hhandled] at htakes
    cases htakes with
    | stored hfirst hnumber hasked hstored =>
      obtain ⟨rfl, rfl, rfl⟩ := hfirst.unique hline
      obtain rfl := hn _ hnumber
      exact ⟨_, hhandled, hasked, hstored⟩

end Service

end TeachingCpu
