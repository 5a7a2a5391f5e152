import TeachingCpu.Proofs.Machine.Calls
import TeachingCpu.Proofs.Machine.Fetched

/-!
# What a fetch leaves behind

A fetch counts `pc` up and does nothing else, whether it succeeds or fails (`Counts`). A machine
that counts on or fetches an operand for its caller is not stopped by a failure, so a machine that
could not fetch a whole operand goes on with `pc` in the middle of it. The only failure that leaves
the machine as it was is the one with no address behind `pc` (`sparedOrFaulted_nextOperand_iff`).
-/

namespace TeachingCpu

open Attempt

namespace Machine

variable {m m' : Machine} {a b n : Nat}

/-! ## Counting -/

@[simp] theorem status_countUp (m : Machine) (n : Nat) : (m.countUp n).status = m.status := by
  obtain ⟨pc, observed, -, heq⟩ := advances_countUp m n
  rw [heq]
  rfl

/-- `pc` is counted up some times and does not run past the last address. -/
structure Counts (n : Nat) (m m' : Machine) : Prop where
  eq : m' = m.countUp n
  inside : m.cpu.pc.toNat + n ≤ 65535

/-- `pc` is counted up a number of times at most. -/
def CountsUpTo (n : Nat) (m m' : Machine) : Prop := ∃ k ≤ n, Counts k m m'

theorem counts_zero (m : Machine) : Counts 0 m m :=
  ⟨rfl, Nat.le_of_lt_succ m.cpu.pc.toNat_lt⟩

namespace Counts

theorem toNat_pc (h : Counts n m m') : m'.cpu.pc.toNat = m.cpu.pc.toNat + n := by
  rw [h.eq]
  exact toNat_pc_countUp h.inside

theorem pc_one (h : Counts 1 m m') : m'.cpu.pc = m.cpu.pc + 1 := by
  rw [h.eq]
  exact pc_atPc _ _ _

theorem trans {m₁ m₂ m₃ : Machine} (h : Counts a m₁ m₂) (h' : Counts b m₂ m₃) :
    Counts (a + b) m₁ m₃ := by
  have hinside := h'.inside
  rw [h.toNat_pc] at hinside
  refine ⟨?_, by omega⟩
  rw [h'.eq, h.eq, countUp_add]

theorem split (h : Counts (a + b) m m') : ∃ m₁, Counts a m m₁ ∧ Counts b m₁ m' := by
  have hinside := h.inside
  have hfirst : Counts a m (m.countUp a) := ⟨rfl, by omega⟩
  refine ⟨_, hfirst, ?_, ?_⟩
  · rw [h.eq, countUp_add]
  · rw [hfirst.toNat_pc]
    omega

theorem rom (h : Counts n m m') : m'.rom = m.rom := by
  rw [h.eq]
  exact rom_countUp m n

theorem status (h : Counts n m m') : m'.status = m.status := by
  rw [h.eq]
  exact status_countUp m n

/-- Only a machine whose `pc` was not counted up at all is as it was. -/
theorem eq_iff (h : Counts n m m') : m' = m ↔ n = 0 := by
  constructor
  · intro hsame
    have hpc := h.toNat_pc
    rw [hsame] at hpc
    omega
  · rintro rfl
    exact h.eq

theorem upTo (h : Counts a m m') (hle : a ≤ b) : CountsUpTo b m m' := ⟨a, hle, h⟩

end Counts

variable {α β : Type}

/-- Counting in two parts. The first is done where the second fails. -/
theorem counts_bind {x : Attempt Machine α} {f : α → Attempt Machine β}
    (hx : Leaves (Counts a) (CountsUpTo a) x) (hf : ∀ r, Leaves (Counts b) (CountsUpTo b) (f r)) :
    Leaves (Counts (a + b)) (CountsUpTo (a + b)) (x >>= f) := by
  refine leaves_bind hx hf (fun _ _ _ => Counts.trans) ?_ ?_
  · rintro m m' ⟨k, hk, h⟩
    exact h.upTo (by omega)
  · rintro m₁ m₂ m₃ h ⟨k, hk, h'⟩
    exact (h.trans h').upTo (by omega)

theorem counts_of_reads {x : Attempt Machine α} (h : Reads x) :
    Leaves (Counts 0) (CountsUpTo 0) x := by
  refine h.imp ?_ ?_
  · rintro m m' rfl
    exact counts_zero m
  · rintro m m' rfl
    exact (counts_zero m).upTo (Nat.le_refl 0)

theorem counts_advance : Leaves (Counts 1) (CountsUpTo 1) advance := by
  constructor
  · intro m m' pc h
    rw [advance_eq] at h
    split at h
    · cases h
    · next hlast =>
      cases h
      have hne : m.cpu.pc.toNat ≠ 65535 := fun heq => hlast (UInt16.toNat_inj.mp heq)
      have hlt := m.cpu.pc.toNat_lt
      exact ⟨rfl, by omega⟩
  · intro m m' e h
    rw [advance_eq] at h
    split at h
    · cases h
      exact (counts_zero m).upTo (Nat.zero_le 1)
    · cases h

theorem counts_fetchNextByte : Leaves (Counts 1) (CountsUpTo 1) (advance >>= fetchByte) :=
  counts_bind counts_advance fun pc => counts_of_reads (reads_fetchByte pc)

theorem counts_fetchOperand : Leaves (Counts 2) (CountsUpTo 2) fetchOperand := by
  rw [fetchOperand_eq]
  refine counts_bind (b := 1) counts_fetchNextByte fun tag => ?_
  refine counts_bind (b := 0) counts_fetchNextByte fun value => counts_of_reads ?_
  split
  · exact leaves_pure _
  · exact leaves_fail _

theorem counts_fetchOperands (n : Nat) :
    Leaves (Counts (2 * n)) (CountsUpTo (2 * n)) (fetchOperands n) := by
  induction n with
  | zero => exact counts_of_reads (leaves_pure [])
  | succ n ih =>
    rw [Nat.mul_succ, Nat.add_comm]
    refine counts_bind counts_fetchOperand fun operand => ?_
    exact counts_bind ih fun rest => counts_of_reads (leaves_pure (operand :: rest))

/-! ## Primitive steps -/

theorem advance_eq_ok {pc : UInt16} :
    advance m = .ok pc m' ↔ Counts 1 m m' ∧ pc = m'.cpu.pc := by
  constructor
  · intro h
    have hcounts := counts_advance.ok h
    have hinside := hcounts.inside
    rw [advance_of_lt (by omega)] at h
    cases h
    exact ⟨hcounts, rfl⟩
  · rintro ⟨h, rfl⟩
    have hinside := h.inside
    rw [advance_of_lt (by omega), h.eq]

theorem advance_eq_error {e : Error} :
    advance m = .error e m' ↔
      m.cpu.pc.toNat = 65535 ∧ e = .of .programCounterOverrun ∧ m' = m := by
  have hlast : m.cpu.pc.toNat = (0xffff : UInt16).toNat ↔ m.cpu.pc = 0xffff := UInt16.toNat_inj
  rw [advance_eq]
  refine Iff.trans ?_ (and_congr_left' hlast.symm)
  by_cases h : m.cpu.pc = 0xffff
  · rw [if_pos h]
    simp [h, eq_comm]
  · simp [h]

theorem fetchInstruction_eq_ok {i : Instruction} :
    fetchInstruction m = .ok i m' ↔ m.rom[m.cpu.pc.toNat]? = some i.opcode.code ∧
      ∃ m₁, fetchOperands i.opcode.arity m = .ok i.operands m₁ ∧ Counts 1 m₁ m' := by
  unfold fetchInstruction
  rw [get_bind_apply, bind_eq_ok]
  constructor
  · rintro ⟨code, m₁, hbyte, h⟩
    obtain ⟨hcode, rfl⟩ := fetchByte_eq_ok.mp hbyte
    cases hopcode : Opcode.ofCode? code with
    | none =>
      simp only [hopcode] at h
      cases h
    | some opcode =>
      simp only [hopcode] at h
      obtain ⟨operands, m₂, hoperands, hlast⟩ := bind_eq_ok.mp h
      obtain ⟨pc, m₃, hadvance, hpure⟩ := bind_eq_ok.mp hlast
      cases hpure
      obtain rfl := Opcode.code_of_ofCode? hopcode
      exact ⟨hcode, m₂, hoperands, (advance_eq_ok.mp hadvance).1⟩
  · rintro ⟨hcode, m₁, hoperands, hcounts⟩
    refine ⟨_, m, fetchByte_eq_ok.mpr ⟨hcode, rfl⟩, ?_⟩
    simp only [Opcode.ofCode?_code]
    rw [bind_of_ok hoperands, bind_of_ok (advance_eq_ok.mpr ⟨hcounts, rfl⟩)]
    rfl

/-- `pc` is counted up once for each byte of an instruction. -/
theorem counts_fetchInstruction {i : Instruction} (h : fetchInstruction m = .ok i m') :
    Counts i.opcode.length m m' := by
  obtain ⟨-, m₁, hoperands, hlast⟩ := fetchInstruction_eq_ok.mp h
  have hcounts := ((counts_fetchOperands _).ok hoperands).trans hlast
  rw [Nat.add_comm] at hcounts
  exact hcounts

/-- A fetch that fails does so on the bytes of an instruction, or there is no opcode to begin
with. -/
theorem fetchInstruction_error {e : Error} (h : fetchInstruction m = .error e m') :
    (∃ opcode : Opcode, m.rom[m.cpu.pc.toNat]? = some opcode.code ∧
        ∃ k < opcode.length, Counts k m m') ∨
      (∀ opcode : Opcode, m.rom[m.cpu.pc.toNat]? ≠ some opcode.code) ∧ m' = m := by
  unfold fetchInstruction at h
  rw [get_bind_apply] at h
  rcases bind_eq_error.mp h with hbyte | ⟨code, m₁, hbyte, hbehind⟩
  · obtain ⟨hoff, -, rfl⟩ := fetchByte_eq_error.mp hbyte
    refine .inr ⟨fun opcode => ?_, rfl⟩
    rw [Array.getElem?_eq_none hoff]
    nofun
  obtain ⟨hcode, rfl⟩ := fetchByte_eq_ok.mp hbyte
  cases hopcode : Opcode.ofCode? code with
  | none =>
    simp only [hopcode] at hbehind
    cases hbehind
    refine .inr ⟨fun opcode hsame => ?_, rfl⟩
    obtain rfl : code = opcode.code := Option.some.inj (hcode.symm.trans hsame)
    rw [Opcode.ofCode?_code] at hopcode
    cases hopcode
  | some opcode =>
    simp only [hopcode] at hbehind
    obtain rfl := Opcode.code_of_ofCode? hopcode
    refine .inl ⟨opcode, hcode, ?_⟩
    have hlength : opcode.length = 1 + 2 * opcode.arity := rfl
    rcases bind_eq_error.mp hbehind with hoperands | ⟨operands, m₂, hoperands, hlast⟩
    · obtain ⟨k, hk, hcounts⟩ := (counts_fetchOperands _).error hoperands
      exact ⟨k, by omega, hcounts⟩
    · have hcounts := (counts_fetchOperands _).ok hoperands
      rcases bind_eq_error.mp hlast with hadvance | ⟨_, _, -, hpure⟩
      · obtain ⟨-, -, rfl⟩ := advance_eq_error.mp hadvance
        exact ⟨_, by omega, hcounts⟩
      · cases hpure

/-! ## Operands that cannot be fetched -/

/-- The failures of the fetch of an operand, and what they leave. -/
inductive OperandFails (m : Machine) : Error → Machine → Prop where
  /-- There is no address behind `pc`. -/
  | noTagAddress (hpc : m.cpu.pc.toNat = 65535) :
    OperandFails m (.of .programCounterOverrun) m
  /-- The code ends with the byte at `pc`, or in front of it. -/
  | noTag {m' : Machine} (h : Counts 1 m m') (hrom : m.rom.size ≤ m.cpu.pc.toNat + 1) :
    OperandFails m (.of (.codeAddressOutside (m.cpu.pc + 1) m.rom.size)) m'
  /-- The tag has the last address. -/
  | noValueAddress {m' : Machine} (hpc : m.cpu.pc.toNat = 65534) (h : Counts 1 m m')
    (hrom : m.cpu.pc.toNat + 1 < m.rom.size) :
    OperandFails m (.of .programCounterOverrun) m'
  /-- The code ends with the tag. -/
  | noValue {m' : Machine} (h : Counts 2 m m') (hrom : m.rom.size = m.cpu.pc.toNat + 2) :
    OperandFails m (.of (.codeAddressOutside (m.cpu.pc + 2) m.rom.size)) m'
  /-- Both bytes are there, and the first is no tag. -/
  | unknownTag {m' : Machine} {tag : UInt8} (h : Counts 2 m m')
    (hrom : m.cpu.pc.toNat + 2 < m.rom.size) (htag : m.rom[m.cpu.pc.toNat + 1]? = some tag)
    (hmode : Mode.ofTag? tag = none) :
    OperandFails m (.of (.unknownModeTag tag)) m'

theorem fetchNextByte_eq_ok {b : UInt8} :
    (advance >>= fetchByte) m = .ok b m' ↔
      Counts 1 m m' ∧ m.rom[m.cpu.pc.toNat + 1]? = some b := by
  constructor
  · intro h
    obtain ⟨pc, m₁, hadvance, hbyte⟩ := bind_eq_ok.mp h
    obtain ⟨hcounts, rfl⟩ := advance_eq_ok.mp hadvance
    obtain ⟨hb, rfl⟩ := fetchByte_eq_ok.mp hbyte
    rw [hcounts.rom, hcounts.toNat_pc] at hb
    exact ⟨hcounts, hb⟩
  · rintro ⟨hcounts, hb⟩
    rw [← hcounts.rom, ← hcounts.toNat_pc] at hb
    exact bind_eq_ok.mpr ⟨_, m', advance_eq_ok.mpr ⟨hcounts, rfl⟩, fetchByte_eq_ok.mpr ⟨hb, rfl⟩⟩

theorem fetchNextByte_eq_error {e : Error} :
    (advance >>= fetchByte) m = .error e m' ↔
      m.cpu.pc.toNat = 65535 ∧ e = .of .programCounterOverrun ∧ m' = m ∨
        Counts 1 m m' ∧ m.rom.size ≤ m.cpu.pc.toNat + 1 ∧
          e = .of (.codeAddressOutside (m.cpu.pc + 1) m.rom.size) := by
  rw [bind_eq_error, advance_eq_error]
  refine or_congr_right ⟨?_, ?_⟩
  · rintro ⟨pc, m₁, hadvance, hbyte⟩
    obtain ⟨hcounts, rfl⟩ := advance_eq_ok.mp hadvance
    obtain ⟨hrom, rfl, rfl⟩ := fetchByte_eq_error.mp hbyte
    rw [hcounts.toNat_pc, hcounts.rom] at hrom
    refine ⟨hcounts, hrom, ?_⟩
    rw [hcounts.rom, hcounts.pc_one]
  · rintro ⟨hcounts, hrom, rfl⟩
    rw [← hcounts.toNat_pc, ← hcounts.rom] at hrom
    refine ⟨_, m', advance_eq_ok.mpr ⟨hcounts, rfl⟩, fetchByte_eq_error.mpr ⟨hrom, ?_, rfl⟩⟩
    rw [hcounts.rom, hcounts.pc_one]

/-- Behind a tag that is there the value is fetched, and then the tag is read. -/
theorem valueFetch_eq_error {tag : UInt8} {e : Error} :
    (do let value ← advance >>= fetchByte
        match Mode.ofTag? tag with
        | some mode => return (⟨mode, value⟩ : Operand)
        | none => Attempt.fail (.unknownModeTag tag)) m = .error e m' ↔
      (advance >>= fetchByte) m = .error e m' ∨
        Counts 1 m m' ∧ m.cpu.pc.toNat + 1 < m.rom.size ∧ Mode.ofTag? tag = none ∧
          e = .of (.unknownModeTag tag) := by
  rw [bind_eq_error]
  refine or_congr_right ⟨?_, ?_⟩
  · rintro ⟨value, m₁, hvalue, h⟩
    obtain ⟨hcounts, hb⟩ := fetchNextByte_eq_ok.mp hvalue
    cases hmode : Mode.ofTag? tag with
    | some mode =>
      simp only [hmode] at h
      cases h
    | none =>
      simp only [hmode] at h
      cases h
      exact ⟨hcounts, (Array.getElem?_eq_some_iff.mp hb).1, rfl, rfl⟩
  · rintro ⟨hcounts, hrom, hmode, rfl⟩
    have hb := Array.getElem?_eq_getElem hrom
    refine ⟨_, m', fetchNextByte_eq_ok.mpr ⟨hcounts, hb⟩, ?_⟩
    rw [hmode]
    rfl

theorem fetchOperand_eq_error {e : Error} :
    fetchOperand m = .error e m' ↔ OperandFails m e m' := by
  rw [fetchOperand_eq, bind_eq_error, fetchNextByte_eq_error]
  constructor
  · rintro ((⟨hpc, rfl, rfl⟩ | ⟨hcounts, hrom, rfl⟩) | ⟨tag, m₁, htag, h⟩)
    · exact .noTagAddress hpc
    · exact .noTag hcounts hrom
    obtain ⟨hcounts, htag⟩ := fetchNextByte_eq_ok.mp htag
    have hin := (Array.getElem?_eq_some_iff.mp htag).1
    have hvalue := valueFetch_eq_error.mp h
    rw [fetchNextByte_eq_error, hcounts.rom, hcounts.toNat_pc, hcounts.pc_one] at hvalue
    rcases hvalue with (⟨hpc, rfl, rfl⟩ | ⟨hcounts', hrom, rfl⟩) | ⟨hcounts', hrom, hmode, rfl⟩
    · exact .noValueAddress (by omega) hcounts hin
    · rw [UInt16.add_assoc]
      exact .noValue (hcounts.trans hcounts') (by omega)
    · exact .unknownTag (hcounts.trans hcounts') hrom htag hmode
  · intro h
    cases h with
    | noTagAddress hpc => exact .inl (.inl ⟨hpc, rfl, rfl⟩)
    | noTag hcounts hrom => exact .inl (.inr ⟨hcounts, hrom, rfl⟩)
    | noValueAddress hpc hcounts hrom =>
      have htag := Array.getElem?_eq_getElem hrom
      refine .inr ⟨_, m', fetchNextByte_eq_ok.mpr ⟨hcounts, htag⟩, ?_⟩
      refine bind_of_error (fetchNextByte_eq_error.mpr (.inl ⟨?_, rfl, rfl⟩))
      rw [hcounts.toNat_pc, hpc]
    | noValue hcounts hrom =>
      obtain ⟨m₁, hfirst, hsecond⟩ := Counts.split (a := 1) (b := 1) hcounts
      have hin : m.cpu.pc.toNat + 1 < m.rom.size := by omega
      have htag := Array.getElem?_eq_getElem hin
      refine .inr ⟨_, m₁, fetchNextByte_eq_ok.mpr ⟨hfirst, htag⟩, ?_⟩
      refine bind_of_error (fetchNextByte_eq_error.mpr (.inr ⟨hsecond, ?_, ?_⟩))
      · rw [hfirst.rom, hfirst.toNat_pc]
        omega
      · rw [hfirst.rom, hfirst.pc_one, UInt16.add_assoc]
        rfl
    | unknownTag hcounts hrom htag hmode =>
      obtain ⟨m₁, hfirst, hsecond⟩ := Counts.split (a := 1) (b := 1) hcounts
      refine .inr ⟨_, m₁, fetchNextByte_eq_ok.mpr ⟨hfirst, htag⟩, ?_⟩
      refine valueFetch_eq_error.mpr (.inr ⟨hsecond, ?_, hmode, rfl⟩)
      rw [hfirst.rom, hfirst.toNat_pc]
      omega

/-- The fetch of an operand gets at most to its second byte. -/
theorem OperandFails.countsUpTo {e : Error} (h : OperandFails m e m') : CountsUpTo 2 m m' :=
  counts_fetchOperand.error (fetchOperand_eq_error.mpr h)

/-- Only the failure that comes first leaves the machine as it was. -/
theorem OperandFails.eq_iff {e : Error} (h : OperandFails m e m') :
    m' = m ↔ m.cpu.pc.toNat = 65535 := by
  cases h with
  | noTagAddress hpc => simp [hpc]
  | noTag hcounts | noValueAddress _ hcounts | noValue hcounts | unknownTag hcounts =>
    have hinside := hcounts.inside
    rw [hcounts.eq_iff]
    omega

/-! ## Failures outside of instructions -/

/-- Behind a failure the machine is as it was, or it is stopped and keeps a record of it. -/
def SparedOrFaulted (m m' : Machine) : Prop :=
  m' = m ∨ m'.status = .faulted ∧ m'.statusCode ≠ 0 ∧ m'.output ≠ []

/-- A machine that cannot count on is as it was. One that cannot fetch an operand can go on as
before, but it is as it was only if `pc` had no address behind it. -/
theorem sparedOrFaulted_nextOperand_iff (hrunnable : m.status.isRunnable = true) :
    (∀ e m', step m = .error e m' ↔
        m.cpu.pc.toNat = 65535 ∧ e = .of .programCounterOverrun ∧ m' = m) ∧
      (∀ e m', nextOperand m = .error e m' ↔ OperandFails m e m') ∧
      ∀ e m', nextOperand m = .error e m' →
        m'.status = m.status ∧ (SparedOrFaulted m m' ↔ m.cpu.pc.toNat = 65535) := by
  have hstep : step m = advance m := (ensureRunnable_bind advance m).trans (if_pos hrunnable)
  have hoperand : nextOperand m = fetchOperand m :=
    (ensureRunnable_bind fetchOperand m).trans (if_pos hrunnable)
  rw [hstep, hoperand]
  refine ⟨fun e m' => advance_eq_error, fun e m' => fetchOperand_eq_error, ?_⟩
  intro e m' h
  have hfails := fetchOperand_eq_error.mp h
  obtain ⟨n, -, hcounts⟩ := hfails.countsUpTo
  refine ⟨hcounts.status, ?_⟩
  rw [← hfails.eq_iff]
  refine ⟨?_, .inl⟩
  rintro (hsame | ⟨hfaulted, -⟩)
  · exact hsame
  · rw [hcounts.status] at hfaulted
    rw [hfaulted] at hrunnable
    cases hrunnable

/-- A program of one instruction without operands: `nop`. -/
def onlyNop : Image where
  rom := [0x00]
  memory := []
  width := .bits16
  entry := 0

/-- The machine before it. -/
def beforeNop : Machine := (load onlyNop).finalState smallest

/-- Asked for an operand, the machine before the `nop` fails and can still go on. -/
theorem sparedOrFaulted_nextOperand_iff_beforeNop :
    beforeNop.status.isRunnable = true ∧
      OperandFails beforeNop (.of (.codeAddressOutside 1 1)) (beforeNop.countUp 1) ∧
      (beforeNop.countUp 1).status = .loaded := by
  have hrunnable : beforeNop.status.isRunnable = true := rfl
  have hoperand : nextOperand beforeNop = .error (.of (.codeAddressOutside 1 1)) _ := rfl
  obtain ⟨-, hfails, hleft⟩ := sparedOrFaulted_nextOperand_iff hrunnable
  exact ⟨hrunnable, (hfails _ _).mp hoperand, (hleft _ _ hoperand).1⟩

/-- It is not stopped, and its `pc` is on an address without code. -/
theorem not_sparedOrFaulted_beforeNop :
    Reachable smallest.config beforeNop ∧ beforeNop.status = .loaded ∧ beforeNop.cpu.pc = 0 ∧
      ∃ m', nextOperand beforeNop = .error (.of (.codeAddressOutside 1 1)) m' ∧
        m'.status = .loaded ∧ m'.output = [] ∧ m'.cpu.pc = 1 ∧ ¬ SparedOrFaulted beforeNop m' := by
  have hload : serve smallest (.load onlyNop) = some (.ok .done, beforeNop) := rfl
  refine ⟨.serve reachable_smallest hload, rfl, rfl, _, rfl, rfl, rfl, rfl, ?_⟩
  rintro (hsame | ⟨hfaulted, -⟩)
  · have hpc : (1 : UInt16) = 0 := congrArg (fun m => m.cpu.pc) hsame
    exact absurd hpc (by decide)
  · cases hfaulted

end Machine

end TeachingCpu
