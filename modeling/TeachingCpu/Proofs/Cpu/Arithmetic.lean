import TeachingCpu.Proofs.Cpu.Compare
import TeachingCpu.Proofs.Cpu.Stack
import TeachingCpu.Proofs.Image.Codec

/-!
# Results of the arithmetic unit

For each instruction on numbers there is the exact result, an integer (`Opcode.calculation?`), and
the condition on the two numbers under which the carry flag is set (`Opcode.Carries`). What the
arithmetic unit computes is the exact result modulo the number of values, and its flags say what
they should (`Opcode.Yields`). A result goes to a register or into memory, and is found there
(`contents_of_writeOperand`).
-/

namespace TeachingCpu

open Attempt

namespace Opcode

/-- The exact result of an instruction on numbers. The instructions that count have the number 1
for the second, and the complement has no use for it. -/
def calculation? : Opcode → Option (Nat → Nat → Int)
  | .add | .inc => some fun a b => a + b
  | .sub | .dec => some fun a b => a - b
  | .mul => some fun a b => a * b
  | .div => some fun a b => a / b
  | .mod => some fun a b => a % b
  | .and => some fun a b => (a &&& b : Nat)
  | .or => some fun a b => (a ||| b : Nat)
  | .xor => some fun a b => (a ^^^ b : Nat)
  | .not => some fun a _ => ~~~(a : Int)
  | .shl => some fun a b => a * 2 ^ b
  | .shr => some fun a b => a / 2 ^ b
  | _ => none

/-- When an instruction on two numbers sets the carry flag. A shift does so where the bit at the
edge is set before the last of its steps. -/
def Carries (op : Opcode) (w : Width) (a b : Nat) : Prop :=
  match op with
  | .add | .inc => 2 ^ w.bits ≤ a + b
  | .sub | .dec => a < b
  | .mul => 2 ^ w.bits ≤ a * b
  | .shl => 1 ≤ b ∧ b ≤ w.bits ∧ (a * 2 ^ (b - 1)).testBit (w.bits - 1)
  | .shr => 1 ≤ b ∧ b ≤ w.bits ∧ (a / 2 ^ (b - 1)).testBit 0
  | _ => False

/-- The instructions on numbers that do not overflow. -/
def withoutOverflow : List Opcode := [.div, .mod, .and, .or, .xor, .not, .shl, .shr]

/-- A result and flags are what an instruction makes of two numbers. -/
structure Yields (op : Opcode) (exact : Nat → Nat → Int) (w : Width) (a b result : Nat)
    (flags : Flags) : Prop where
  value : (result : Int) = exact a b % 2 ^ w.bits
  zero : flags.zero = true ↔ result = 0
  negative : flags.negative = true ↔ result.testBit (w.bits - 1) = true
  carry : flags.carry = true ↔ op.Carries w a b
  overflow : op ∈ withoutOverflow → flags.overflow = false

end Opcode

variable {op : Opcode} {exact : Nat → Nat → Int} {w : Width} {a b : Nat} {f : Flags}

/-- The flags of a result follow from its value, its carry and its overflow. -/
theorem yields_describing {r : ArithmeticResult} (hvalue : (r.value : Int) = exact a b % 2 ^ w.bits)
    (hcarry : r.carry = true ↔ op.Carries w a b)
    (hoverflow : op ∈ Opcode.withoutOverflow → r.overflow = false) :
    op.Yields exact w a b r.value (f.describing w r) where
  value := hvalue
  zero := by rw [Flags.zero_describing, beq_iff_eq]
  negative := by rw [Flags.negative_describing]
  carry := hcarry
  overflow := hoverflow

/-! ## Numbers modulo the number of values -/

theorem Width.natCast_size (w : Width) : (w.size : Int) = 2 ^ w.bits := by
  rw [size_eq]
  push_cast
  rfl

/-- A number of the width is its own remainder. -/
theorem eq_emod_of_lt {n : Nat} (h : n < w.size) : (n : Int) = n % 2 ^ w.bits := by
  rw [← w.natCast_size]
  exact (Int.emod_eq_of_lt (by omega) (by omega)).symm

theorem natCast_mod_size (n : Nat) : ((n % w.size : Nat) : Int) = n % 2 ^ w.bits := by
  rw [← w.natCast_size]
  push_cast
  rfl

namespace Operation

theorem value_subNumbers_eq (hb : b < w.size) :
    ((subNumbers w a b).value : Int) = ((a : Int) - b) % 2 ^ w.bits := by
  rw [← w.natCast_size]
  change (((a + w.size - b) % w.size : Nat) : Int) = _
  rw [Int.natCast_mod, Nat.cast_sub (by omega), Nat.cast_add, add_sub_right_comm,
    Int.add_emod_right]

/-- A shift by the number of bits or more leaves nothing. -/
theorem value_shlNumbers_eq :
    ((shlNumbers w a b).value : Int) = (a : Int) * 2 ^ b % 2 ^ w.bits := by
  have hshift : ((a : Int) * 2 ^ b) = ((a * 2 ^ b : Nat) : Int) := by
    push_cast
    rfl
  rw [hshift, ← natCast_mod_size]
  change ((if w.bits ≤ b then 0 else (a <<< b) % w.size : Nat) : Int) = _
  split
  · next hall =>
    rw [w.size_eq, Nat.mod_eq_zero_of_dvd (Dvd.dvd.mul_left (pow_dvd_pow 2 hall) a)]
  · rw [Nat.shiftLeft_eq]

theorem value_shrNumbers (ha : a < w.size) : (shrNumbers w a b).value = a / 2 ^ b := by
  change (if w.bits ≤ b then 0 else a >>> b) = _
  split
  · next hall =>
    rw [w.size_eq] at ha
    exact (Nat.div_eq_of_lt (lt_of_lt_of_le ha (Nat.pow_le_pow_right (by omega) hall))).symm
  · exact Nat.shiftRight_eq_div_pow a b

theorem carry_shlNumbers_iff : (shlNumbers w a b).carry = true ↔ Opcode.shl.Carries w a b := by
  change (decide (0 < b) && decide (b ≤ w.bits) && a.testBit (w.bits - b)) = true ↔ _
  rw [Bool.and_eq_true, Bool.and_eq_true, decide_eq_true_iff, decide_eq_true_iff, and_assoc]
  refine and_congr_right fun hpos => and_congr_right fun hle => ?_
  rw [← Nat.shiftLeft_eq, Nat.testBit_shiftLeft, decide_eq_true (by omega), Bool.true_and,
    show w.bits - 1 - (b - 1) = w.bits - b by omega]

theorem carry_shrNumbers_iff : (shrNumbers w a b).carry = true ↔ Opcode.shr.Carries w a b := by
  change (decide (0 < b) && decide (b ≤ w.bits) && a.testBit (b - 1)) = true ↔ _
  rw [Bool.and_eq_true, Bool.and_eq_true, decide_eq_true_iff, decide_eq_true_iff, and_assoc]
  refine and_congr_right fun hpos => and_congr_right fun hle => ?_
  rw [← Nat.shiftRight_eq_div_pow, Nat.testBit_shiftRight, Nat.add_zero]

end Operation

/-- A result that fits, of an instruction that never sets the carry flag. -/
theorem yields_fitting {n : Nat} (hvalue : exact a b = n) (hfits : n < w.size)
    (hcarry : ¬ op.Carries w a b) : op.Yields exact w a b n (f.describing w ⟨n, false, false⟩) := by
  refine yields_describing (r := ⟨n, false, false⟩) ?_ ?_ fun _ => rfl
  · rw [hvalue]
    exact eq_emod_of_lt hfits
  · exact iff_of_false Bool.false_ne_true hcarry

/-- What the operations compute is what the instructions should yield. -/
theorem yields_of_apply {operation : Operation} {r : ArithmeticResult}
    (hcalculation : op.calculation? = some exact)
    (heffect : op.effect = .arithmetic operation ∨ op.effect = .countBy operation)
    (ha : a < w.size) (hb : b < w.size) (h : operation.apply w a b = some r) :
    op.Yields exact w a b r.value (f.describing w r) := by
  cases op with
  | add | inc =>
    cases hcalculation
    obtain heffect | heffect := heffect <;> cases heffect
    cases h
    refine yields_describing ?_ ?_ nofun
    · exact natCast_mod_size (a + b)
    · exact decide_eq_true_iff.trans (by rw [w.size_eq]; rfl)
  | sub | dec =>
    cases hcalculation
    obtain heffect | heffect := heffect <;> cases heffect
    cases h
    exact yields_describing (Operation.value_subNumbers_eq hb) decide_eq_true_iff nofun
  | mul =>
    cases hcalculation
    obtain heffect | heffect := heffect <;> cases heffect
    cases h
    refine yields_describing ?_ ?_ nofun
    · exact natCast_mod_size (a * b)
    · exact decide_eq_true_iff.trans (by rw [w.size_eq]; rfl)
  | div =>
    cases hcalculation
    obtain heffect | heffect := heffect <;> cases heffect
    obtain ⟨-, h⟩ := Option.ite_none_left_eq_some.mp h
    cases h
    exact yields_fitting (Int.natCast_div a b) (lt_of_le_of_lt (Nat.div_le_self a b) ha) id
  | mod =>
    cases hcalculation
    obtain heffect | heffect := heffect <;> cases heffect
    obtain ⟨-, h⟩ := Option.ite_none_left_eq_some.mp h
    cases h
    exact yields_fitting (Int.natCast_mod a b) (lt_of_le_of_lt (Nat.mod_le a b) ha) id
  | and =>
    cases hcalculation
    obtain heffect | heffect := heffect <;> cases heffect
    cases h
    exact yields_fitting rfl (lt_of_le_of_lt Nat.and_le_left ha) id
  | or =>
    cases hcalculation
    obtain heffect | heffect := heffect <;> cases heffect
    cases h
    rw [w.size_eq] at ha hb
    exact yields_fitting rfl (w.size_eq ▸ Nat.or_lt_two_pow ha hb) id
  | xor =>
    cases hcalculation
    obtain heffect | heffect := heffect <;> cases heffect
    cases h
    rw [w.size_eq] at ha hb
    exact yields_fitting rfl (w.size_eq ▸ Nat.xor_lt_two_pow ha hb) id
  | shl =>
    cases hcalculation
    obtain heffect | heffect := heffect <;> cases heffect
    cases h
    exact yields_describing Operation.value_shlNumbers_eq Operation.carry_shlNumbers_iff
      fun _ => rfl
  | shr =>
    cases hcalculation
    obtain heffect | heffect := heffect <;> cases heffect
    cases h
    have hvalue := Operation.value_shrNumbers (b := b) ha
    refine yields_describing ?_ Operation.carry_shrNumbers_iff fun _ => rfl
    have hfits : a / 2 ^ b < w.size := lt_of_le_of_lt (Nat.div_le_self _ _) ha
    rw [hvalue, eq_emod_of_lt hfits]
    push_cast
    rfl
  | _ =>
    obtain heffect | heffect := heffect <;> cases heffect

/-- The complement has every bit of the number inverted. -/
theorem yields_complement (ha : a < w.size) :
    Opcode.not.Yields (fun a _ => ~~~(a : Int)) w a b (w.max - a)
      (f.describing w ⟨w.max - a, false, false⟩) := by
  have hvalue : ((w.max - a : Nat) : Int) = ~~~(a : Int) % 2 ^ w.bits := by
    have hnot : ~~~(a : Int) = -((a : Int) + 1) := Int.negSucc_eq a
    have hmax : ((w.max - a : Nat) : Int) = ~~~(a : Int) + w.size := by
      rw [hnot, Width.max]
      omega
    have hlt : w.max - a < w.size := by
      have hpos := w.size_pos
      rw [Width.max]
      omega
    rw [eq_emod_of_lt hlt, hmax, w.natCast_size, Int.add_emod_right]
  exact yields_describing (r := ⟨w.max - a, false, false⟩) hvalue
    (iff_of_false Bool.false_ne_true id) fun _ => rfl

/-- Only a division by zero has no result. -/
theorem apply_eq_none_iff {operation : Operation} :
    operation.apply w a b = none ↔ (operation = .div ∨ operation = .mod) ∧ b = 0 := by
  cases operation <;> simp [Operation.apply]

/-! ## Where results go -/

namespace Memory

variable {m m' : Memory} {address : Nat}

theorem byteAt_of_writeByte {b : UInt8} (hpos : 0 < m.layout.size) (hle : m.layout.size ≤ 65535)
    (h : m.writeByte address b = .ok m') : m'.byteAt address = b := by
  obtain ⟨_, hcheck, h⟩ := Except.bind_eq_ok_iff.mp h
  cases h
  have hlast := check_eq_ok_iff.mp hcheck
  rw [Layout.lastAddressable_eq hle] at hlast
  rw [byteAt_replace, if_pos (by omega), Nat.sub_self, List.getD_cons_zero]

theorem wordAt_of_writeWord {value : UInt16} (hpos : 0 < m.layout.size)
    (hle : m.layout.size ≤ 65535) (h : m.writeWord address value = .ok m') :
    m'.wordAt address = value := by
  obtain ⟨_, -, h⟩ := Except.bind_eq_ok_iff.mp h
  obtain ⟨_, hcheck, h⟩ := Except.bind_eq_ok_iff.mp h
  cases h
  have hlast := check_eq_ok_iff.mp hcheck
  rw [Layout.lastAddressable_eq hle] at hlast
  rw [wordAt, byteAt_replace, if_pos (by omega), byteAt_replace, if_pos (by omega), Nat.sub_self,
    Nat.add_sub_cancel_left]
  exact Image.word_halves value

end Memory

/-- Where a result is kept. -/
inductive Place where
  | register (r : Register)
  | memory (address : Nat)
deriving DecidableEq, Repr

namespace Cpu

/-- The place that an operand names. -/
def place? (cpu : Cpu) (o : Operand) : Option Place :=
  match o.mode with
  | .register => o.register?.map .register
  | .direct | .data => some (.memory o.value.toNat)
  | .indirect =>
    match cpu.memory.readWord o.value.toNat with
    | .ok pointer => some (.memory pointer.toNat)
    | .error _ => none
  | .immediate | .label | .str => none

/-- The number at a place. -/
def contents (cpu : Cpu) (w : Width) : Place → Nat
  | .register r => (cpu.reg r).toNat
  | .memory address =>
    match w with
    | .byte => (cpu.memory.byteAt address).toNat
    | .word => (cpu.memory.wordAt address).toNat

variable {cpu cpu' : Cpu} {address n : Nat} {o : Operand}

/-- What is stored in memory is there. -/
theorem contents_of_store (hs : cpu.Sized) (hfits : n < w.size)
    (h : store address n.toUInt16 w cpu = .ok () cpu') :
    cpu'.contents w (.memory address) = n ∧ cpu'.flags = cpu.flags := by
  have hpos : 0 < cpu.memory.layout.size := Nat.lt_of_le_of_lt (Nat.zero_le _) hs.pos
  unfold store at h
  cases w with
  | byte =>
    obtain ⟨memory, hwrite, rfl⟩ := writeMemory_eq_ok_iff.mp h
    have hn : n < 256 := hfits
    refine ⟨?_, rfl⟩
    change (memory.byteAt address).toNat = n
    rw [Memory.byteAt_of_writeByte hpos hs.le hwrite, UInt16.toNat_toUInt8,
      Nat.toNat_toUInt16_of_le (by omega), Nat.mod_eq_of_lt hn]
  | word =>
    obtain ⟨memory, hwrite, rfl⟩ := writeMemory_eq_ok_iff.mp h
    have hn : n < 65536 := hfits
    refine ⟨?_, rfl⟩
    change (memory.wordAt address).toNat = n
    rw [Memory.wordAt_of_writeWord hpos hs.le hwrite, Nat.toNat_toUInt16_of_le (by omega)]

/-- What is written to an operand is at the place that the operand names. -/
theorem contents_of_writeOperand (hs : cpu.Sized) (hfits : n < w.size)
    (h : writeOperand o w n.toUInt16 cpu = .ok () cpu') :
    ∃ place, cpu.place? o = some place ∧ cpu'.contents w place = n ∧ cpu'.flags = cpu.flags := by
  unfold writeOperand at h
  unfold place?
  cases hmode : o.mode with
  | register =>
    simp only [hmode] at h ⊢
    obtain ⟨r, cpu₁, hregister, h⟩ := bind_eq_ok.mp h
    unfold registerOf at hregister
    cases hr : o.register? with
    | none =>
      rw [hr] at hregister
      cases hregister
    | some target =>
      rw [hr] at hregister
      cases hregister
      rw [writeRegister_eq] at h
      have hn : n ≤ 65535 := by
        have := w.size_le
        omega
      split at h
      · cases h
      · split at h
        · cases h
        · cases h
          refine ⟨.register r, rfl, ?_, rfl⟩
          change ((cpu.registers.write r n.toUInt16.toNat.toUInt16).get r).toNat = n
          rw [Registers.get_write_self, Nat.toNat_toUInt16_of_le hn, Nat.toNat_toUInt16_of_le hn]
  | direct | data =>
    simp only [hmode] at h ⊢
    exact ⟨_, rfl, contents_of_store hs hfits h⟩
  | indirect =>
    simp only [hmode] at h ⊢
    obtain ⟨pointer, cpu₁, hread, h⟩ := bind_eq_ok.mp h
    obtain ⟨hpointer, rfl⟩ := readMemory_eq_ok_iff.mp hread
    rw [hpointer]
    exact ⟨_, rfl, contents_of_store hs hfits h⟩
  | immediate | label | str =>
    simp only [hmode] at h
    cases h

end Cpu

/-! ## Instructions on numbers -/

/-- The numbers that an instruction works on, cut to its width. An instruction on one operand has
the number 1 for the second. -/
def Instruction.numbers? (i : Instruction) (cpu : Cpu) : Option (Nat × Nat) :=
  let w := accessWidth i.operands
  match i.operands with
  | [target] =>
    match cpu.number? w target with
    | some a => some (a, 1)
    | none => none
  | [target, source] =>
    match cpu.number? w target, cpu.number? w source with
    | some a, some b => some (a, b)
    | _, _ => none
  | _ => none

/-- The place that the result of an instruction goes to. -/
def Instruction.place? (i : Instruction) (cpu : Cpu) : Option Place :=
  i.operands.head?.bind cpu.place?

theorem Opcode.Yields.lt {result : Nat} {flags : Flags}
    (h : op.Yields exact w a b result flags) : result < w.size := by
  have hlt : (result : Int) < w.size := by
    rw [h.value, ← w.natCast_size]
    exact Int.emod_lt_of_pos _ (Int.natCast_pos.mpr w.size_pos)
  omega

namespace Cpu

variable {cpu cpu' : Cpu} {target source : Operand}

/-- A result that is written behind its flags. -/
theorem yields_of_writeOperand {r : ArithmeticResult} (hs : cpu.Sized)
    (hr : op.Yields exact w a b r.value (cpu.flags.describing w r))
    (h : writeOperand target w r.value.toUInt16 (cpu.describing w r) = .ok () cpu') :
    ∃ place, cpu.place? target = some place ∧
      op.Yields exact w a b (cpu'.contents w place) cpu'.flags := by
  have hsized : (cpu.describing w r).Sized := ⟨hs.pos, hs.le⟩
  obtain ⟨place, hplace, hcontents, hflags⟩ := contents_of_writeOperand hsized hr.lt h
  refine ⟨place, hplace, ?_⟩
  rw [hcontents, hflags]
  exact hr

/-- An operation on two operands that can be read: its result is written behind the flags, unless
there is none. -/
theorem arithmetic_eq {operation : Operation} (ha : cpu.number? w target = some a)
    (hb : cpu.number? w source = some b) :
    arithmetic operation w target source cpu =
      match operation.apply w a b with
      | some r => writeOperand target w r.value.toUInt16 (cpu.describing w r)
      | none => .error (.of (.divisionByZero a)) cpu := by
  obtain ⟨x, htarget, rfl⟩ := number?_eq_some_iff.mp ha
  obtain ⟨y, hsource, rfl⟩ := number?_eq_some_iff.mp hb
  unfold arithmetic
  rw [bind_of_ok htarget, bind_of_ok hsource]
  have hcompute := compute_eq operation w x y cpu
  cases happly : operation.apply w (x.toNat % w.size) (y.toNat % w.size) with
  | some r =>
    rw [happly] at hcompute
    rw [bind_of_ok hcompute]
  | none =>
    rw [happly] at hcompute
    rw [bind_of_error hcompute]

theorem exists_numbers_of_arithmetic {operation : Operation}
    (h : arithmetic operation w target source cpu = .ok () cpu') :
    ∃ a b, cpu.number? w target = some a ∧ cpu.number? w source = some b := by
  obtain ⟨x, cpu₁, htarget, h⟩ := bind_eq_ok.mp h
  cases (reads_readOperand target w).ok htarget
  obtain ⟨y, cpu₁, hsource, h⟩ := bind_eq_ok.mp h
  cases (reads_readOperand source w).ok hsource
  exact ⟨_, _, number?_eq_some_iff.mpr ⟨x, htarget, rfl⟩,
    number?_eq_some_iff.mpr ⟨y, hsource, rfl⟩⟩

theorem yields_of_arithmetic {operation : Operation} (hs : cpu.Sized)
    (hcalculation : op.calculation? = some exact) (heffect : op.effect = .arithmetic operation)
    (h : arithmetic operation w target source cpu = .ok () cpu') :
    ∃ a b place, cpu.number? w target = some a ∧ cpu.number? w source = some b ∧
      cpu.place? target = some place ∧
      op.Yields exact w a b (cpu'.contents w place) cpu'.flags := by
  obtain ⟨a, b, ha, hb⟩ := exists_numbers_of_arithmetic h
  rw [arithmetic_eq ha hb] at h
  split at h
  · next r hr =>
    have hyields := yields_of_apply (f := cpu.flags) hcalculation (.inl heffect) (number?_lt ha)
      (number?_lt hb) hr
    obtain ⟨place, hplace, hresult⟩ := yields_of_writeOperand hs hyields h
    exact ⟨a, b, place, ha, hb, hplace, hresult⟩
  · cases h

theorem yields_of_countBy {operation : Operation} (hs : cpu.Sized)
    (hcalculation : op.calculation? = some exact) (heffect : op.effect = .countBy operation)
    (h : countBy operation w target cpu = .ok () cpu') :
    ∃ a place, cpu.number? w target = some a ∧ cpu.place? target = some place ∧
      op.Yields exact w a 1 (cpu'.contents w place) cpu'.flags := by
  obtain ⟨x, cpu₁, htarget, h⟩ := bind_eq_ok.mp h
  cases (reads_readOperand target w).ok htarget
  obtain ⟨value, cpu₁, hcompute, h⟩ := bind_eq_ok.mp h
  have hone : (1 : UInt16).toNat % w.size = 1 := by cases w <;> rfl
  rw [compute_eq, hone] at hcompute
  split at hcompute
  · next r hr =>
    cases hcompute
    have hyields := yields_of_apply (f := cpu.flags) hcalculation (.inr heffect)
      (Nat.mod_lt _ w.size_pos) (by cases w <;> decide) hr
    obtain ⟨place, hplace, hresult⟩ := yields_of_writeOperand hs hyields h
    exact ⟨_, place, number?_eq_some_iff.mpr ⟨x, htarget, rfl⟩, hplace, hresult⟩
  · cases hcompute

theorem yields_of_complement (hs : cpu.Sized) (h : complement w target cpu = .ok () cpu') :
    ∃ a place, cpu.number? w target = some a ∧ cpu.place? target = some place ∧
      Opcode.not.Yields (fun a _ => ~~~(a : Int)) w a 1 (cpu'.contents w place) cpu'.flags := by
  obtain ⟨x, cpu₁, htarget, h⟩ := bind_eq_ok.mp h
  cases (reads_readOperand target w).ok htarget
  obtain ⟨_, cpu₁, hflags, h⟩ := bind_eq_ok.mp h
  cases hflags
  have hyields := yields_complement (f := cpu.flags) (b := 1) (Nat.mod_lt x.toNat w.size_pos)
  obtain ⟨place, hplace, hresult⟩ :=
    yields_of_writeOperand (r := ⟨w.max - x.toNat % w.size, false, false⟩) hs hyields h
  exact ⟨_, place, number?_eq_some_iff.mpr ⟨x, htarget, rfl⟩, hplace, hresult⟩

end Cpu

end TeachingCpu
