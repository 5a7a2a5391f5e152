import TeachingCpu.Proofs.Listing.Decode
import TeachingCpu.Proofs.Machine.Causes
import TeachingCpu.Proofs.Machine.Fault

/-!
# What a machine fetches

The engine fetches byte by byte what a listing decodes from the whole code: at the address of a
listed instruction it fetches this instruction, and `pc` stands behind it when it takes effect. In
code of at most 65535 bytes `pc` never runs past the last address, wherever the fetch begins
(`stepInstruction_of_decodeRom`).
-/

namespace TeachingCpu

open Attempt

namespace Machine

/-! ## Counting `pc` up -/

/-- A machine with `pc` counted up some times, before the eyes of the observer. -/
def countUp (m : Machine) : Nat → Machine
  | 0 => m
  | n + 1 =>
    let m' := m.countUp n
    m'.atPc (m'.cpu.pc + 1) (m'.observed.map ((m'.cpu.pc + 1) :: ·))

theorem countUp_add (m : Machine) (a b : Nat) : m.countUp (a + b) = (m.countUp a).countUp b := by
  induction b with
  | zero => rfl
  | succ b ih =>
    rw [← Nat.add_assoc, countUp, countUp, ih]

/-- Counting moves `pc`, and nothing else happens to the machine. -/
theorem advances_countUp (m : Machine) (n : Nat) : Advances m (m.countUp n) := by
  induction n with
  | zero => exact refl_of Advances m
  | succ n ih => exact trans_of Advances ih ⟨_, _, Option.isSome_map, rfl⟩

theorem rom_countUp (m : Machine) (n : Nat) : (m.countUp n).rom = m.rom := by
  obtain ⟨pc, observed, -, heq⟩ := advances_countUp m n
  rw [heq]
  rfl

theorem pc_atPc (m : Machine) (pc : UInt16) (observed : Option (List UInt16)) :
    (m.atPc pc observed).cpu.pc = pc :=
  Registers.get_setSlot_self _ _ _

/-- As long as `pc` does not run past the last address, it is counted up by the whole number. -/
theorem toNat_pc_countUp {m : Machine} {n : Nat} (h : m.cpu.pc.toNat + n ≤ 65535) :
    (m.countUp n).cpu.pc.toNat = m.cpu.pc.toNat + n := by
  induction n with
  | zero => rfl
  | succ n ih =>
    have hpc := ih (by omega)
    rw [countUp, pc_atPc, UInt16.toNat_add, hpc]
    change (m.cpu.pc.toNat + n + 1) % 65536 = _
    omega

theorem advance_of_lt {m : Machine} (h : m.cpu.pc.toNat < 65535) :
    advance m = .ok (m.countUp 1).cpu.pc (m.countUp 1) := by
  have hne : m.cpu.pc ≠ 0xffff := by
    intro heq
    rw [heq] at h
    exact absurd h (by decide)
  rw [advance_eq, if_neg hne]
  change _ = EStateM.Result.ok (m.atPc _ _).cpu.pc _
  rw [pc_atPc]
  rfl

/-- The byte at an address is fetched if there is one, and the machine stays as it is. -/
theorem fetchByte_eq_ok {m m' : Machine} {address : UInt16} {b : UInt8} :
    fetchByte address m = .ok b m' ↔ m.rom[address.toNat]? = some b ∧ m' = m := by
  unfold fetchByte
  rw [get_bind_apply]
  cases m.rom[address.toNat]? <;> simp [eq_comm]

theorem fetchByte_eq_error {m m' : Machine} {address : UInt16} {e : Error} :
    fetchByte address m = .error e m' ↔ m.rom.size ≤ address.toNat ∧
      e = .of (.codeAddressOutside address m.rom.size) ∧ m' = m := by
  unfold fetchByte
  rw [get_bind_apply, ← Array.getElem?_eq_none_iff]
  cases m.rom[address.toNat]? <;> simp [eq_comm]

/-! ## Fetching what is encoded -/

/-- The code behind the byte at `pc` begins with some bytes. -/
def Ahead (m : Machine) (bytes : List UInt8) : Prop :=
  bytes <+: m.rom.toList.drop (m.cpu.pc.toNat + 1)

section Ahead

variable {m : Machine}

theorem fetchByte_of_prefix {pc : UInt16} {b : UInt8} {rest : List UInt8}
    (h : b :: rest <+: m.rom.toList.drop pc.toNat) : fetchByte pc m = .ok b m := by
  have hb := (List.cons_prefix_drop_iff.mp h).1
  rw [Array.getElem?_toList] at hb
  exact fetchByte_eq_ok.mpr ⟨hb, rfl⟩

theorem Ahead.lt_size {bytes : List UInt8} (h : m.Ahead bytes) (hne : bytes ≠ []) :
    m.cpu.pc.toNat + bytes.length < m.rom.size := by
  have hlength := List.IsPrefix.length_le h
  have hpos := List.length_pos_iff.mpr hne
  have hsize : m.rom.toList.length = m.rom.size := Array.length_toList
  rw [List.length_drop, hsize] at hlength
  omega

/-- The next byte of the code. -/
theorem fetchByte_of_ahead {b : UInt8} {rest : List UInt8} (hrom : m.rom.size ≤ 65535)
    (h : m.Ahead (b :: rest)) :
    (advance >>= fetchByte) m = .ok b (m.countUp 1) ∧ (m.countUp 1).Ahead rest := by
  have hlength := h.lt_size (List.cons_ne_nil b rest)
  rw [List.length_cons] at hlength
  have hpc := toNat_pc_countUp (m := m) (n := 1) (by omega)
  have hahead : b :: rest <+: (m.countUp 1).rom.toList.drop (m.countUp 1).cpu.pc.toNat := by
    rw [hpc]
    exact h
  refine ⟨?_, (List.cons_prefix_drop_iff.mp hahead).2⟩
  rw [bind_of_ok (advance_of_lt (by omega))]
  exact fetchByte_of_prefix hahead

theorem fetchOperand_eq : fetchOperand = (do
    let tag ← advance >>= fetchByte
    let value ← advance >>= fetchByte
    match Mode.ofTag? tag with
    | some mode => return ⟨mode, value⟩
    | none => Attempt.fail (.unknownModeTag tag)) := by
  unfold fetchOperand
  refine (bind_assoc _ _ _).symm.trans (congrArg _ (funext fun tag => ?_))
  exact (bind_assoc _ _ _).symm

theorem fetchOperand_of_ahead {o : Operand} {rest : List UInt8} (hrom : m.rom.size ≤ 65535)
    (h : m.Ahead (o.toBytes ++ rest)) :
    fetchOperand m = .ok o (m.countUp 2) ∧ (m.countUp 2).Ahead rest := by
  obtain ⟨htag, h⟩ := fetchByte_of_ahead hrom h
  obtain ⟨hvalue, h⟩ := fetchByte_of_ahead (rom_countUp m 1 ▸ hrom) h
  refine ⟨?_, h⟩
  rw [fetchOperand_eq, bind_of_ok htag, bind_of_ok hvalue, Mode.ofTag?_tag]
  rfl

theorem fetchOperands_of_ahead {operands : List Operand} {rest : List UInt8}
    (hrom : m.rom.size ≤ 65535) (h : m.Ahead (operands.flatMap Operand.toBytes ++ rest)) :
    fetchOperands operands.length m = .ok operands (m.countUp (2 * operands.length)) := by
  induction operands generalizing m with
  | nil => rfl
  | cons o operands ih =>
    rw [List.flatMap_cons, List.append_assoc] at h
    obtain ⟨hoperand, h⟩ := fetchOperand_of_ahead hrom h
    have hoperands := ih (rom_countUp m 2 ▸ hrom) h
    rw [← countUp_add, Nat.add_comm 2, ← Nat.mul_succ] at hoperands
    rw [List.length_cons, fetchOperands, bind_of_ok hoperand, bind_of_ok hoperands]
    rfl

/-- At the first byte of an instruction, the instruction is fetched and `pc` counted up behind
it. -/
theorem fetchInstruction_of_prefix {i : Instruction} {rest : List UInt8} (hi : i.Complete)
    (hrom : m.rom.size ≤ 65535)
    (h : i.toBytes ++ rest <+: m.rom.toList.drop m.cpu.pc.toNat) :
    fetchInstruction m = .ok i (m.countUp i.opcode.length) ∧
      m.cpu.pc.toNat + i.opcode.length ≤ m.rom.size := by
  rw [Instruction.toBytes, List.cons_append] at h
  have hcode := fetchByte_of_prefix h
  have hoperands := fetchOperands_of_ahead hrom (List.cons_prefix_drop_iff.mp h).2
  have hend : m.cpu.pc.toNat + i.opcode.length ≤ m.rom.size := by
    have hlength := h.length_le
    have hsize : m.rom.toList.length = m.rom.size := Array.length_toList
    rw [List.length_cons, List.length_append, hi.length_operands, List.length_drop,
      hsize] at hlength
    rw [Opcode.length]
    omega
  refine ⟨?_, hend⟩
  rw [hi] at hoperands
  rw [Opcode.length] at hend ⊢
  have hpc := toNat_pc_countUp (m := m) (n := 2 * i.opcode.arity) (by omega)
  have hlast := advance_of_lt (m := m.countUp (2 * i.opcode.arity)) (by omega)
  rw [← countUp_add] at hlast
  unfold fetchInstruction
  rw [get_bind_apply, bind_of_ok hcode]
  simp only [Opcode.ofCode?_code]
  rw [bind_of_ok hoperands, bind_of_ok hlast, Nat.add_comm 1]
  rfl

end Ahead

/-! ## Why a fetch fails -/

end Machine

/-- The causes for which the fetch of an instruction can fail in code of at most 65535 bytes. -/
inductive Cause.OfFetch : Cause → Prop where
  | codeAddressOutside (address : UInt16) (romLength : Nat) :
    OfFetch (.codeAddressOutside address romLength)
  | undefinedOpcode (code : UInt8) : OfFetch (.undefinedOpcode code)
  | unknownModeTag (tag : UInt8) : OfFetch (.unknownModeTag tag)

open Cause (OfFetch OfEffect)

namespace Machine

/-- The byte at `pc` is code, and all code has an address that can be counted up. -/
structure InCode (m : Machine) : Prop where
  pc : m.cpu.pc.toNat < m.rom.size
  rom : m.rom.size ≤ 65535

/-- An action that begins and ends in the code and fails for the causes of a fetch. -/
structure Walks {α : Type} (act : Attempt Machine α) : Prop where
  ok : ∀ m a m', m.InCode → act m = .ok a m' → m'.InCode
  error : ∀ m e m', m.InCode → act m = .error e m' → OfFetch e.cause

variable {α β : Type}

theorem walks_pure (a : α) : Walks (pure a) := by
  constructor
  · intro m b m' hm h
    cases h
    exact hm
  · intro m e m' _ h
    cases h

theorem walks_fail {cause : Cause} (h : OfFetch cause) :
    Walks (Attempt.fail cause : Attempt Machine α) := by
  refine ⟨fun m a m' _ hact => ?_, fun m e m' _ => raises_fail h m e m'⟩
  cases hact

theorem walks_bind {x : Attempt Machine α} {f : α → Attempt Machine β} (hx : Walks x)
    (hf : ∀ a, Walks (f a)) : Walks (x >>= f) := by
  constructor
  · intro m b m' hm h
    obtain ⟨a, m₁, hact, h⟩ := bind_eq_ok.mp h
    exact (hf a).ok m₁ b m' (hx.ok m a m₁ hm hact) h
  · intro m e m' hm h
    cases hact : x m with
    | ok a m₁ =>
      rw [bind_of_ok hact] at h
      exact (hf a).error m₁ e m' (hx.ok m a m₁ hm hact) h
    | error e' m₁ =>
      rw [bind_of_error hact] at h
      cases h
      exact hx.error m e m' hm hact

theorem raises_fetchByte (address : UInt16) : Raises OfFetch (fetchByte address) := by
  refine raises_bind raises_get fun m => ?_
  split
  · exact raises_pure _
  · exact raises_fail (.codeAddressOutside _ _)

/-- In the code `pc` can be counted up, and it stays in the code where the next byte is fetched. -/
theorem walks_fetchNextByte : Walks (advance >>= fetchByte) := by
  constructor
  · intro m b m' hm h
    rw [bind_of_ok (advance_of_lt (Nat.lt_of_lt_of_le hm.pc hm.rom))] at h
    obtain ⟨hb, rfl⟩ := fetchByte_eq_ok.mp h
    exact ⟨(Array.getElem?_eq_some_iff.mp hb).1, hm.rom⟩
  · intro m e m' hm h
    rw [bind_of_ok (advance_of_lt (Nat.lt_of_lt_of_le hm.pc hm.rom))] at h
    exact raises_fetchByte _ _ e m' h

theorem walks_fetchOperand : Walks fetchOperand := by
  rw [fetchOperand_eq]
  refine walks_bind walks_fetchNextByte fun tag => ?_
  refine walks_bind walks_fetchNextByte fun value => ?_
  split
  · exact walks_pure _
  · exact walks_fail (.unknownModeTag tag)

theorem walks_fetchOperands (n : Nat) : Walks (fetchOperands n) := by
  induction n with
  | zero => exact walks_pure _
  | succ n ih =>
    refine walks_bind walks_fetchOperand fun operand => ?_
    exact walks_bind ih fun rest => walks_pure _

/-- The fetch of an instruction may begin anywhere, and `pc` leaves the code with its last step. -/
theorem cause_of_fetchInstruction_error {m m' : Machine} {e : Error} (hrom : m.rom.size ≤ 65535)
    (h : fetchInstruction m = .error e m') : OfFetch e.cause := by
  unfold fetchInstruction at h
  rw [get_bind_apply] at h
  cases hcode : fetchByte m.cpu.pc m with
  | error e' m₁ =>
    rw [bind_of_error hcode] at h
    cases h
    exact raises_fetchByte _ _ e m' hcode
  | ok code m₁ =>
    obtain ⟨hb, rfl⟩ := fetchByte_eq_ok.mp hcode
    have hcodeOk : m₁.InCode := ⟨(Array.getElem?_eq_some_iff.mp hb).1, hrom⟩
    rw [bind_of_ok hcode] at h
    cases hopcode : Opcode.ofCode? code with
    | none =>
      simp only [hopcode] at h
      cases h
      exact .undefinedOpcode code
    | some opcode =>
      simp only [hopcode] at h
      cases hoperands : fetchOperands opcode.arity m₁ with
      | error e' m₂ =>
        rw [bind_of_error hoperands] at h
        cases h
        exact (walks_fetchOperands _).error m₁ e m' hcodeOk hoperands
      | ok operands m₂ =>
        have hm₂ := (walks_fetchOperands _).ok m₁ operands m₂ hcodeOk hoperands
        rw [bind_of_ok hoperands,
          bind_of_ok (advance_of_lt (Nat.lt_of_lt_of_le hm₂.pc hm₂.rom))] at h
        cases h

/-! ## The whole instruction -/

/-- A machine on which an instruction that was fetched is counted. -/
def tallied (m : Machine) (i : Instruction) : Machine :=
  { m with
    cycles := m.cycles + i.opcode.cycles
    instructions := m.instructions + 1 }.log .trace fun _ => i.text m.current

theorem fetchNext_eq_ok {m m' : Machine} {i : Instruction} :
    fetchNext m = .ok i m' ↔ ∃ m₁, fetchInstruction m.begun = .ok i m₁ ∧ m' = m₁.tallied i := by
  unfold fetchNext
  rw [modify_bind_apply]
  change (fetchInstruction >>= _) m.begun = _ ↔ _
  rw [bind_eq_ok]
  constructor
  · rintro ⟨i', m₁, hfetch, htally⟩
    cases htally
    exact ⟨m₁, hfetch, rfl⟩
  · rintro ⟨m₁, hfetch, rfl⟩
    exact ⟨i, m₁, hfetch, rfl⟩

theorem fetchNext_eq_error {m m' : Machine} {e : Error} :
    fetchNext m = .error e m' ↔ fetchInstruction m.begun = .error e m' := by
  unfold fetchNext
  rw [modify_bind_apply]
  change (fetchInstruction >>= _) m.begun = _ ↔ _
  rw [bind_eq_error]
  refine or_iff_left ?_
  rintro ⟨i, m₁, -, htally⟩
  cases htally

theorem stepInstruction_of_fetchNext {m m₁ : Machine} {i : Instruction}
    (hrunnable : m.status.isRunnable = true) (hfetch : fetchNext m.starting = .ok i m₁) :
    stepInstruction m =
      match (do perform i; breakIfWanted) m₁ with
      | .ok _ m' => .ok m'.status m'
      | .error e m' => .error e (m'.fault e) := by
  have hrun : executeNext m.starting = (do perform i; breakIfWanted) m₁ := by
    rw [executeNext_eq, bind_of_ok hfetch]
  rw [stepInstruction_of_runnable hrunnable]
  cases hact : (do perform i; breakIfWanted : Attempt Machine Unit) m₁ with
  | ok _ m' => rw [hrun.trans hact]
  | error e m' => rw [hrun.trans hact]

/-- The operands of the instruction that is fetched, if one is. -/
def fetchedOperands (m : Machine) : List Operand :=
  match fetchNext m.starting with
  | .ok i _ => i.operands
  | .error _ _ => []

/-- An instruction is refused, or it fails for a cause of its fetch or its effect. -/
theorem cause_of_stepInstruction_error {m m' : Machine} {e : Error} (hrom : m.rom.size ≤ 65535)
    (h : stepInstruction m = .error e m') :
    e.cause = .notRunnable m.status ∨ OfFetch e.cause ∨ OfEffect m.fetchedOperands e.cause := by
  cases hrunnable : m.status.isRunnable with
  | false =>
    rw [stepInstruction_of_not_runnable hrunnable] at h
    cases h
    exact .inl rfl
  | true =>
    refine .inr ?_
    obtain ⟨m₁, hexecute, -, -⟩ := fault_of_stepInstruction hrunnable h
    cases hfetch : fetchNext m.starting with
    | error e' m₂ =>
      rw [executeNext_eq, bind_of_error hfetch] at hexecute
      cases hexecute
      have hinstruction := fetchNext_eq_error.mp hfetch
      exact .inl (cause_of_fetchInstruction_error (m := m.starting.begun) hrom hinstruction)
    | ok i m₂ =>
      rw [executeNext_eq, bind_of_ok hfetch] at hexecute
      have heffect : Raises (OfEffect i.operands) (do perform i; breakIfWanted) :=
        raises_bind (raises_perform i) fun _ => raises_breakIfWanted
      have hoperands : m.fetchedOperands = i.operands := by
        unfold fetchedOperands
        rw [hfetch]
      rw [hoperands]
      exact .inr (heffect m₂ e m₁ hexecute)

/-- At the address of a listed instruction, this instruction is fetched, and `pc` is counted up
behind it. -/
theorem fetchNext_of_listed {m : Machine} {listed : List ListedInstruction}
    (hrom : m.rom.size ≤ 65535) (hdecode : Listing.decodeRom m.rom.toList = .ok listed)
    {l : ListedInstruction} (hl : l ∈ listed) (hpc : m.cpu.pc = l.offset) :
    ∃ m₁, fetchNext m.starting = .ok l.instruction m₁ ∧ m₁.cpu = m.cpu.setPc m₁.cpu.pc ∧
      m₁.cpu.pc.toNat = l.offset.toNat + l.instruction.toBytes.length := by
  obtain ⟨instructions, hcomplete, hcode, rfl⟩ := Listing.decodeRom_eq_ok_iff.mp hdecode
  obtain ⟨front, back, rfl, hoffset⟩ := Listing.exists_of_mem_listFrom hcomplete hl
  have hi : l.instruction.Complete := hcomplete _ (by simp)
  rw [List.flatMap_append, List.flatMap_cons] at hcode
  -- sixteen bits are enough for every address, so the offset counts the bytes in front
  have hfront : m.cpu.pc.toNat = (front.flatMap Instruction.toBytes).length := by
    have hlength := congrArg List.length hcode
    rw [Array.length_toList, List.length_append] at hlength
    rw [hpc, hoffset, Nat.toNat_toUInt16_of_le (by omega), Nat.zero_add]
  have hahead : l.instruction.toBytes ++ back.flatMap Instruction.toBytes <+:
      m.rom.toList.drop m.cpu.pc.toNat := by
    rw [hcode, hfront, List.drop_left]
  obtain ⟨hfetch, hend⟩ :=
    fetchInstruction_of_prefix (m := m.starting.begun) hi hrom hahead
  have hnext := fetchNext_eq_ok.mpr ⟨_, hfetch, rfl⟩
  obtain ⟨⟨pc, hcpu⟩, -⟩ := (advances_countUp m.starting.begun l.instruction.opcode.length).counted
  refine ⟨_, hnext, ?_, ?_⟩
  · have hmoved : (m.cpu.setPc pc).pc = pc := Registers.get_setSlot_self _ _ _
    refine hcpu.trans ?_
    change _ = m.cpu.setPc (m.starting.begun.countUp l.instruction.opcode.length).cpu.pc
    rw [hcpu]
    exact congrArg m.cpu.setPc hmoved.symm
  · rw [← hpc, hi.length_toBytes]
    exact toNat_pc_countUp (m := m.starting.begun) (Nat.le_trans hend hrom)

/-- The engine executes the instructions of the listing. At the address of one it fetches this
instruction, `pc` is behind it when it takes effect, and what it does and how it fails are all
that happens. From no address whatsoever does `pc` run past the last one. -/
theorem stepInstruction_of_decodeRom {m : Machine} (hrom : m.rom.size ≤ 65535) :
    (∀ listed, Listing.decodeRom m.rom.toList = .ok listed →
      ∀ l ∈ listed, m.status.isRunnable = true → m.cpu.pc = l.offset →
        ∃ m₁, fetchNext m.starting = .ok l.instruction m₁ ∧
          m₁.cpu = m.cpu.setPc m₁.cpu.pc ∧
          m₁.cpu.pc.toNat = l.offset.toNat + l.instruction.toBytes.length ∧
          stepInstruction m =
            match (do perform l.instruction; breakIfWanted) m₁ with
            | .ok _ m' => .ok m'.status m'
            | .error e m' => .error e (m'.fault e)) ∧
      ∀ e m', stepInstruction m = .error e m' → e.cause ≠ .programCounterOverrun := by
  refine ⟨?_, ?_⟩
  · intro listed hdecode l hl hrunnable hpc
    obtain ⟨m₁, hfetch, hcpu, hbehind⟩ := fetchNext_of_listed hrom hdecode hl hpc
    exact ⟨m₁, hfetch, hcpu, hbehind, stepInstruction_of_fetchNext hrunnable hfetch⟩
  · intro e m' h
    rcases cause_of_stepInstruction_error hrom h with hcause | hcause | hcause
    · rw [hcause]
      nofun
    · intro heq
      rw [heq] at hcause
      cases hcause
    · intro heq
      rw [heq] at hcause
      cases hcause

/-- The second instruction of a listing, on the machine that has executed the first. -/
theorem stepInstruction_of_decodeRom_behindPush :
    behindPush.rom.size ≤ 65535 ∧
      Listing.decodeRom behindPush.rom.toList =
        .ok [⟨0, .push, [⟨.register, 12⟩]⟩, ⟨3, .pop, [⟨.immediate, 5⟩]⟩] ∧
      behindPush.status.isRunnable = true ∧ behindPush.cpu.pc = 3 ∧
      ∃ m₁, fetchNext behindPush.starting = .ok ⟨.pop, [⟨.immediate, 5⟩]⟩ m₁ ∧
        m₁.cpu.pc.toNat = 6 := by
  have hrom : behindPush.rom.size ≤ 65535 := by decide +kernel
  have hcode : behindPush.rom.toList =
      [⟨.push, [⟨.register, 12⟩]⟩, ⟨.pop, [⟨.immediate, 5⟩]⟩].flatMap Instruction.toBytes := by
    decide +kernel
  have hdecode : Listing.decodeRom behindPush.rom.toList =
      .ok [⟨0, .push, [⟨.register, 12⟩]⟩, ⟨3, .pop, [⟨.immediate, 5⟩]⟩] := by
    rw [hcode]
    exact Listing.decodeRom_flatMap_toBytes (by simp [Instruction.Complete, Opcode.arity])
  have hpc : behindPush.cpu.pc = 3 := by decide +kernel
  obtain ⟨m₁, hfetch, -, hbehind, -⟩ :=
    (stepInstruction_of_decodeRom hrom).1 _ hdecode ⟨3, .pop, [⟨.immediate, 5⟩]⟩ (by simp) rfl hpc
  exact ⟨hrom, hdecode, rfl, hpc, m₁, hfetch, hbehind⟩

end Machine

end TeachingCpu
