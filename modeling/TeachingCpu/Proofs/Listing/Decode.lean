import TeachingCpu.Listing.Basic
import TeachingCpu.Proofs.Image.Codec

/-!
# Decoding what was encoded

The bytes of instructions with the right number of operands are code, and decoding them gives the
instructions back, each with the length of those in front of it as its address
(`decodeRom_flatMap_toBytes`, `follow_listFrom`). No other bytes are decoded
(`decodeRom_eq_ok_iff`).
-/

namespace TeachingCpu

namespace Instruction

/-- An instruction with as many operands as it takes. -/
def Complete (i : Instruction) : Prop := i.operands.length = i.opcode.arity

theorem length_flatMap_toBytes (operands : List Operand) :
    (operands.flatMap Operand.toBytes).length = 2 * operands.length := by
  induction operands with
  | nil => rfl
  | cons o rest ih =>
    rw [List.flatMap_cons, List.length_append, ih, List.length_cons]
    change 2 + _ = _
    omega

theorem Complete.length_operands {i : Instruction} (h : i.Complete) :
    (i.operands.flatMap Operand.toBytes).length = 2 * i.opcode.arity := by
  rw [length_flatMap_toBytes, h]

theorem Complete.length_toBytes {i : Instruction} (h : i.Complete) :
    i.toBytes.length = i.opcode.length := by
  rw [toBytes, List.length_cons, h.length_operands, Opcode.length]
  omega

end Instruction

/-- The bytes of instructions are code. -/
theorem isCode_flatMap_toBytes {instructions : List Instruction}
    (h : ∀ i ∈ instructions, i.Complete) : IsCode (instructions.flatMap Instruction.toBytes) := by
  induction instructions with
  | nil => exact .nil
  | cons i rest ih =>
    obtain ⟨hi, hrest⟩ := List.forall_mem_cons.mp h
    exact .cons i.opcode _ _ hi.length_operands (ih hrest)

namespace Listing

theorem decodeOperands_toBytes (operands : List Operand) :
    decodeOperands (operands.flatMap Operand.toBytes) = .ok operands := by
  induction operands with
  | nil => rfl
  | cons o rest ih =>
    rw [List.flatMap_cons]
    change decodeOperands (o.mode.tag :: o.value :: rest.flatMap Operand.toBytes) = _
    rw [decodeOperands, Mode.ofTag?_tag]
    simp only [ih]
    rfl

/-- Instructions one after the other from an address on, with their addresses. -/
def listFrom (address : Nat) : List Instruction → List ListedInstruction
  | [] => []
  | i :: rest => ⟨address.toUInt16, i⟩ :: listFrom (address + i.opcode.length) rest

theorem decodeFrom_flatMap_toBytes {instructions : List Instruction}
    (h : ∀ i ∈ instructions, i.Complete) (address : Nat) (done : List ListedInstruction) :
    decodeFrom address (instructions.flatMap Instruction.toBytes) done =
      .ok (done.reverse ++ listFrom address instructions) := by
  induction instructions generalizing address done with
  | nil =>
    rw [List.flatMap_nil, decodeFrom, listFrom, List.append_nil]
  | cons i rest ih =>
    obtain ⟨hi, hrest⟩ := List.forall_mem_cons.mp h
    have hlength := hi.length_operands
    rw [List.flatMap_cons, Instruction.toBytes, List.cons_append, decodeFrom, Opcode.ofCode?_code]
    dsimp only
    rw [List.take_left' hlength, List.drop_left' hlength, if_neg (by omega),
      decodeOperands_toBytes]
    dsimp only
    rw [ih hrest, List.reverse_cons, List.append_assoc]
    rfl

theorem decodeRom_flatMap_toBytes {instructions : List Instruction}
    (h : ∀ i ∈ instructions, i.Complete) :
    decodeRom (instructions.flatMap Instruction.toBytes) = .ok (listFrom 0 instructions) :=
  decodeFrom_flatMap_toBytes h 0 []

/-! ## What is decoded -/

theorem decodeOperands_eq_ok {n : Nat} {bytes : List UInt8} {operands : List Operand}
    (hlength : bytes.length = 2 * n) (h : decodeOperands bytes = .ok operands) :
    operands.length = n ∧ bytes = operands.flatMap Operand.toBytes := by
  induction n generalizing bytes operands with
  | zero =>
    obtain rfl := List.eq_nil_of_length_eq_zero hlength
    cases h
    exact ⟨rfl, rfl⟩
  | succ n ih =>
    match bytes, hlength with
    | tag :: value :: rest, hlength =>
      have hrest : rest.length = 2 * n := by
        simp only [List.length_cons] at hlength
        omega
      rw [decodeOperands] at h
      cases hmode : Mode.ofTag? tag with
      | none =>
        rw [hmode] at h
        cases h
      | some mode =>
        rw [hmode] at h
        obtain ⟨operands', hoperands, h⟩ := Except.bind_eq_ok_iff.mp h
        cases h
        obtain ⟨hn, rfl⟩ := ih hrest hoperands
        refine ⟨congrArg (· + 1) hn, ?_⟩
        rw [List.flatMap_cons, Mode.tag_of_ofTag? hmode]
        rfl

theorem decodeFrom_eq_ok {address : Nat} {rom : List UInt8} {done listed : List ListedInstruction}
    (h : decodeFrom address rom done = .ok listed) :
    ∃ instructions : List Instruction, (∀ i ∈ instructions, i.Complete) ∧
      rom = instructions.flatMap Instruction.toBytes ∧
      listed = done.reverse ++ listFrom address instructions := by
  fun_induction decodeFrom address rom done with
  | case1 address done =>
    cases h
    exact ⟨[], List.forall_mem_nil _, rfl, (List.append_nil _).symm⟩
  | case2 => cases h
  | case3 => cases h
  | case4 => cases h
  | case5 address done code rest op hop bytes hlength operands hoperands ih =>
    obtain ⟨instructions, hcomplete, hrest, rfl⟩ := ih h
    have hbytes : bytes.length = 2 * op.arity :=
      Nat.le_antisymm (List.length_take_le ..) (Nat.le_of_not_lt hlength)
    obtain ⟨harity, hcode⟩ := decodeOperands_eq_ok hbytes hoperands
    refine ⟨⟨op, operands⟩ :: instructions, List.forall_mem_cons.mpr ⟨harity, hcomplete⟩, ?_, ?_⟩
    · rw [List.flatMap_cons, ← hrest, Instruction.toBytes, ← hcode, Opcode.code_of_ofCode? hop,
        List.cons_append, List.take_append_drop]
    · rw [List.reverse_cons, List.append_assoc]
      rfl

/-- Exactly the bytes of instructions with the right number of operands are decoded. -/
theorem decodeRom_eq_ok_iff {rom : List UInt8} {listed : List ListedInstruction} :
    decodeRom rom = .ok listed ↔
      ∃ instructions : List Instruction, (∀ i ∈ instructions, i.Complete) ∧
        rom = instructions.flatMap Instruction.toBytes ∧ listed = listFrom 0 instructions := by
  constructor
  · exact decodeFrom_eq_ok
  · rintro ⟨instructions, hcomplete, rfl, rfl⟩
    exact decodeRom_flatMap_toBytes hcomplete

/-- A listed instruction stands behind the bytes of those in front of it. -/
theorem exists_of_mem_listFrom {address : Nat} {instructions : List Instruction}
    {l : ListedInstruction} (hcomplete : ∀ i ∈ instructions, i.Complete)
    (hl : l ∈ listFrom address instructions) :
    ∃ front back, instructions = front ++ l.instruction :: back ∧
      l.offset = (address + (front.flatMap Instruction.toBytes).length).toUInt16 := by
  induction instructions generalizing address with
  | nil => cases hl
  | cons i rest ih =>
    obtain ⟨hi, hrest⟩ := List.forall_mem_cons.mp hcomplete
    rcases List.mem_cons.mp hl with rfl | hl
    · exact ⟨[], rest, rfl, rfl⟩
    · obtain ⟨front, back, rfl, hoffset⟩ := ih hrest hl
      refine ⟨i :: front, back, rfl, ?_⟩
      rw [hoffset, List.flatMap_cons, List.length_append, hi.length_toBytes, Nat.add_assoc]

theorem map_instruction_listFrom (address : Nat) (instructions : List Instruction) :
    (listFrom address instructions).map ListedInstruction.instruction = instructions := by
  induction instructions generalizing address with
  | nil => rfl
  | cons i rest ih => exact congrArg (i :: ·) (ih _)

/-- Instructions of the same opcodes stand at the same addresses. -/
theorem forall₂_listFrom {R : Instruction → Instruction → Prop}
    (hopcode : ∀ {i i'}, R i i' → i'.opcode = i.opcode) {is is' : List Instruction}
    (h : List.Forall₂ R is is') (address : Nat) :
    List.Forall₂ (fun l l' => l'.offset = l.offset ∧ R l.instruction l'.instruction)
      (listFrom address is) (listFrom address is') := by
  induction h generalizing address with
  | nil => exact .nil
  | cons hfirst _ ih =>
    refine .cons ⟨rfl, hfirst⟩ ?_
    rw [hopcode hfirst]
    exact ih _

/-! ## Code addresses -/

/-- Instructions that follow each other from one code address to another. -/
def Follow (start : Nat) : List ListedInstruction → Nat → Prop
  | [], stop => start = stop
  | i :: rest, stop =>
    i.offset.toNat = start ∧ Follow (start + i.instruction.opcode.length) rest stop

theorem follow_append {start stop : Nat} {front back : List ListedInstruction} :
    Follow start (front ++ back) stop ↔
      ∃ middle, Follow start front middle ∧ Follow middle back stop := by
  induction front generalizing start with
  | nil =>
    constructor
    · intro h
      exact ⟨start, rfl, h⟩
    · intro hparts
      rcases hparts with ⟨middle, hstart, hback⟩
      have hstart : start = middle := hstart
      rw [hstart]
      exact hback
  | cons i rest ih =>
    simp only [List.cons_append, Follow, ih]
    constructor
    · intro hparts
      rcases hparts with ⟨hi, middle, hrest, hback⟩
      exact ⟨middle, ⟨hi, hrest⟩, hback⟩
    · intro hparts
      rcases hparts with ⟨middle, ⟨hi, hrest⟩, hback⟩
      exact ⟨hi, middle, hrest, hback⟩

theorem Follow.stop_eq {start stop stop' : Nat} {instructions : List ListedInstruction}
    (h : Follow start instructions stop) (h' : Follow start instructions stop') :
    stop = stop' := by
  induction instructions generalizing start with
  | nil =>
    have hstop : start = stop := h
    have hstop' : start = stop' := h'
    rw [← hstop, hstop']
  | cons i rest ih => exact ih h.2 h'.2

theorem Follow.le {start stop : Nat} {instructions : List ListedInstruction}
    (h : Follow start instructions stop) : start ≤ stop := by
  induction instructions generalizing start with
  | nil => exact Nat.le_of_eq h
  | cons i rest ih => exact Nat.le_trans (Nat.le_add_right _ _) (ih h.2)

theorem Follow.offset_lt {start stop : Nat} {instructions : List ListedInstruction}
    (h : Follow start instructions stop) {i : ListedInstruction} (hi : i ∈ instructions) :
    i.offset.toNat < stop := by
  induction instructions generalizing start with
  | nil => cases hi
  | cons first rest ih =>
    obtain ⟨hfirst, hrest⟩ := h
    rcases List.mem_cons.mp hi with rfl | hi
    · have hle := hrest.le
      have hlength : i.instruction.opcode.length = 1 + 2 * i.instruction.opcode.arity := rfl
      omega
    · exact ih hrest hi

theorem follow_listFrom {instructions : List Instruction} {start : Nat}
    (hcomplete : ∀ i ∈ instructions, i.Complete)
    (h : start + (instructions.flatMap Instruction.toBytes).length ≤ 65535) :
    Follow start (listFrom start instructions)
      (start + (instructions.flatMap Instruction.toBytes).length) := by
  induction instructions generalizing start with
  | nil => rfl
  | cons i rest ih =>
    obtain ⟨hi, hrest⟩ := List.forall_mem_cons.mp hcomplete
    rw [List.flatMap_cons, List.length_append, hi.length_toBytes, ← Nat.add_assoc] at h ⊢
    exact ⟨Nat.toNat_toUInt16_of_le (by omega), ih hrest h⟩

end Listing

end TeachingCpu
